import FileSelection.Text.Json
import Mathlib.Data.List.TakeWhile

/-! A reader of compact JSON objects, and the proof that it undoes the writing of one. The reader
takes the part of JSON that is needed for objects of texts and whole numbers, and takes it as JSON
has it: every escape of one letter, escapes by four hexadecimal digits in either case for the
characters that need only one of them, no control character by itself, and no number with a zero in
front. A written object holds no line break, whatever the texts in it. -/

namespace FileSelection.Text.Json

/-! ### Reading -/

/-- The character that a letter after a backslash stands for. -/
def ofLetter? : Char → Option Char
  | '"' => some '"'
  | '\\' => some '\\'
  | '/' => some '/'
  | 'b' => some '\x08'
  | 'f' => some '\x0c'
  | 'n' => some '\n'
  | 'r' => some '\r'
  | 't' => some '\t'
  | _ => none

def hexDigit? (c : Char) : Option ℕ :=
  if '0' ≤ c ∧ c ≤ '9' then some (c.toNat - '0'.toNat)
  else if 'a' ≤ c ∧ c ≤ 'f' then some (c.toNat - 'a'.toNat + 10)
  else if 'A' ≤ c ∧ c ≤ 'F' then some (c.toNat - 'A'.toNat + 10)
  else none

/-- The character of a code point in hexadecimal digits, where the digits name one. -/
def ofCodePoint? (digits : List Char) : Option Char :=
  (digits.foldlM (fun n c => (hexDigit? c).map (16 * n + ·)) 0).bind fun n =>
    if n.isValidChar then some (Char.ofNat n) else none

/-- A character in front of what else was read. -/
def before (c : Char) (read : Option (List Char × List Char)) : Option (List Char × List Char) :=
  read.map fun (text, rest) => (c :: text, rest)

/-- A text up to its closing quote, and what follows the quote. -/
def readText : List Char → Option (List Char × List Char)
  | [] => none
  | '"' :: rest => some ([], rest)
  | '\\' :: 'u' :: a :: b :: c :: d :: rest =>
    (ofCodePoint? [a, b, c, d]).bind (before · (readText rest))
  | '\\' :: letter :: rest => (ofLetter? letter).bind (before · (readText rest))
  | c :: rest => if c = '\\' ∨ c.toNat < 0x20 then none else before c (readText rest)

/-- A whole number, and what follows its last digit. -/
def readNumber (input : List Char) : Option (ℕ × List Char) :=
  let digits := input.takeWhile Char.isDigit
  if digits.head? = some '0' ∧ digits ≠ ['0'] then none
  else (Decimal.value? digits).map (·, input.dropWhile Char.isDigit)

def readValue : List Char → Option (Value × List Char)
  | '"' :: rest => (readText rest).map fun (text, rest) => (.text (String.ofList text), rest)
  | input => (readNumber input).map fun (n, rest) => (.number n, rest)

/-- A field: its key in quotes, a colon and its value. -/
def readField : List Char → Option ((String × Value) × List Char)
  | '"' :: rest =>
    match readText rest with
    | some (key, ':' :: rest) =>
      (readValue rest).map fun (value, rest) => ((String.ofList key, value), rest)
    | _ => none
  | _ => none

theorem exists_of_before {c : Char} {read : Option (List Char × List Char)}
    {text rest : List Char} (h : before c read = some (text, rest)) :
    ∃ text', read = some (text', rest) := by
  obtain ⟨⟨text', rest'⟩, hread, heq⟩ := Option.map_eq_some_iff.1 h
  obtain ⟨-, rfl⟩ := Prod.mk.inj heq
  exact ⟨text', hread⟩

theorem length_of_readText {input text rest : List Char}
    (h : readText input = some (text, rest)) : rest.length < input.length := by
  fun_induction readText input generalizing text with
  | case1 => cases h
  | case2 =>
    cases h
    exact Nat.lt_succ_self _
  | case3 a b c d tail ih =>
    obtain ⟨_, -, hread⟩ := Option.bind_eq_some_iff.1 h
    obtain ⟨_, htail⟩ := exists_of_before hread
    have := ih htail
    simp only [List.length_cons]
    omega
  | case4 letter tail _ ih =>
    obtain ⟨_, -, hread⟩ := Option.bind_eq_some_iff.1 h
    obtain ⟨_, htail⟩ := exists_of_before hread
    have := ih htail
    simp only [List.length_cons]
    omega
  | case5 => cases h
  | case6 c tail _ _ _ _ ih =>
    obtain ⟨_, htail⟩ := exists_of_before h
    have := ih htail
    simp only [List.length_cons]
    omega

theorem length_of_readValue {input rest : List Char} {value : Value}
    (h : readValue input = some (value, rest)) : rest.length ≤ input.length := by
  rw [readValue.eq_def] at h
  split at h
  · obtain ⟨⟨text, rest'⟩, hread, heq⟩ := Option.map_eq_some_iff.1 h
    obtain ⟨-, rfl⟩ := Prod.mk.inj heq
    exact (length_of_readText hread).le.trans (Nat.le_succ _)
  · obtain ⟨⟨n, rest'⟩, hread, heq⟩ := Option.map_eq_some_iff.1 h
    obtain ⟨-, rfl⟩ := Prod.mk.inj heq
    rw [readNumber] at hread
    split_ifs at hread
    obtain ⟨_, -, heq⟩ := Option.map_eq_some_iff.1 hread
    obtain ⟨-, rfl⟩ := Prod.mk.inj heq
    exact (List.dropWhile_suffix _).length_le

theorem length_of_readField {input rest : List Char} {field : String × Value}
    (h : readField input = some (field, rest)) : rest.length < input.length := by
  rw [readField.eq_def] at h
  split at h
  · split at h
    next key tail hread =>
      obtain ⟨⟨value, rest'⟩, hvalue, heq⟩ := Option.map_eq_some_iff.1 h
      obtain ⟨-, rfl⟩ := Prod.mk.inj heq
      have hkey := length_of_readText hread
      have htail := length_of_readValue hvalue
      simp only [List.length_cons] at hkey ⊢
      omega
    · cases h
  · cases h

/-- Fields with commas between them, up to the closing brace at the end of the input. -/
def readFields (input : List Char) : Option (List (String × Value)) :=
  match _h : readField input with
  | some (field, ',' :: rest) => (readFields rest).map (field :: ·)
  | some (field, ['\x7d']) => some [field]
  | _ => none
termination_by input.length
decreasing_by exact (Nat.lt_succ_self _).trans (length_of_readField _h)

/-- An object, as the whole input. -/
def readObject : List Char → Option (List (String × Value))
  | ['\x7b', '\x7d'] => some []
  | '\x7b' :: rest => readFields rest
  | _ => none

theorem readFields_of_comma {input rest : List Char} {field : String × Value}
    (h : readField input = some (field, ',' :: rest)) :
    readFields input = (readFields rest).map (field :: ·) := by
  rw [readFields]
  split
  next hread =>
    rw [h] at hread
    cases hread
    rfl
  next hread =>
    rw [h] at hread
    cases hread
  next hcomma _ => exact absurd h (hcomma field rest)

theorem readFields_of_brace {input : List Char} {field : String × Value}
    (h : readField input = some (field, ['\x7d'])) : readFields input = some [field] := by
  rw [readFields]
  split
  next hread =>
    rw [h] at hread
    cases hread
  next hread =>
    rw [h] at hread
    cases hread
    rfl
  next hbrace => exact absurd h (hbrace field)

/-! ### Reading what was written -/

theorem hexDigit?_digitChar {n : ℕ} (h : n < 16) : hexDigit? (Nat.digitChar n) = some n := by
  have hall : ∀ m < 16, hexDigit? (Nat.digitChar m) = some m := by decide
  exact hall n h

theorem ofCodePoint?_digits {c : Char} (h : c.toNat < 0x20) :
    ofCodePoint? ['0', '0', Nat.digitChar (c.toNat / 16), Nat.digitChar (c.toNat % 16)] =
      some c := by
  have hzero : hexDigit? '0' = some 0 := rfl
  have hhigh := hexDigit?_digitChar (by omega : c.toNat / 16 < 16)
  have hlow := hexDigit?_digitChar (Nat.mod_lt c.toNat (by decide : 16 > 0))
  have hvalid : c.toNat.isValidChar := c.valid
  simp only [ofCodePoint?, List.foldlM_cons, List.foldlM_nil, hzero, hhigh, hlow, Option.map_some,
    Option.bind_eq_bind, Option.bind_some, Option.pure_def, Nat.mul_zero, Nat.zero_add,
    Nat.div_add_mod, if_pos hvalid, Char.ofNat_toNat]

/-- An escaped character is read back by itself. -/
theorem readText_escape (c : Char) (rest : List Char) :
    readText (escape c ++ rest) = before c (readText rest) := by
  unfold escape
  split_ifs with hquote hbackslash hb ht hn hf hr hcontrol
  · rw [hquote]
    rfl
  · rw [hbackslash]
    rfl
  · rw [hb]
    rfl
  · rw [ht]
    rfl
  · rw [hn]
    rfl
  · rw [hf]
    rfl
  · rw [hr]
    rfl
  · change (ofCodePoint? _).bind (before · (readText rest)) = _
    rw [ofCodePoint?_digits hcontrol]
    rfl
  · have hplain : ¬(c = '\\' ∨ c.toNat < 0x20) := not_or.2 ⟨hbackslash, hcontrol⟩
    rw [List.singleton_append, readText, if_neg hplain]
    · exact hquote
    · exact fun _ _ _ _ _ h => absurd h hbackslash
    · exact fun _ _ h => absurd h hbackslash

theorem readText_append (text rest : List Char) :
    readText (text.flatMap escape ++ '"' :: rest) = some (text, rest) := by
  induction text with
  | nil => rfl
  | cons c text ih =>
    rw [List.flatMap_cons, List.append_assoc, readText_escape, ih]
    rfl

/-- Escapes that the writer never uses are read too. -/
example : readText ['\\', '/', '\\', 'u', '0', '0', 'E', '9', '"', ','] =
    some (['/', '\u00e9'], [',']) := by
  decide

theorem readNumber_write (n : ℕ) {c : Char} (h : c.isDigit = false) (rest : List Char) :
    readNumber ((Decimal.write n).toList ++ c :: rest) = some (n, c :: rest) := by
  have hdigits : ∀ d ∈ (Decimal.write n).toList, d.isDigit = true := fun _ =>
    Decimal.isDigit_of_mem_write
  have hhead : ¬((Decimal.write n).toList.head? = some '0' ∧ (Decimal.write n).toList ≠ ['0']) :=
    fun ⟨hzero, hne⟩ => hne (Decimal.write_eq_zero_of_head? hzero)
  have hstop : (c :: rest).takeWhile Char.isDigit = [] := by simp [h]
  have hrest : (c :: rest).dropWhile Char.isDigit = c :: rest := by simp [h]
  rw [readNumber, List.takeWhile_append_of_pos hdigits, hstop, List.append_nil, if_neg hhead,
    List.dropWhile_append_of_pos hdigits, hrest, Decimal.value?_write]
  rfl

theorem writeText_append (s : String) (rest : List Char) :
    writeText s ++ rest = '"' :: (s.toList.flatMap escape ++ '"' :: rest) := by
  simp [writeText]

/-- A written value is read back where no digit follows it. -/
theorem readValue_write (value : Value) {c : Char} (h : c.isDigit = false) (rest : List Char) :
    readValue (value.write ++ c :: rest) = some (value, c :: rest) := by
  cases value with
  | text s =>
    rw [Value.write, writeText_append, readValue, readText_append]
    simp only [Option.map_some, String.ofList_toList]
  | number n =>
    rw [Value.write, readValue, readNumber_write n h]
    · rfl
    · intro rest' heq
      cases hdigits : (Decimal.write n).toList with
      | nil => exact Decimal.write_ne_empty n (String.toList_eq_nil_iff.1 hdigits)
      | cons d digits =>
        have hdigit : d.isDigit := @Decimal.isDigit_of_mem_write n d (hdigits ▸ List.mem_cons_self)
        rw [hdigits] at heq
        obtain ⟨rfl, -⟩ := List.cons.inj heq
        exact absurd hdigit (by decide)

theorem readField_write (field : String × Value) {c : Char} (h : c.isDigit = false)
    (rest : List Char) :
    readField (writeField field ++ c :: rest) = some (field, c :: rest) := by
  obtain ⟨key, value⟩ := field
  rw [writeField, List.append_assoc, writeText_append, List.cons_append, readField,
    readText_append]
  simp only [readValue_write value h, Option.map_some, String.ofList_toList]

/-- Written fields are read back up to the closing brace. -/
theorem readFields_intercalate (field : String × Value) (fields : List (String × Value)) :
    readFields ([','].intercalate ((field :: fields).map writeField) ++ ['\x7d']) =
      some (field :: fields) := by
  induction fields generalizing field with
  | nil =>
    rw [List.map_singleton, List.intercalate_singleton]
    exact readFields_of_brace (readField_write field (by decide) [])
  | cons next fields ih =>
    rw [List.map_cons, List.map_cons, List.intercalate_cons_cons, List.append_assoc,
      List.append_assoc, List.singleton_append, ← List.map_cons,
      readFields_of_comma (readField_write field (by decide) _), ih]
    rfl

/-- Reading an object gives back the fields that were written. -/
theorem readObject_writeObject (fields : List (String × Value)) :
    readObject (writeObject fields).toList = some fields := by
  rw [writeObject, String.toList_ofList]
  cases fields with
  | nil => rfl
  | cons field fields =>
    have hread := readFields_intercalate field fields
    rw [List.cons_append, readObject, hread]
    intro hempty
    have hbrace : readFields ['\x7d'] = none := by
      rw [readFields]
      rfl
    rw [hempty, hbrace] at hread
    cases hread

/-! ### Line breaks -/

theorem not_mem_intercalate {α : Type} {x sep : α} {pieces : List (List α)} (hsep : x ≠ sep)
    (h : ∀ piece ∈ pieces, x ∉ piece) : x ∉ [sep].intercalate pieces := by
  induction pieces with
  | nil => exact List.not_mem_nil
  | cons piece pieces ih =>
    obtain ⟨hpiece, hrest⟩ := List.forall_mem_cons.1 h
    cases pieces with
    | nil => rwa [List.intercalate_singleton]
    | cons next pieces =>
      rw [List.intercalate_cons_cons]
      simp [hpiece, hsep, ih hrest]

theorem newline_not_mem_escape (c : Char) : '\n' ∉ escape c := by
  have hdigit : ∀ n < 16, '\n' ≠ Nat.digitChar n := by decide
  unfold escape
  split_ifs with _ _ _ _ hnewline _ _ hcontrol
  any_goals decide
  · have hhigh := hdigit (c.toNat / 16) (by omega)
    have hlow := hdigit (c.toNat % 16) (Nat.mod_lt _ (by decide))
    simp [hhigh, hlow]
  · simpa using Ne.symm hnewline

theorem newline_not_mem_writeText (s : String) : '\n' ∉ writeText s := by
  simp [writeText, newline_not_mem_escape]

theorem newline_not_mem_write (value : Value) : '\n' ∉ value.write := by
  cases value with
  | text s => exact newline_not_mem_writeText s
  | number n => exact fun h => absurd (Decimal.isDigit_of_mem_write h) (by decide)

/-- A written object is on one line. -/
theorem newline_not_mem_writeObject (fields : List (String × Value)) :
    '\n' ∉ (writeObject fields).toList := by
  have hfield : ∀ field : String × Value, '\n' ∉ writeField field := fun field => by
    simp [writeField, newline_not_mem_writeText, newline_not_mem_write]
  have hfields : '\n' ∉ [','].intercalate (fields.map writeField) :=
    not_mem_intercalate (by decide) fun piece hmem => by
      obtain ⟨field, -, rfl⟩ := List.mem_map.1 hmem
      exact hfield field
  rw [writeObject, String.toList_ofList]
  simp [hfields]

end FileSelection.Text.Json
