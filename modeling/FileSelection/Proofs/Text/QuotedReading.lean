import FileSelection.Proofs.Text.JsonReading
import FileSelection.Text.Quoted

/-! A reader of quoted text, and the proof that it undoes the quoting. The reader takes the escapes
of one letter and those by code point, with any number of hexadecimal digits in braces. So a quoted
text ends at its own closing quote, whatever follows it, and two texts that are quoted alike are the
same. What is quoted shows none of the characters that are concealed. -/

namespace FileSelection.Text.Quoted

open Json (before hexDigit? hexDigit?_digitChar ofCodePoint?)

/-! ### Reading -/

/-- The character that a letter after a backslash stands for. -/
def ofLetter? : Char → Option Char
  | '0' => some '\x00'
  | 't' => some '\t'
  | 'r' => some '\r'
  | 'n' => some '\n'
  | '"' => some '"'
  | '\\' => some '\\'
  | _ => none

def closingBrace : Char := '\x7d'

/-- A text up to its closing quote, and what follows the quote. -/
def readText : List Char → Option (List Char × List Char)
  | [] => none
  | '"' :: rest => some ([], rest)
  | '\\' :: 'u' :: '\x7b' :: rest =>
    (ofCodePoint? (rest.takeWhile (· != closingBrace))).bind
      (before · (readText ((rest.dropWhile (· != closingBrace)).drop 1)))
  | '\\' :: letter :: rest => (ofLetter? letter).bind (before · (readText rest))
  | c :: rest => if c = '\\' then none else before c (readText rest)
termination_by input => input.length
decreasing_by
  · have := (List.dropWhile_suffix (l := rest) (· != closingBrace)).length_le
    simp only [List.length_drop, List.length_cons]
    omega
  · simp only [List.length_cons]
    omega
  · exact Nat.lt_succ_self _

/-! ### Hexadecimal digits -/

/-- What holds of every digit holds of the digits of a number. -/
theorem forall_mem_toDigits {P : Char → Prop} (hP : ∀ d < 16, P (Nat.digitChar d)) (n : ℕ) :
    ∀ c ∈ Nat.toDigits 16 n, P c := by
  induction n using Nat.strongRecOn with
  | ind n ih =>
    by_cases h : n < 16
    · rw [Nat.toDigits_of_lt_base h]
      exact List.forall_mem_singleton.2 (hP n h)
    · have hlast : n % 16 < 16 := Nat.mod_lt n (by decide)
      rw [← Nat.div_add_mod n 16,
        ← Nat.toDigits_append_toDigits (by decide) (by omega : 0 < n / 16) hlast,
        Nat.toDigits_of_lt_base hlast]
      exact List.forall_mem_append.2
        ⟨ih (n / 16) (by omega), List.forall_mem_singleton.2 (hP _ hlast)⟩

theorem foldlM_hexDigit? (n : ℕ) :
    (Nat.toDigits 16 n).foldlM (fun n c => (hexDigit? c).map (16 * n + ·)) 0 = some n := by
  induction n using Nat.strongRecOn with
  | ind n ih =>
    have hlast : n % 16 < 16 := Nat.mod_lt n (by decide)
    by_cases h : n < 16
    · rw [Nat.toDigits_of_lt_base h]
      simp [hexDigit?_digitChar h]
    · have hfront := ih (n / 16) (by omega)
      rw [← Nat.div_add_mod n 16,
        ← Nat.toDigits_append_toDigits (by decide) (by omega : 0 < n / 16) hlast,
        List.foldlM_append, hfront, Nat.toDigits_of_lt_base hlast]
      simp [hexDigit?_digitChar hlast]

theorem ofCodePoint?_toDigits (c : Char) : ofCodePoint? (Nat.toDigits 16 c.toNat) = some c := by
  have hvalid : c.toNat.isValidChar := c.valid
  rw [ofCodePoint?, foldlM_hexDigit?, Option.bind_some, if_pos hvalid, Char.ofNat_toNat]

/-! ### Reading what was quoted -/

theorem readText_codePoint (c : Char) (rest : List Char) :
    readText (codePoint c ++ rest) = before c (readText rest) := by
  have hdigits : ∀ d ∈ Nat.toDigits 16 c.toNat, (d != closingBrace) = true :=
    forall_mem_toDigits (by decide) _
  have hinput : codePoint c ++ rest =
      '\\' :: 'u' :: '\x7b' :: (Nat.toDigits 16 c.toNat ++ closingBrace :: rest) := by
    simp [codePoint, closingBrace]
  rw [hinput, readText, List.takeWhile_append_of_pos hdigits, List.dropWhile_append_of_pos hdigits]
  simp [ofCodePoint?_toDigits]

theorem readText_letter {letter c : Char} (hletter : letter ≠ 'u') (h : ofLetter? letter = some c)
    (rest : List Char) : readText (['\\', letter] ++ rest) = before c (readText rest) := by
  rw [List.cons_append, List.cons_append, List.nil_append, readText, h]
  · rfl
  · exact fun _ heq => absurd heq hletter

/-- An escaped character is read back by itself. -/
theorem readText_escape (c : Char) (rest : List Char) :
    readText (escape c ++ rest) = before c (readText rest) := by
  unfold escape
  split_ifs with hzero ht hr hn hquote hbackslash
  · rw [hzero]
    exact readText_letter (by decide) rfl rest
  · rw [ht]
    exact readText_letter (by decide) rfl rest
  · rw [hr]
    exact readText_letter (by decide) rfl rest
  · rw [hn]
    exact readText_letter (by decide) rfl rest
  · rw [hquote]
    exact readText_letter (by decide) rfl rest
  · rw [hbackslash]
    exact readText_letter (by decide) rfl rest
  · exact readText_codePoint c rest
  · rw [List.singleton_append, readText, if_neg hbackslash]
    · exact hquote
    · exact fun _ h => absurd h hbackslash
    · exact fun _ _ h => absurd h hbackslash

theorem readText_append (text rest : List Char) :
    readText (text.flatMap escape ++ '"' :: rest) = some (text, rest) := by
  induction text with
  | nil => rw [List.flatMap_nil, List.nil_append, readText]
  | cons c text ih =>
    rw [List.flatMap_cons, List.append_assoc, readText_escape, ih]
    rfl

/-- A text is read back from its quotation, up to the closing quote. -/
def read? : List Char → Option (List Char × List Char)
  | '"' :: input => readText input
  | _ => none

theorem toList_quote_append (text : String) (rest : List Char) :
    (quote text).toList ++ rest = '"' :: (text.toList.flatMap escape ++ '"' :: rest) := by
  rw [quote, String.toList_ofList, List.append_assoc]
  simp

theorem read?_quote (text : String) (rest : List Char) :
    read? ((quote text).toList ++ rest) = some (text.toList, rest) := by
  rw [toList_quote_append]
  exact readText_append text.toList rest

/-! ### What is shown -/

/-- A character of ASCII that is no control character. -/
def isPlainAscii (c : Char) : Bool := 0x20 ≤ c.toNat && c.toNat < 0x7F

theorem isConcealed_of_isPlainAscii {c : Char} (h : isPlainAscii c) : isConcealed c = false := by
  rw [isPlainAscii, Bool.and_eq_true, decide_eq_true_eq, decide_eq_true_eq] at h
  exact isConcealed_eq_false h.1 h.2

theorem isConcealed_of_mem_plain {chars : List Char} (h : chars.all isPlainAscii) {c : Char}
    (hc : c ∈ chars) : isConcealed c = false :=
  isConcealed_of_isPlainAscii (List.all_eq_true.1 h c hc)

theorem all_isPlainAscii_codePoint (c : Char) : (codePoint c).all isPlainAscii := by
  have hdigits : (Nat.toDigits 16 c.toNat).all isPlainAscii :=
    List.all_eq_true.2 (forall_mem_toDigits (by decide) _)
  rw [codePoint, List.all_append, List.all_append, hdigits]
  rfl

/-- An escape is plain, and a character that is not escaped is not concealed. -/
theorem isConcealed_of_mem_escape {c shown : Char} (h : shown ∈ escape c) :
    isConcealed shown = false := by
  unfold escape at h
  split_ifs at h with _ _ _ _ _ _ hconcealed
  any_goals exact isConcealed_of_mem_plain rfl h
  · exact isConcealed_of_mem_plain (all_isPlainAscii_codePoint c) h
  · rw [List.mem_singleton.1 h]
    exact Bool.eq_false_iff.2 hconcealed

theorem isConcealed_of_mem_quote {text : String} {shown : Char} (h : shown ∈ (quote text).toList) :
    isConcealed shown = false := by
  rw [← List.append_nil (quote text).toList, toList_quote_append] at h
  simp only [List.mem_cons, List.mem_append, List.mem_flatMap, List.not_mem_nil, or_false] at h
  rcases h with rfl | ⟨c, -, hc⟩ | rfl
  · exact isConcealed_of_isPlainAscii rfl
  · exact isConcealed_of_mem_escape hc
  · exact isConcealed_of_isPlainAscii rfl

end FileSelection.Text.Quoted
