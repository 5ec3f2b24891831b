import FileSelection.CommandFile.Directive
import Mathlib.Data.List.DropRight

/-! The parts of a directive line. A line is a name, parameters and modifier words with separators
between them, and then any number of separators. Without conditions on the parts a line has many
such forms: a separator at the end could also be an empty parameter, and a modifier word could be a
parameter. The conditions below leave one form to every line, and the main statement is that a line
is taken apart into exactly that one. The same parts are found from the end of the line, by dropping
the separators and counting the modifier words there. -/

namespace FileSelection

/-! ### Trimmed and cut lists -/

theorem Text.dropTrailing_eq_iff {α : Type} [BEq α] [LawfulBEq α] {a : α} {xs ys : List α} :
    dropTrailing (· == a) xs = ys ↔
      ys.getLast? ≠ some a ∧ ∃ n, xs = ys ++ List.replicate n a := by
  constructor
  · rintro rfl
    refine ⟨fun hlast => ?_, ?_⟩
    · have := not_of_getLast?_dropTrailing hlast
      simp at this
    · obtain ⟨tail, hxs, htail⟩ := exists_dropTrailing_append (· == a) xs
      have : tail = List.replicate tail.length a :=
        List.eq_replicate_of_mem fun x hx => eq_of_beq (htail x hx)
      exact ⟨tail.length, by rw [← this]; exact hxs⟩
  · rintro ⟨hlast, n, rfl⟩
    have hself : List.rdropWhile (· == a) ys = ys := by
      refine List.rdropWhile_eq_self_iff.2 fun hne hpass => hlast ?_
      rw [List.getLast?_eq_some_getLast hne, eq_of_beq hpass]
    rw [dropTrailing, List.reverse_append, List.reverse_replicate,
      List.dropWhile_append_of_pos fun x hx => beq_iff_eq.2 (List.eq_of_mem_replicate hx)]
    exact hself

theorem Text.cut_eq_splitOn {α : Type} [DecidableEq α] (sep : α) (xs : List α) :
    cut sep xs = xs.splitOn sep := by
  induction xs with
  | nil => rfl
  | cons x xs ih =>
    have hne := cut_ne_nil sep xs
    rw [cut_cons, ih, List.splitOn, List.splitOn, List.splitOnP_cons_eq_if_modifyHead]
    rw [ih, List.splitOn] at hne
    simp only [beq_iff_eq]
    congr 1
    cases hpieces : xs.splitOnP (· == sep) with
    | nil => exact absurd hpieces hne
    | cons piece pieces => rfl

/-- The first piece ends in front of the first separator. -/
theorem Text.head?_cut {α : Type} [DecidableEq α] (sep : α) (xs : List α) :
    (cut sep xs).head? = some (xs.takeWhile (· != sep)) := by
  induction xs with
  | nil => rfl
  | cons x xs ih =>
    rw [cut_cons]
    by_cases h : x = sep
    · simp [h]
    · obtain ⟨first, rest, hcut⟩ := List.exists_cons_of_ne_nil (cut_ne_nil sep xs)
      rw [hcut, List.head?_cons, Option.some_inj] at ih
      simp [h, hcut, consFirst, ih]

namespace Directive

/-! ### Tokens -/

/-- No token holds a separator. -/
def Apart (tokens : List String) : Prop := ∀ token ∈ tokens, separator ∉ token.toList

/-- Tokens with separators between them. -/
def joined (tokens : List String) : String := String.intercalate separator.toString tokens

/-- So many separators. -/
def separators (n : ℕ) : String := String.ofList (List.replicate n separator)

theorem joined_concat {tokens : List String} (h : tokens ≠ []) (token : String) :
    joined (tokens ++ [token]) = joined tokens ++ (separator.toString ++ token) := by
  rw [joined, String.intercalate_append_of_ne_nil h (List.cons_ne_nil _ _), ← joined,
    String.intercalate_singleton, String.append_assoc]

/-- A token that is repeated at the end stands there behind as many separators. -/
theorem joined_append_replicate {tokens : List String} (h : tokens ≠ []) (token : String) (n : ℕ) :
    joined (tokens ++ List.replicate n token) =
      joined tokens ++ String.join (List.replicate n (separator.toString ++ token)) := by
  induction n with
  | zero => rw [List.replicate_zero, List.append_nil]; exact String.append_empty.symm
  | succ n ih =>
    have hne : tokens ++ List.replicate n token ≠ [] := List.append_ne_nil_of_left_ne_nil h _
    rw [List.replicate_succ', ← List.append_assoc, joined_concat hne, ih, List.replicate_succ',
      String.join_append, String.append_assoc, String.join_cons, String.join_nil,
      String.append_empty]

theorem join_replicate_separator (n : ℕ) :
    String.join (List.replicate n (separator.toString ++ "")) = separators n := by
  induction n with
  | zero => rfl
  | succ n ih =>
    rw [List.replicate_succ, String.join_cons, ih, String.append_empty, separators, separators,
      List.replicate_succ, String.ofList_cons]
    rfl

theorem joined_append_empty {tokens : List String} (h : tokens ≠ []) (n : ℕ) :
    joined (tokens ++ List.replicate n "") = joined tokens ++ separators n := by
  rw [joined_append_replicate h, join_replicate_separator]

/-- Apart from separators, joined tokens have the characters of the tokens. -/
theorem mem_joined_iff {c : Char} (h : c ≠ separator) {tokens : List String} :
    c ∈ (joined tokens).toList ↔ ∃ token ∈ tokens, c ∈ token.toList := by
  induction tokens with
  | nil => simp [joined]
  | cons token tokens ih =>
    cases tokens with
    | nil => simp [joined]
    | cons next tokens =>
      have hsep : c ∉ separator.toString.toList := by
        intro hmem
        exact h (List.mem_singleton.1 hmem)
      rw [joined, String.intercalate_cons_cons, ← joined, String.toList_append,
        String.toList_append, List.mem_append, List.mem_append, ih]
      simp only [List.exists_mem_cons_iff, hsep, or_false]

theorem cut_eq_iff {line : String} {tokens : List String} (hne : tokens ≠ []) :
    (Text.cut separator line.toList).map String.ofList = tokens ↔
      line = joined tokens ∧ Apart tokens := by
  have hchars : line = joined tokens ↔
      line.toList = [separator].intercalate (tokens.map String.toList) := by
    rw [← String.toList_inj, joined, String.toList_intercalate]
    rfl
  have hback (pieces : List (List Char)) :
      (pieces.map String.ofList).map String.toList = pieces := by
    simp [Function.comp_def]
  rw [hchars]
  constructor
  · rintro rfl
    rw [hback, Text.intercalate_cut]
    refine ⟨rfl, fun token htoken => ?_⟩
    obtain ⟨piece, hpiece, rfl⟩ := List.mem_map.1 htoken
    rw [String.toList_ofList]
    exact Text.not_mem_of_mem_cut hpiece
  · rintro ⟨hline, hfree⟩
    have hpieces : ∀ piece ∈ tokens.map String.toList, separator ∉ piece := by
      intro piece hpiece
      obtain ⟨token, htoken, rfl⟩ := List.mem_map.1 hpiece
      exact hfree token htoken
    rw [hline, Text.cut_intercalate (by simpa using hne) hpieces]
    simp [Function.comp_def]

theorem tokens_ne_nil (line : String) : tokens line ≠ [] := by
  intro h
  rw [tokens] at h
  split at h
  · next hpieces => exact Text.cut_ne_nil _ _ (List.map_eq_nil_iff.1 hpieces)
  · cases h

theorem apart_append_empty {tokens : List String} (n : ℕ) :
    Apart (tokens ++ List.replicate n "") ↔ Apart tokens := by
  have hempty : separator ∉ "".toList := List.not_mem_nil
  refine ⟨fun h token htoken => h token (List.mem_append_left _ htoken), fun h token htoken => ?_⟩
  rcases List.mem_append.1 htoken with hfront | hend
  · exact h token hfront
  · rw [List.eq_of_mem_replicate hend]
    exact hempty

/-- The tokens of a line join to the line up to separators at its end. -/
theorem tokens_eq_iff {line name : String} {rest : List String} :
    tokens line = name :: rest ↔
      Apart (name :: rest) ∧ rest.getLast? ≠ some "" ∧
        ∃ n, line = joined (name :: rest) ++ separators n := by
  have hcut : tokens line = name :: rest ↔
      rest.getLast? ≠ some "" ∧ ∃ n, (Text.cut separator line.toList).map String.ofList =
        name :: rest ++ List.replicate n "" := by
    rw [tokens]
    cases hpieces : (Text.cut separator line.toList).map String.ofList with
    | nil => exact absurd (List.map_eq_nil_iff.1 hpieces) (Text.cut_ne_nil _ _)
    | cons first others =>
      simp only [List.cons.injEq, Text.dropTrailing_eq_iff, List.cons_append]
      constructor
      · rintro ⟨hfirst, hlast, n, hothers⟩
        exact ⟨hlast, n, hfirst, hothers⟩
      · rintro ⟨hlast, n, hfirst, hothers⟩
        exact ⟨hfirst, hlast, n, hothers⟩
  have hparts (n : ℕ) : (Text.cut separator line.toList).map String.ofList =
      name :: rest ++ List.replicate n "" ↔
        line = joined (name :: rest) ++ separators n ∧ Apart (name :: rest) := by
    rw [cut_eq_iff (by simp), joined_append_empty (List.cons_ne_nil _ _), apart_append_empty]
  simp only [hcut, hparts]
  constructor
  · rintro ⟨hlast, n, hline, hfree⟩
    exact ⟨hfree, hlast, n, hline⟩
  · rintro ⟨hfree, hlast, n, hline⟩
    exact ⟨hlast, n, hline, hfree⟩

/-! ### Directives -/

theorem separator_not_mem_word (modifier : Modifier) : separator ∉ modifier.word.toList := by
  cases modifier <;> decide

theorem word_ne_empty (modifier : Modifier) : modifier.word ≠ "" := by
  cases modifier <;> decide

/-- The tokens of a directive, modifier words and all. -/
def allTokens (modifier : Modifier) (d : Directive) : List String :=
  d.name :: (d.params ++ List.replicate d.modifiers modifier.word)

/-- The form of a line: a modifier word at the end counts as one, and an empty parameter stands in
front of something. -/
structure Decomposes (modifier : Modifier) (line : String) (d : Directive) : Prop where
  apart : Apart (d.name :: d.params)
  last_ne_word : d.params.getLast? ≠ some modifier.word
  last_ne_empty : d.modifiers = 0 → d.params.getLast? ≠ some ""
  line_eq : ∃ n, line = joined (d.allTokens modifier) ++ separators n

theorem mem_allTokens {modifier : Modifier} {d : Directive} {token : String}
    (h : token ∈ d.allTokens modifier) : token ∈ d.name :: d.params ∨ token = modifier.word := by
  rcases List.mem_cons.1 h with rfl | hrest
  · exact .inl List.mem_cons_self
  · rcases List.mem_append.1 hrest with hparam | hword
    · exact .inl (List.mem_cons_of_mem _ hparam)
    · exact .inr (List.eq_of_mem_replicate hword)

theorem apart_allTokens {modifier : Modifier} {d : Directive} :
    Apart (d.allTokens modifier) ↔ Apart (d.name :: d.params) := by
  refine ⟨fun h token htoken => h token ?_, fun h token htoken => ?_⟩
  · rw [allTokens, ← List.cons_append]
    exact List.mem_append_left _ htoken
  · rcases mem_allTokens htoken with hfront | rfl
    · exact h token hfront
    · exact separator_not_mem_word modifier

/-- A line has the characters of its tokens. -/
theorem Decomposes.mem_line {modifier : Modifier} {line : String} {d : Directive}
    (h : d.Decomposes modifier line) {token : String} (htoken : token ∈ d.allTokens modifier)
    {c : Char} (hc : c ∈ token.toList) : c ∈ line.toList := by
  obtain ⟨n, rfl⟩ := h.line_eq
  have hsep : c ≠ separator := by
    rintro rfl
    exact apart_allTokens.2 h.apart token htoken hc
  rw [String.toList_append]
  exact List.mem_append_left _ ((mem_joined_iff hsep).2 ⟨token, htoken, hc⟩)

/-- After the modifier words no token is empty at the end, unless there are none. -/
theorem getLast?_allTokens {modifier : Modifier} {d : Directive} :
    (d.params ++ List.replicate d.modifiers modifier.word).getLast? ≠ some "" ↔
      (d.modifiers = 0 → d.params.getLast? ≠ some "") := by
  cases hm : d.modifiers with
  | zero => simp
  | succ m =>
    rw [List.replicate_succ', ← List.append_assoc, List.getLast?_concat]
    simp [word_ne_empty modifier]

theorem ofLine_of_tokens {modifier line name : String} {rest : List String}
    (h : tokens line = name :: rest) :
    ofLine line modifier =
      { name
        params := Text.dropTrailing (· == modifier) rest
        modifiers := rest.length - (Text.dropTrailing (· == modifier) rest).length } := by
  rw [ofLine, h]

/-- The tokens of a line are those of its decomposition. -/
theorem decomposes_iff_tokens {modifier : Modifier} {line : String} {d : Directive} :
    d.Decomposes modifier line ↔
      tokens line = d.allTokens modifier ∧ d.params.getLast? ≠ some modifier.word := by
  rw [allTokens, tokens_eq_iff, getLast?_allTokens, ← allTokens, apart_allTokens]
  constructor
  · rintro ⟨hapart, hword, hempty, hline⟩
    exact ⟨⟨hapart, hempty, hline⟩, hword⟩
  · rintro ⟨⟨hapart, hempty, hline⟩, hword⟩
    exact ⟨hapart, hword, hempty, hline⟩

/-- A line is taken apart into its one decomposition. -/
theorem ofLine_eq_iff_decomposes {modifier : Modifier} {line : String} {d : Directive} :
    ofLine line modifier.word = d ↔ d.Decomposes modifier line := by
  rw [decomposes_iff_tokens]
  cases hline : tokens line with
  | nil => exact absurd hline (tokens_ne_nil line)
  | cons name rest =>
    rw [ofLine_of_tokens hline]
    constructor
    · rintro rfl
      obtain ⟨hlast, n, hrest⟩ := Text.dropTrailing_eq_iff.1
        (rfl : Text.dropTrailing (· == modifier.word) rest = _)
      refine ⟨?_, hlast⟩
      have hcount : rest.length - (Text.dropTrailing (· == modifier.word) rest).length = n := by
        have hlength := congrArg List.length hrest
        rw [List.length_append, List.length_replicate] at hlength
        omega
      simp only [allTokens, hcount, ← hrest]
    · rintro ⟨hall, hlast⟩
      obtain ⟨rfl, rfl⟩ := List.cons.inj hall
      have hparams : Text.dropTrailing (· == modifier.word)
          (d.params ++ List.replicate d.modifiers modifier.word) = d.params :=
        Text.dropTrailing_eq_iff.2 ⟨hlast, _, rfl⟩
      simp only [hparams, List.length_append, List.length_replicate, Nat.add_sub_cancel_left]

/-- Cut at every separator, a line has the tokens of its decomposition, and empty ones after
them. -/
theorem Decomposes.exists_cut_eq {modifier : Modifier} {line : String} {d : Directive}
    (h : d.Decomposes modifier line) :
    ∃ n, (Text.cut separator line.toList).map String.ofList =
      d.allTokens modifier ++ List.replicate n "" := by
  obtain ⟨n, hline⟩ := h.line_eq
  have hne : d.allTokens modifier ≠ [] := List.cons_ne_nil _ _
  refine ⟨n, (cut_eq_iff (List.append_ne_nil_of_left_ne_nil hne _)).2 ⟨?_, ?_⟩⟩
  · rw [joined_append_empty hne, hline]
  · exact (apart_append_empty n).2 (apart_allTokens.2 h.apart)

/-- The name ends in front of the first separator. -/
theorem Decomposes.name_eq {modifier : Modifier} {line : String} {d : Directive}
    (h : d.Decomposes modifier line) :
    d.name = String.ofList (line.toList.takeWhile (· != separator)) := by
  obtain ⟨n, hcut⟩ := h.exists_cut_eq
  have hhead := congrArg List.head? hcut
  rw [List.head?_map, Text.head?_cut] at hhead
  exact (Option.some.inj hhead).symm

/-- A token alone is a name, even where it is a modifier word or empty, and so it is with separators
after it. -/
theorem decomposes_name_alone (modifier : Modifier) {name : String} (h : separator ∉ name.toList)
    (n : ℕ) :
    Decomposes modifier (name ++ separators n) { name, params := [], modifiers := 0 } where
  apart := List.forall_mem_singleton.2 h
  last_ne_word := (Option.some_ne_none _).symm
  last_ne_empty _ := (Option.some_ne_none _).symm
  line_eq := ⟨n, by rw [allTokens, List.replicate_zero, List.append_nil, joined,
    String.intercalate_singleton]⟩

/-- Every line, even an empty one or one of separators alone, has exactly one decomposition, which
is what it is taken apart into. Cut at every separator the line has these tokens in this order, and
nothing after them but empty ones. The first of them is always the name, which is not counted as a
modifier even where it is the modifier word. -/
theorem ofLine_unique_decomposition (modifier : Modifier) :
    (∀ line : String,
      let d := ofLine line modifier.word
      d.Decomposes modifier line ∧
      (∀ other : Directive, other.Decomposes modifier line → other = d) ∧
      (∃ n, (Text.cut separator line.toList).map String.ofList =
        d.allTokens modifier ++ List.replicate n "") ∧
      d.name = String.ofList (line.toList.takeWhile (· != separator))) ∧
    (∀ (name : String) (n : ℕ), separator ∉ name.toList →
      ofLine (name ++ separators n) modifier.word = { name, params := [], modifiers := 0 }) ∧
    ofLine modifier.word modifier.word =
      { name := modifier.word, params := [], modifiers := 0 } := by
  have halone (name : String) (n : ℕ) (h : separator ∉ name.toList) :
      ofLine (name ++ separators n) modifier.word = { name, params := [], modifiers := 0 } :=
    ofLine_eq_iff_decomposes.2 (decomposes_name_alone modifier h n)
  refine ⟨fun line => ?_, halone, ?_⟩
  · have hline : (ofLine line modifier.word).Decomposes modifier line :=
      ofLine_eq_iff_decomposes.1 rfl
    refine ⟨hline, fun other hother => ?_, hline.exists_cut_eq, hline.name_eq⟩
    exact (ofLine_eq_iff_decomposes.2 hother).symm
  · have hword := halone modifier.word 0 (separator_not_mem_word modifier)
    rwa [show separators 0 = "" from rfl, String.append_empty] at hword

/-- An empty token is kept in front of a modifier word, and a modifier word in front of it. -/
example : ofLine "a#NOT##NOT#" "NOT" = { name := "a", params := ["NOT", ""], modifiers := 1 } := by
  decide

/-! ### Parts from the end of the line -/

/-- A line taken apart from its end. The separators at the end are dropped, what is left is split
at its separators, and the modifier words at the end of the tokens after the first are counted. -/
def fromEnd (modifier : Modifier) (line : String) : Directive :=
  let tokens := ((line.toList.rdropWhile (· == separator)).splitOn separator).map String.ofList
  { name := tokens.headD ""
    params := tokens.tail.rdropWhile (· == modifier.word)
    modifiers := (tokens.tail.rtakeWhile (· == modifier.word)).length }

theorem tokens_eq_splitOn (line : String) :
    tokens line =
      ((line.toList.rdropWhile (· == separator)).splitOn separator).map String.ofList := by
  set front := line.toList.rdropWhile (· == separator) with hfront
  have hcut : (Text.cut separator (String.ofList front).toList).map String.ofList =
      (front.splitOn separator).map String.ofList := by
    rw [String.toList_ofList, Text.cut_eq_splitOn]
  have hne : (front.splitOn separator).map String.ofList ≠ [] := by
    rw [← Text.cut_eq_splitOn]
    exact fun h => Text.cut_ne_nil separator front (List.map_eq_nil_iff.1 h)
  obtain ⟨name, rest, hparts⟩ := List.exists_cons_of_ne_nil hne
  obtain ⟨hline, hapart⟩ := (cut_eq_iff hne).1 hcut
  rw [hparts] at hline hapart ⊢
  obtain ⟨-, n, hends⟩ := Text.dropTrailing_eq_iff.1 hfront.symm
  refine tokens_eq_iff.2 ⟨hapart, fun hlast => ?_, n, String.toList_injective ?_⟩
  · -- An empty token at the end would leave a separator there.
    obtain ⟨before, rfl⟩ := List.getLast?_eq_some_iff.1 hlast
    have hend : joined (name :: (before ++ [""])) = joined (name :: before) ++ separators 1 :=
      joined_append_empty (List.cons_ne_nil name before) 1
    have hseparator : front.getLast? = some separator := by
      have hchars := congrArg String.toList (hline.trans hend)
      rw [String.toList_ofList, String.toList_append] at hchars
      rw [hchars]
      exact List.getLast?_concat
    have hkept := Text.not_of_getLast?_dropTrailing (p := (· == separator)) (hfront ▸ hseparator)
    simp at hkept
  · rw [← hline, String.toList_append, String.toList_ofList, separators, String.toList_ofList,
      ← hends]

/-- A line without the separators at its end. -/
def trimmed (line : String) : String :=
  String.ofList (line.toList.rdropWhile (· == separator))

theorem trimmed_eq_joined (line : String) : trimmed line = joined (tokens line) := by
  refine ((cut_eq_iff (tokens_ne_nil line)).1 ?_).1
  rw [trimmed, String.toList_ofList, Text.cut_eq_splitOn, ← tokens_eq_splitOn]

/-- Modifier words after a line that has none are its modifiers. -/
theorem Decomposes.append_words {modifier : Modifier} {line : String} {d : Directive}
    (h : d.Decomposes modifier line) (hnone : d.modifiers = 0) (words ends : ℕ) :
    Decomposes modifier
      (trimmed line ++ String.join (List.replicate words (separator.toString ++ modifier.word))
        ++ separators ends) { d with modifiers := words } where
  apart := h.apart
  last_ne_word := h.last_ne_word
  last_ne_empty _ := h.last_ne_empty hnone
  line_eq := by
    have htokens : tokens line = d.name :: d.params := by
      rw [(decomposes_iff_tokens.1 h).1, allTokens, hnone, List.replicate_zero, List.append_nil]
    refine ⟨ends, ?_⟩
    rw [trimmed_eq_joined, htokens, allTokens, ← List.cons_append,
      joined_append_replicate (List.cons_ne_nil _ _)]

/-- The modifier words that are counted are those at the end of the tokens. -/
theorem ofLine_eq_fromEnd (modifier : Modifier) (line : String) :
    ofLine line modifier.word = fromEnd modifier line := by
  obtain ⟨name, rest, hline⟩ := List.exists_cons_of_ne_nil (tokens_ne_nil line)
  have hcount : rest.length - (rest.rdropWhile (· == modifier.word)).length =
      (rest.rtakeWhile (· == modifier.word)).length := by
    have hrest : rest.rdropWhile (· == modifier.word) ++ rest.rtakeWhile (· == modifier.word) =
        rest := List.rdropWhile_append_rtakeWhile
    have hlength := congrArg List.length hrest
    rw [List.length_append] at hlength
    omega
  rw [ofLine_of_tokens hline, fromEnd, ← tokens_eq_splitOn, hline]
  simp only [List.headD_cons, List.tail_cons, ← hcount]
  rfl

end Directive

end FileSelection
