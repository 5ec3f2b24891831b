import FileSelection.Proofs.CommandFile.Accepted

/-! Order lines. Apart from separators at the end there are six lines that are accepted, a key with
one `REVERSE` or none. Any other line is rejected, for the text in front of its first separator if
that is no key's word, for the two `REVERSE`s that it ends with if it does, and else for the token
behind its key. The main statement is that each line is read in this way. -/

namespace FileSelection

open Directive (tokens separators)

/-! ### Tokens -/

namespace Ranking

/-- The text in front of the first separator of a line. -/
def firstToken (line : String) : String :=
  String.ofList (line.toList.takeWhile (· != '#'))

/-- The tokens behind the first one, without the separators at the end of the line. -/
def laterTokens (line : String) : List String :=
  (((line.toList.rdropWhile (· == '#')).splitOn '#').map String.ofList).tail

theorem tokens_eq (line : String) : tokens line = firstToken line :: laterTokens line := by
  obtain ⟨name, rest, h⟩ := List.exists_cons_of_ne_nil (Directive.tokens_ne_nil line)
  have hrest : laterTokens line = rest := by
    rw [Directive.tokens_eq_splitOn] at h
    exact congrArg List.tail h
  have hname : firstToken line = name := by
    have hhead := Text.head?_cut Directive.separator line.toList
    obtain ⟨first, others, hcut⟩ :=
      List.exists_cons_of_ne_nil (Text.cut_ne_nil Directive.separator line.toList)
    rw [hcut, List.head?_cons, Option.some_inj] at hhead
    rw [Directive.tokens, hcut, List.map_cons] at h
    rw [firstToken, ← (List.cons.inj h).1, hhead]
    rfl
  rw [h, hname, hrest]

/-- The tokens behind the first one end with so many `REVERSE`s. -/
theorem exists_laterTokens (line : String) :
    ∃ params n, laterTokens line = params ++ List.replicate n "REVERSE" ∧
      params.getLast? ≠ some "REVERSE" := by
  obtain ⟨hlast, n, hrest⟩ := Text.dropTrailing_eq_iff.1
    (rfl : Text.dropTrailing (· == "REVERSE") (laterTokens line) = _)
  exact ⟨_, n, hrest, hlast⟩

variable {line : String} {k : SortKey} {params : List String} {n : ℕ}

theorem directive_eq (hlater : laterTokens line = params ++ List.replicate n "REVERSE")
    (hlast : params.getLast? ≠ some "REVERSE") :
    Directive.ofLine line Modifier.reverse.word =
      { name := firstToken line, params, modifiers := n } := by
  refine Directive.ofLine_eq_iff_decomposes.2 (Directive.decomposes_iff_tokens.2 ⟨?_, hlast⟩)
  rw [tokens_eq, hlater]
  rfl

/-- A line with a key's word is read by what stands behind it. -/
theorem ofLine_of_key {d : Directive} (hd : Directive.ofLine line Modifier.reverse.word = d)
    (hname : k.word = d.name) :
    ofLine line =
      if 1 < d.modifiers then .error (.illegalOrder k (.repeatedModifier .reverse))
      else
        match d.params with
        | token :: _ => .error (.illegalOrder k (.unexpectedToken token))
        | [] => .ok (if d.isModified then .reverse (.key k) else .key k) := by
  have hword : SortKey.ofWord? d.name = some k := SortKey.ofWord?_eq_some_iff.2 hname
  rw [ofLine, hd]
  split
  case h_1 hnone => cases hword.symm.trans hnone
  case h_2 k' hsome =>
    obtain rfl := Option.some.inj (hword.symm.trans hsome)
    rfl

/-! ### Accepted lines -/

/-- The accepted lines, up to separators at the end, with what they are read as. -/
def forms : List (String × Ranking) :=
  [("abs", .key .path), ("abs#REVERSE", .reverse (.key .path)),
    ("type", .key .extension), ("type#REVERSE", .reverse (.key .extension)),
    ("size", .key .size), ("size#REVERSE", .reverse (.key .size))]

theorem mem_forms_iff {form : String} {r : Ranking} :
    (form, r) ∈ forms ↔
      r.reversals ≤ 1 ∧
        form = Directive.joined (r.base.word :: List.replicate r.reversals "REVERSE") := by
  have hreversed (k : SortKey) : Directive.joined (k.word :: List.replicate 1 "REVERSE") =
      k.word ++ "#REVERSE" := by cases k <;> rfl
  cases r with
  | key k => cases k <;> simp [forms, reversals, base, Directive.joined, SortKey.word]
  | reverse r =>
    cases r with
    | key k =>
      simp only [reversals, base, hreversed]
      cases k <;> simp [forms, SortKey.word]
    | reverse r => simp [forms, reversals]

theorem ofLine_eq_ok_iff_form {r : Ranking} :
    ofLine line = .ok r ↔ ∃ form ends, (form, r) ∈ forms ∧ line = form ++ separators ends := by
  rw [ofLine_eq_ok_iff]
  simp only [mem_forms_iff, decomposes_iff]
  constructor
  · rintro ⟨hcount, ends, hline⟩
    exact ⟨_, ends, ⟨hcount, rfl⟩, hline⟩
  · rintro ⟨form, ends, ⟨hcount, rfl⟩, hline⟩
    exact ⟨hcount, ends, hline⟩

/-! ### Rejected lines -/

/-- A list that does not end with an item ends with two of it where two or more are put there. -/
theorem pair_suffix_iff {α : Type} {a : α} {xs : List α} (hlast : xs.getLast? ≠ some a) (n : ℕ) :
    [a, a] <:+ xs ++ List.replicate n a ↔ 1 < n := by
  have hone {front : List α} : xs ≠ front ++ [a] := by
    rintro rfl
    exact hlast List.getLast?_concat
  constructor
  · rintro ⟨front, hfront⟩
    by_contra hn
    rcases Nat.le_one_iff_eq_zero_or_eq_one.1 (Nat.not_lt.1 hn) with rfl | rfl
    · rw [List.replicate_zero, List.append_nil, List.append_cons] at hfront
      exact hone hfront.symm
    · rw [List.replicate_one, List.append_cons] at hfront
      exact hone (List.append_cancel_right hfront).symm
  · intro hn
    obtain ⟨m, rfl⟩ : ∃ m, n = m + 2 := ⟨n - 2, by omega⟩
    rw [← List.replicate_append_replicate, ← List.append_assoc]
    exact List.suffix_append _ _

/-- Why an order line is rejected. -/
inductive Refused (line : String) : Rejection → Prop
  | unknownName (h : ∀ k : SortKey, k.word ≠ firstToken line) :
    Refused line (.unknownOrderName (firstToken line))
  | repeatedReverse {k : SortKey} (hname : k.word = firstToken line)
    (h : ["REVERSE", "REVERSE"] <:+ laterTokens line) :
    Refused line (.illegalOrder k (.repeatedModifier .reverse))
  | unexpectedToken {k : SortKey} {token : String} {rest : List String}
    (hname : k.word = firstToken line) (honce : ¬["REVERSE", "REVERSE"] <:+ laterTokens line)
    (htokens : laterTokens line = token :: rest) (hother : laterTokens line ≠ ["REVERSE"]) :
    Refused line (.illegalOrder k (.unexpectedToken token))

theorem ofLine_of_refused {rejection : Rejection} (h : Refused line rejection) :
    ofLine line = .error rejection := by
  obtain ⟨params, n, hlater, hlast⟩ := exists_laterTokens line
  cases h with
  | unknownName h =>
    have hword : SortKey.ofWord? (firstToken line) = none :=
      Option.eq_none_iff_forall_ne_some.2 fun k hsome => h k (SortKey.ofWord?_eq_some_iff.1 hsome)
    rw [ofLine, directive_eq hlater hlast]
    simp only [hword]
  | repeatedReverse hname h =>
    rw [hlater, pair_suffix_iff hlast] at h
    rw [ofLine_of_key (directive_eq hlater hlast) hname, if_pos h]
  | unexpectedToken hname honce htokens hother =>
    rw [hlater, pair_suffix_iff hlast] at honce
    rw [ofLine_of_key (directive_eq hlater hlast) hname, if_neg honce]
    rw [hlater] at htokens hother
    cases params with
    | nil =>
      -- Only `REVERSE`s and not two of them: none, or one alone.
      rcases Nat.le_one_iff_eq_zero_or_eq_one.1 (Nat.not_lt.1 honce) with rfl | rfl
      · cases htokens
      · exact absurd rfl hother
    | cons token params =>
      rw [List.cons_append] at htokens
      rw [(List.cons.inj htokens).1]

/-- A line is rejected for the reason that it has. -/
theorem ofLine_eq_error_iff {rejection : Rejection} :
    ofLine line = .error rejection ↔ Refused line rejection := by
  refine ⟨fun h => ?_, ofLine_of_refused⟩
  have hreason {reason : Rejection} (hrefused : Refused line reason) : Refused line rejection := by
    rw [ofLine_of_refused hrefused] at h
    exact Except.error.inj h ▸ hrefused
  by_cases hname : ∃ k : SortKey, k.word = firstToken line
  swap
  · exact hreason (.unknownName (not_exists.1 hname))
  obtain ⟨k, hname⟩ := hname
  by_cases hrepeated : ["REVERSE", "REVERSE"] <:+ laterTokens line
  · exact hreason (.repeatedReverse hname hrepeated)
  -- With no token behind the key, or one `REVERSE`, the line would be accepted.
  have haccepted {n : ℕ} (hn : n ≤ 1) : laterTokens line ≠ List.replicate n "REVERSE" := by
    intro hlater
    have hread := ofLine_of_key (directive_eq (hlater.trans (List.nil_append _).symm) nofun) hname
    rw [h, if_neg (Nat.not_lt.2 hn)] at hread
    cases hread
  cases htokens : laterTokens line with
  | nil => exact absurd htokens (haccepted (Nat.zero_le 1))
  | cons token rest =>
    exact hreason (.unexpectedToken hname hrepeated htokens (haccepted le_rfl))

/-- There are six lines that are accepted, up to separators at their end, and every other line is
rejected for the one reason that it has. -/
theorem ofLine_six_forms (line : String) :
    (∀ r, ofLine line = .ok r ↔
      ∃ form ends, (form, r) ∈ forms ∧ line = form ++ separators ends) ∧
    ∀ rejection, ofLine line = .error rejection ↔ Refused line rejection :=
  ⟨fun _ => ofLine_eq_ok_iff_form, fun _ => ofLine_eq_error_iff⟩

/-- An empty token behind the key is one that should not be there. -/
example : ofLine "abs##REVERSE" = .error (.illegalOrder .path (.unexpectedToken "")) := by rfl

end Ranking

end FileSelection
