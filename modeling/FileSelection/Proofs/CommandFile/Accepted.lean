import FileSelection.Proofs.CommandFile.FilterLine

/-! The directive lines that are accepted, with what they are read as. A filter line is accepted for
a selector where the line has the form of that selector: the word of its filter, parameters that the
filter reads as its own values, and one `NOT` or none for its negations. An order line is accepted
for a ranking where it has the key's word, no parameter, and one `REVERSE` or none. -/

namespace FileSelection

/-! ### Parameters -/

namespace Filter

/-- The parameters that write a filter. -/
def params : Filter → List String
  | .greaterThan kilobytes | .smallerThan kilobytes => [Text.Decimal.write kilobytes.toNat]
  | .between min max => [Text.Decimal.write min.toNat, Text.Decimal.write max.toNat]
  | .file text | .contains text | .startsWith text | .endsWith text => [text]
  | .writable wanted | .executable wanted | .hidden wanted => [if wanted then "YES" else "NO"]
  | .all => []

/-- The text that a filter looks for, if it looks for one. -/
def text? : Filter → Option String
  | .file text | .contains text | .startsWith text | .endsWith text => some text
  | _ => none

/-- A filter reads its own parameters. -/
theorem reads_params (f : Filter) : Reads f.filterName f.params f := by
  cases f with
  | greaterThan n => exact .greaterThan (Size.writes_write n)
  | smallerThan n => exact .smallerThan (Size.writes_write n)
  | between min max => exact .between (Size.writes_write min) (Size.writes_write max)
  | file text => exact .file text
  | contains text => exact .contains text
  | startsWith text => exact .startsWith text
  | endsWith text => exact .endsWith text
  | writable wanted => exact .writable wanted
  | executable wanted => exact .executable wanted
  | hidden wanted => exact .hidden wanted
  | all => exact .all

/-- The text of a filter is its parameter. -/
theorem Reads.params_of_text {name : FilterName} {params : List String} {f : Filter} {text : String}
    (h : Reads name params f) (htext : f.text? = some text) : params = [text] := by
  cases h with
  | file | contains | startsWith | endsWith =>
    obtain rfl := Option.some.inj htext
    rfl
  | greaterThan | smallerThan | between | writable | executable | hidden | all => cases htext

end Filter

/-! ### Lines -/

theorem Selector.negate_eq_iff {nots : ℕ} (h : nots ≤ 1) {f : Filter} {s : Selector} :
    (if nots = 1 then .not (.filter f) else .filter f) = s ↔ s.base = f ∧ s.negations = nots := by
  rcases Nat.le_one_iff_eq_zero_or_eq_one.1 h with hm | hm
  all_goals
    cases s with
    | filter g => simp [base, negations, hm, eq_comm]
    | not s => cases s <;> simp [base, negations, hm, eq_comm]

theorem Ranking.reverse_eq_iff {d : Directive} (h : d.modifiers ≤ 1) {k : SortKey} {r : Ranking} :
    (if d.isModified then .reverse (.key k) else .key k) = r ↔
      r.base = k ∧ r.reversals = d.modifiers := by
  rcases Nat.le_one_iff_eq_zero_or_eq_one.1 h with hm | hm
  all_goals
    cases r with
    | key l => simp [Directive.isModified, base, reversals, hm, eq_comm]
    | reverse r => cases r <;> simp [Directive.isModified, base, reversals, hm, eq_comm]

/-- A filter line is accepted for the selectors whose form it has. -/
theorem Selector.ofLine_eq_ok_iff {rule : BoundsRule} {line : String} {s : Selector} :
    ofLine rule line = .ok s ↔
      s.negations ≤ 1 ∧ s.base.Ordered rule ∧
        ∃ params, Filter.Reads s.base.filterName params s.base ∧
          Directive.Decomposes .not line
            { name := s.base.filterName.word, params, modifiers := s.negations } := by
  have hparts {d : Directive} : d.Decomposes .not line ↔ Directive.fromEnd .not line = d := by
    rw [← Directive.ofLine_eq_iff_decomposes, Directive.ofLine_eq_fromEnd]
  rw [ofLine_eq_ok_iff_reads]
  simp only [hparts]
  constructor
  · rintro ⟨name, f, hname, hnots, hreads, hordered, hs⟩
    obtain ⟨rfl, hnegations⟩ := (negate_eq_iff hnots).1 hs
    obtain rfl := hreads.filterName_eq
    exact ⟨hnegations.trans_le hnots, hordered, _, hreads, by rw [hname, hnegations]⟩
  · rintro ⟨hcount, hordered, params, hreads, heq⟩
    rw [heq]
    exact ⟨_, _, rfl, hcount, hreads, hordered, (negate_eq_iff hcount).2 ⟨rfl, rfl⟩⟩

/-- An order line is accepted for the rankings whose form it has. -/
theorem Ranking.ofLine_eq_ok_iff {line : String} {r : Ranking} :
    ofLine line = .ok r ↔
      r.reversals ≤ 1 ∧ Directive.Decomposes .reverse line
        { name := r.base.word, params := [], modifiers := r.reversals } := by
  set d := Directive.ofLine line Modifier.reverse.word with hd
  have hdecomposes {d' : Directive} : d'.Decomposes .reverse line ↔ d = d' :=
    Directive.ofLine_eq_iff_decomposes.symm
  simp only [hdecomposes]
  constructor
  · intro h
    rw [ofLine, ← hd] at h
    split at h
    · cases h
    next k hk =>
      rw [SortKey.ofWord?_eq_some_iff] at hk
      by_cases hcount : 1 < d.modifiers
      · rw [if_pos hcount] at h
        cases h
      · rw [if_neg hcount] at h
        split at h
        · cases h
        next hparams =>
          obtain ⟨rfl, hreversals⟩ := (reverse_eq_iff (Nat.not_lt.1 hcount)).1 (Except.ok.inj h)
          exact ⟨hreversals ▸ Nat.not_lt.1 hcount, by rw [hk, hreversals, ← hparams]⟩
  · rintro ⟨hcount, heq⟩
    have hk : SortKey.ofWord? d.name = some r.base := by
      rw [SortKey.ofWord?_eq_some_iff, heq]
    have hmodifiers : d.modifiers = r.reversals := by rw [heq]
    have hparams : d.params = [] := by rw [heq]
    rw [ofLine, ← hd]
    simp only [hk, hparams]
    rw [if_neg (by omega)]
    exact congrArg Except.ok ((reverse_eq_iff (by omega)).2 ⟨rfl, hmodifiers.symm⟩)

/-- A key alone, or with `REVERSE`s behind it, has no other form. -/
theorem Ranking.decomposes_iff {line : String} {r : Ranking} :
    Directive.Decomposes .reverse line
        { name := r.base.word, params := [], modifiers := r.reversals } ↔
      ∃ ends, line = Directive.joined (r.base.word :: List.replicate r.reversals "REVERSE")
        ++ Directive.separators ends := by
  refine ⟨fun h => h.line_eq, fun h => ⟨fun token htoken => ?_, nofun, fun _ => nofun, h⟩⟩
  have hword (k : SortKey) : Directive.separator ∉ k.word.toList := by cases k <;> decide
  obtain rfl := List.mem_singleton.1 htoken
  exact hword r.base

end FileSelection
