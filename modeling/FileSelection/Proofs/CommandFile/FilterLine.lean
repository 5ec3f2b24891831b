import FileSelection.Proofs.CommandFile.Decomposition
import FileSelection.Proofs.CommandFile.FilterParams

/-! The rules for filter lines. A line keeps them where its name is the name of a filter, where it
has one `NOT` at most, and where its parameters make a filter. The verdict on a line is the
rejection of the first rule that it breaks, or the selector where it breaks none. The main statement
is that a line is read as its verdict, and that it is accepted exactly where it keeps the rules. -/

namespace FileSelection.Selector

/-- The verdict on a filter line with these parts. -/
inductive Verdict (rule : BoundsRule) (d : Directive) : Except Rejection Selector → Prop
  | unknownName (h : ∀ name : FilterName, name.word ≠ d.name) :
    Verdict rule d (.error (.unknownFilterName d.name))
  | repeatedNot {name : FilterName} (hname : name.word = d.name) (h : 1 < d.modifiers) :
    Verdict rule d (.error (.illegalFilter name (.repeatedModifier .not)))
  | parameters {name : FilterName} {result : Except Rejection Filter} (hname : name.word = d.name)
    (hnots : d.modifiers ≤ 1) (h : Filter.Verdict rule name d.params result) :
    Verdict rule d (result.map fun f => if d.modifiers = 1 then .not (.filter f) else .filter f)

variable {rule : BoundsRule} {line : String}

/-- Every line has a verdict. -/
theorem exists_verdict (rule : BoundsRule) (d : Directive) : ∃ result, Verdict rule d result := by
  by_cases hname : ∃ name : FilterName, name.word = d.name
  swap
  · exact ⟨_, .unknownName (not_exists.1 hname)⟩
  obtain ⟨name, hname⟩ := hname
  by_cases hnots : d.modifiers ≤ 1
  · obtain ⟨result, h⟩ := Filter.exists_verdict rule name d.params
    exact ⟨_, .parameters hname hnots h⟩
  · exact ⟨_, .repeatedNot hname (Nat.not_le.1 hnots)⟩

theorem ofLine_of_name {name : FilterName}
    (hname : name.word = (Directive.fromEnd .not line).name) :
    ofLine rule line =
      if 1 < (Directive.fromEnd .not line).modifiers then
        .error (.illegalFilter name (.repeatedModifier .not))
      else (Filter.ofParams rule name (Directive.fromEnd .not line).params).map fun f =>
        if (Directive.fromEnd .not line).isModified then .not (.filter f) else .filter f := by
  have hword := FilterName.ofWord?_eq_some_iff.2 hname
  rw [ofLine, Directive.ofLine_eq_fromEnd]
  simp only [hword]

/-- A line is read as its verdict. -/
theorem ofLine_of_verdict {result : Except Rejection Selector}
    (h : Verdict rule (Directive.fromEnd .not line) result) : ofLine rule line = result := by
  cases h with
  | unknownName h =>
    have hword : FilterName.ofWord? (Directive.fromEnd .not line).name = none := by
      refine Option.eq_none_iff_forall_ne_some.2 fun name hsome => h name ?_
      exact FilterName.ofWord?_eq_some_iff.1 hsome
    rw [ofLine, Directive.ofLine_eq_fromEnd]
    simp only [hword]
  | repeatedNot hname h => rw [ofLine_of_name hname, if_pos h]
  | parameters hname hnots h =>
    have hmodified : (Directive.fromEnd .not line).isModified ↔
        (Directive.fromEnd .not line).modifiers = 1 := by
      rw [Directive.isModified, decide_eq_true_iff]
      omega
    rw [ofLine_of_name hname, if_neg (Nat.not_lt.2 hnots), Filter.ofParams_of_verdict h]
    simp only [hmodified]

theorem ofLine_eq_iff_verdict {result : Except Rejection Selector} :
    ofLine rule line = result ↔ Verdict rule (Directive.fromEnd .not line) result := by
  refine ⟨?_, ofLine_of_verdict⟩
  rintro rfl
  obtain ⟨result, h⟩ := exists_verdict rule (Directive.fromEnd .not line)
  rwa [ofLine_of_verdict h]

/-- A line is accepted where its parts make a filter, for that filter or for its negation. -/
theorem ofLine_eq_ok_iff_reads {s : Selector} :
    ofLine rule line = .ok s ↔
      ∃ (name : FilterName) (f : Filter), name.word = (Directive.fromEnd .not line).name ∧
        (Directive.fromEnd .not line).modifiers ≤ 1 ∧
        Filter.Reads name (Directive.fromEnd .not line).params f ∧ f.Ordered rule ∧
        (if (Directive.fromEnd .not line).modifiers = 1 then .not (.filter f) else .filter f) =
          s := by
  rw [ofLine_eq_iff_verdict]
  constructor
  · intro h
    generalize hresult : Except.ok s = result at h
    cases h with
    | unknownName | repeatedNot => cases hresult
    | parameters hname hnots h =>
      cases h with
      | wrongParamCount | invalidParam | invertedBounds => cases hresult
      | accepted hreads hordered =>
        exact ⟨_, _, hname, hnots, hreads, hordered, (Except.ok.inj hresult).symm⟩
  · rintro ⟨name, f, hname, hnots, hreads, hordered, rfl⟩
    exact .parameters hname hnots (.accepted hreads hordered)

/-- A filter line is read as the verdict on its parts, which is the rejection of the first rule that
it breaks. It is accepted exactly where its name is a filter's, it has one `NOT` at most, it has as
many parameters as the filter takes, all of them are parameters of the filter, and bounds are in
order under the strict rule. -/
theorem ofLine_first_broken_rule (rule : BoundsRule) (line : String) :
    let d := Directive.fromEnd .not line
    (∀ result, ofLine rule line = result ↔ Verdict rule d result) ∧
    ((∃ s, ofLine rule line = .ok s) ↔
      ∃ name : FilterName, name.word = d.name ∧ d.modifiers ≤ 1 ∧
        d.params.length = name.arity ∧ (∀ token ∈ d.params, name.Takes token) ∧
        (rule = .strict →
          ∀ min max, Filter.Reads name d.params (.between min max) → min ≤ max)) := by
  intro d
  refine ⟨fun result => ofLine_eq_iff_verdict, ?_⟩
  constructor
  · rintro ⟨s, hs⟩
    obtain ⟨name, f, hname, hnots, hreads, hordered, -⟩ := ofLine_eq_ok_iff_reads.1 hs
    refine ⟨name, hname, hnots, hreads.length_eq, fun token => hreads.takes, ?_⟩
    intro hrule min max hbetween
    exact hordered hrule min max (hreads.unique hbetween)
  · rintro ⟨name, hname, hnots, hcount, htakes, horder⟩
    obtain ⟨f, hreads⟩ := Filter.exists_reads hcount htakes
    have hordered : f.Ordered rule := by
      rintro hrule min max rfl
      exact horder hrule min max hreads
    exact ⟨_, ofLine_eq_ok_iff_reads.2 ⟨name, f, hname, hnots, hreads, hordered, rfl⟩⟩

/-- A `NOT` in a parameter's place is no parameter. -/
example : ofLine .strict "file#NOT" =
    .error (.illegalFilter .file (.wrongParamCount 1 0)) := by rfl

end FileSelection.Selector
