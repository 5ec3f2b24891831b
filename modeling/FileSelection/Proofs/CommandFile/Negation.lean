import FileSelection.Proofs.CommandFile.Accepted
import FileSelection.Proofs.Selection.Stable

/-! Negated filter lines. A filter line without a negation gets one from a `NOT` that is put after
it, in place of the separators at its end, and is rejected with two or more of them. The line and
its negation divide the files: no file is lost, none is in both selections, and both have the order
of the selection of everything. -/

namespace FileSelection

open Directive (trimmed separators)

/-! ### Lines -/

namespace Selector

variable {rule : BoundsRule} {line : String} {f : Filter}

/-- The parts of an accepted line without a negation. -/
theorem decomposes_of_ofLine (h : ofLine rule line = .ok (.filter f)) :
    f.Ordered rule ∧ ∃ params, Filter.Reads f.filterName params f ∧
      Directive.Decomposes .not line { name := f.filterName.word, params, modifiers := 0 } := by
  obtain ⟨-, hordered, hform⟩ := ofLine_eq_ok_iff.1 h
  exact ⟨hordered, hform⟩

theorem ofLine_append_not (h : ofLine rule line = .ok (.filter f)) (ends : ℕ) :
    ofLine rule (trimmed line ++ "#NOT" ++ separators ends) = .ok (.not (.filter f)) := by
  obtain ⟨hordered, params, hreads, hform⟩ := decomposes_of_ofLine h
  exact ofLine_eq_ok_iff.2 ⟨le_rfl, hordered, params, hreads, hform.append_words rfl 1 ends⟩

theorem ofLine_append_nots (h : ofLine rule line = .ok (.filter f)) {nots : ℕ} (hnots : 2 ≤ nots)
    (ends : ℕ) :
    ofLine rule (trimmed line ++ String.join (List.replicate nots "#NOT") ++ separators ends) =
      .error (.illegalFilter f.filterName (.repeatedModifier .not)) := by
  obtain ⟨-, params, -, hform⟩ := decomposes_of_ofLine h
  have hparts := Directive.ofLine_eq_iff_decomposes.2 (hform.append_words rfl nots ends)
  rw [Directive.ofLine_eq_fromEnd] at hparts
  have hword : Directive.separator.toString ++ Modifier.not.word = "#NOT" := rfl
  rw [hword] at hparts
  refine ofLine_of_verdict ?_
  rw [hparts]
  exact .repeatedNot rfl hnots

end Selector

/-! ### Selections -/

namespace Section

variable {α : Type}

/-- Of a selection and its complement every item is in one. -/
theorem selectBy_append_not_perm (s : Section) (selector : Selector) (file : α → FileInfo)
    (items : List α) :
    ({ s with selector }.selectBy file items ++
      { s with selector := .not selector }.selectBy file items).Perm items :=
  ((selectBy_perm _ file items).append (selectBy_perm _ file items)).trans
    (List.filter_append_perm (fun a => selector.accepts (file a)) items)

theorem mem_selectBy_not_iff {s : Section} {selector : Selector} {file : α → FileInfo}
    {items : List α} {item : α} (h : item ∈ items) :
    item ∈ { s with selector := .not selector }.selectBy file items ↔
      item ∉ { s with selector }.selectBy file items := by
  rw [mem_selectBy_iff, mem_selectBy_iff, Selector.accepts]
  simp [h]

end Section

namespace Selector

/-- A filter line without a negation that is accepted gets one from a `NOT` after it, whatever
separators follow, and is rejected with more of them. Every file is in the selection of the line or
in that of its negation and not in both, and each of them is what its filter leaves of the
selection of everything. -/
theorem ofLine_complement {rule : BoundsRule} {line : String} {f : Filter}
    (h : ofLine rule line = .ok (.filter f)) :
    (∀ ends, ofLine rule (trimmed line ++ "#NOT" ++ separators ends) = .ok (.not (.filter f))) ∧
    (∀ nots ends, 2 ≤ nots →
      ofLine rule (trimmed line ++ String.join (List.replicate nots "#NOT") ++ separators ends) =
        .error (.illegalFilter f.filterName (.repeatedModifier .not))) ∧
    ∀ (α : Type) (s : Section) (file : α → FileInfo) (items : List α),
      let chosen := { s with selector := .filter f }.selectBy file items
      let others := { s with selector := .not (.filter f) }.selectBy file items
      let everything := { s with selector := .all }.selectBy file items
      (∀ item ∈ items, Xor (item ∈ chosen) (item ∈ others)) ∧ (chosen ++ others).Perm items ∧
      chosen = everything.filter (fun item => f.accepts (file item)) ∧
      others = everything.filter (fun item => !f.accepts (file item)) := by
  refine ⟨ofLine_append_not h, fun nots ends hnots => ofLine_append_nots h hnots ends, ?_⟩
  intro α s file items chosen others everything
  refine ⟨fun item hitem => ?_, s.selectBy_append_not_perm (.filter f) file items,
    Section.selectBy_eq_filter_all _ file items, Section.selectBy_eq_filter_all _ file items⟩
  rw [Section.mem_selectBy_not_iff hitem, xor_not_right]

/-- The separators at the end of a line give way to the `NOT`. -/
theorem ofLine_complement_separators :
    ofLine .lax "between#3#1##" = .ok (.filter (.between 3 1)) ∧
      ofLine .lax "between#3#1#NOT#" = .ok (.not (.filter (.between 3 1))) := by
  have h : ofLine .lax "between#3#1##" = .ok (.filter (.between 3 1)) := by rfl
  exact ⟨h, (ofLine_complement h).1 1⟩

end Selector

end FileSelection
