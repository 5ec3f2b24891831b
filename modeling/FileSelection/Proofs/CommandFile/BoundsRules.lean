import FileSelection.Proofs.CommandFile.Calls
import FileSelection.Proofs.CommandFile.FilterLine
import FileSelection.Proofs.Selection.Meaning

/-! The two rules for bounds, side by side. A file that is read under the strict rule and under the
lax one gives the same readings, except for a section whose filter line is a `between` that is right
but for the order of its bounds. There the strict rule leaves a warning and takes every file, and
the lax rule leaves none and takes no file, or every file where the line has a `NOT`. -/

namespace FileSelection

/-! ### Filter lines -/

namespace Selector

/-- A `between` line with so many `NOT`s that keeps every rule but the order of its bounds. -/
structure Inverted (line : String) (nots : ℕ) (min max : UInt64) : Prop where
  name : FilterName.between.word = (Directive.fromEnd .not line).name
  modifiers : (Directive.fromEnd .not line).modifiers = nots
  nots_le : nots ≤ 1
  reads : Filter.Reads .between (Directive.fromEnd .not line).params (.between min max)
  lt : max < min

variable {line : String} {nots : ℕ} {min max : UInt64}

theorem Inverted.strict (h : Inverted line nots min max) :
    ofLine .strict line = .error (.illegalFilter .between (.invertedBounds min max)) :=
  ofLine_of_verdict (.parameters h.name (h.modifiers.trans_le h.nots_le)
    (.invertedBounds h.reads rfl h.lt))

theorem Inverted.lax (h : Inverted line nots min max) :
    ofLine .lax line =
      .ok (if nots = 1 then .not (.filter (.between min max)) else .filter (.between min max)) := by
  have hparams : Filter.Verdict .lax .between (Directive.fromEnd .not line).params
      (.ok (.between min max)) := .accepted h.reads (Filter.ordered_lax _)
  rw [← h.modifiers]
  exact ofLine_of_verdict (.parameters h.name (h.modifiers.trans_le h.nots_le) hparams)

/-- On other lines the rule plays no part. -/
theorem ofLine_strict_eq_lax (h : ∀ nots min max, ¬Inverted line nots min max) :
    ofLine .strict line = ofLine .lax line := by
  obtain ⟨result, hstrict⟩ := exists_verdict .strict (Directive.fromEnd .not line)
  -- A verdict is the same under both rules, unless it is about the bounds.
  have hlax : Verdict .lax (Directive.fromEnd .not line) result := by
    cases hstrict with
    | unknownName h => exact .unknownName h
    | repeatedNot hname h => exact .repeatedNot hname h
    | parameters hname hnots hparams =>
      refine .parameters hname hnots ?_
      cases hparams with
      | wrongParamCount h => exact .wrongParamCount h
      | invalidParam hcount hparams hfront h => exact .invalidParam hcount hparams hfront h
      | invertedBounds hreads _ hlt =>
        obtain rfl := hreads.filterName_eq
        exact absurd ⟨hname, rfl, hnots, hreads, hlt⟩ (h _ _ _)
      | accepted hreads _ => exact .accepted hreads (Filter.ordered_lax _)
  rw [ofLine_of_verdict hstrict, ofLine_of_verdict hlax]

/-- No file is between inverted bounds, and every file is outside of them. -/
theorem Inverted.accepts_iff (h : Inverted line nots min max) (file : FileInfo) :
    (if nots = 1 then not (filter (.between min max)) else filter (.between min max)).accepts file ↔
      nots = 1 := by
  have hnone : (Filter.between min max).accepts file = false := by
    rw [← Bool.not_eq_true, Filter.accepts_iff_holds]
    exact Filter.not_holds_between h.lt file
  split
  · next hnots => simp [accepts, hnone, hnots]
  · next hnots => simp [accepts, hnone, hnots]

end Selector

/-! ### Sections -/

/-- Two sections of the same four lines, with `before` lines in front of them, as the strict rule
reads them and as the lax rule does. -/
structure Section.Twins (before : ℕ) (filterLine : String) (strict lax : Section) : Prop where
  ranking : strict.ranking = lax.ranking
  eq : (∀ nots min max, ¬Selector.Inverted filterLine nots min max) → strict = lax
  inverted : ∀ nots min max, Selector.Inverted filterLine nots min max →
    strict.selector = .all ∧
    strict.warnings =
      ⟨before + 2, .illegalFilter .between (.invertedBounds min max)⟩ :: lax.warnings ∧
    (∀ warning ∈ lax.warnings, warning.line = before + 4) ∧
    ∀ file, lax.selector.accepts file ↔ nots = 1

theorem Section.twins_ofLines (before : ℕ) (filterLine orderLine : String) :
    Twins before filterLine (ofLines .strict before filterLine orderLine)
      (ofLines .lax before filterLine orderLine) where
  ranking := rfl
  eq h := by
    rw [ofLines, ofLines, Selector.ofLine_strict_eq_lax h]
  inverted nots min max h := by
    rw [ofLines, ofLines, h.strict, h.lax]
    refine ⟨rfl, rfl, fun warning hmem => ?_, h.accepts_iff⟩
    cases horder : Ranking.ofLine orderLine with
    | ok ranking =>
      rw [horder] at hmem
      cases hmem
    | error rejection =>
      rw [horder] at hmem
      rw [List.mem_singleton.1 hmem]

/-! ### Readings -/

namespace CommandReader

/-- Two readings of the same lines under the two rules. Both stop at the same place, with twin
sections, with the same error or with the end. -/
structure Twins (lines : List (Except IoError String)) (strict lax : Reading) : Prop where
  line : strict.reader.line = lax.reader.line
  phase : strict.reader.phase = lax.reader.phase
  result : (strict.result = lax.result ∧ ∀ s, strict.result ≠ .ok (some s)) ∨
    ∃ before filterLine s s', strict.reader.line = before + 4 ∧
      lines[before + 1]? = some (.ok filterLine) ∧ strict.result = .ok (some s) ∧
      lax.result = .ok (some s') ∧ s.Twins before filterLine s'

variable {all lines : List (Except IoError String)}

/-- Readers between the same two sections go on alike. The induction is over the layout of the lines
that are left. -/
theorem twins_readAll {index : ℕ} {sections : List Section} {ending : Option ReadError}
    (h : Layout .strict index lines sections ending) (hlines : all.drop (4 * index) = lines)
    {r r' : CommandReader} (hr : Between .strict index lines r)
    (hr' : Between .lax index lines r') :
    List.Forall₂ (Twins all) r.readAll r'.readAll := by
  induction h generalizing r r' with
  | ends =>
    obtain ⟨hresult, hreader⟩ := next_of_nil hr.phase hr.reads
    obtain ⟨hresult', hreader'⟩ := next_of_nil hr'.phase hr'.reads
    rw [readAll_of_end hresult, readAll_of_end hresult']
    refine .cons ⟨?_, ?_, .inl ⟨hresult.trans hresult'.symm, by simp [hresult]⟩⟩ .nil
    · rw [hreader, hreader', hr.line, hr'.line]
    · rw [hreader, hreader']
  | breaks hfault =>
    obtain ⟨hresult, hline, hphase⟩ :=
      stopsWith_of_fault hr.phase (by rw [hr.reads, hr.line]; exact hfault)
    obtain ⟨hresult', hline', hphase'⟩ :=
      stopsWith_of_fault hr'.phase (by rw [hr'.reads, hr'.line]; exact hfault)
    rw [readAll_of_error hresult, readAll_of_error hresult']
    exact .cons ⟨hline.trans hline'.symm, hphase.trans hphase'.symm,
      .inl ⟨hresult.trans hresult'.symm, by simp [hresult]⟩⟩ .nil
  | @group index filterLine orderLine rest _ _ _ ih =>
    obtain ⟨hresult, hnext⟩ := next_of_between_group hr
    obtain ⟨hresult', hnext'⟩ := next_of_between_group hr'
    rw [readAll_of_section hresult, readAll_of_section hresult']
    have hfilter : all[4 * index + 1]? = some (.ok filterLine) := by
      rw [← List.getElem?_drop, hlines]
      rfl
    have hrest : all.drop (4 * (index + 1)) = rest := by
      rw [Nat.mul_add, ← List.drop_drop, hlines]
      rfl
    refine .cons ⟨hnext.line.trans hnext'.line.symm, hnext.phase.trans hnext'.phase.symm, .inr
      ⟨4 * index, filterLine, _, _, ?_, hfilter, hresult, hresult', ?_⟩⟩ (ih hrest hnext hnext')
    · rw [hnext.line, Nat.mul_add]
    · exact Section.twins_ofLines (4 * index) filterLine orderLine

theorem items_eq (r : CommandReader) : r.items = r.readAll.filterMap (item? ·.result) := rfl

theorem length_items_of_twins {strict lax : List Reading}
    (h : List.Forall₂ (Twins all) strict lax) :
    (strict.filterMap (item? ·.result)).length = (lax.filterMap (item? ·.result)).length := by
  induction h with
  | nil => rfl
  | @cons a b _ _ htwins _ ih =>
    rw [List.filterMap_cons, List.filterMap_cons]
    rcases htwins.result with ⟨heq, -⟩ | ⟨_, _, s, s', -, -, hs, hs', -⟩
    · rw [heq]
      cases item? b.result with
      | none => exact ih
      | some item => rw [List.length_cons, List.length_cons, ih]
    · rw [hs, hs']
      exact congrArg (· + 1) ih

/-- Under the strict rule and under the lax one a stream gives as many items, and the two readers
are at the same line and in the same phase after each of them. They end alike, and they return the
same sections but for those whose filter line is a `between` with inverted bounds. -/
theorem bounds_rules_differ_on_inverted (input : ByteStream) :
    let strict : CommandReader := { input, rule := .strict }
    let lax : CommandReader := { input, rule := .lax }
    strict.items.length = lax.items.length ∧
      List.Forall₂ (Twins input.reads) strict.readAll lax.readAll := by
  intro strict lax
  obtain ⟨sections, ending, hlayout⟩ := exists_layout .strict 0 input.reads
  have htwins : List.Forall₂ (Twins input.reads) strict.readAll lax.readAll :=
    twins_readAll hlayout rfl (between_start .strict input) (between_start .lax input)
  refine ⟨?_, htwins⟩
  rw [items_eq, items_eq]
  exact length_items_of_twins htwins

/-- A `between` from 5 to 2. The strict rule rejects it, so that the section takes every file and
has a warning; under the lax rule the section has no warning, and takes no file. -/
theorem bounds_rules_differ_on_five_to_two :
    let input : ByteStream := { bytes := Text.Utf8.encode "FILTER\nbetween#5#2\nORDER\nabs\n" }
    let strict : CommandReader := { input, rule := .strict }
    let lax : CommandReader := { input, rule := .lax }
    strict.items = [.ok {
      selector := .all
      ranking := .ascendingPath
      warnings := [{ line := 2, rejection := .illegalFilter .between (.invertedBounds 5 2) }] }] ∧
    lax.items = [.ok {
      selector := .filter (.between 5 2)
      ranking := .ascendingPath
      warnings := [] }] ∧
    List.Forall₂ (Twins input.reads) strict.readAll lax.readAll := by
  intro input strict lax
  have hlayout (rule : BoundsRule) :
      Layout rule 0 input.reads [Section.ofLines rule 0 "between#5#2" "abs"] none := by
    have hreads : input.reads = ["FILTER", "between#5#2", "ORDER", "abs"].map .ok := by decide
    rw [hreads]
    exact .group .ends
  have hitems (rule : BoundsRule) := (read_layout (hlayout rule) (between_start rule input)).1
  have hstrict : Section.ofLines .strict 0 "between#5#2" "abs" = {
      selector := .all
      ranking := .ascendingPath
      warnings := [⟨2, .illegalFilter .between (.invertedBounds 5 2)⟩] } := by decide
  have hlax : Section.ofLines .lax 0 "between#5#2" "abs" = {
      selector := .filter (.between 5 2)
      ranking := .ascendingPath
      warnings := [] } := by decide
  refine ⟨?_, ?_, (bounds_rules_differ_on_inverted input).2⟩
  · rw [hitems .strict, hstrict]
    rfl
  · rw [hitems .lax, hlax]
    rfl

end CommandReader

end FileSelection
