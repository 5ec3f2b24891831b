import FileSelection.Proofs.CommandFile.Reading

/-! The layout of a command file. Its lines go in groups of four: a header, a filter line, a second
header and an order line. Each complete group is a section, whatever its two directives say, and the
first line that breaks a group ends the file with an error. The main statement is that every file
has exactly one such layout and that a drained reader has read it, with the line number of what is
wrong.

The lines of a section that has begun fix the phase of the reader, so every fault is one line, or
the end of the file, read in one of four phases. -/

namespace FileSelection

open ByteStream

/-! ### Sections by their lines -/

/-- The warning of a rejected directive. -/
def Warning.ofDirective {α : Type} (line : ℕ) : Except Rejection α → List Warning
  | .ok _ => []
  | .error rejection => [{ line, rejection }]

/-- The section of two directives, with `before` lines in front of it. -/
def Section.ofLines (rule : BoundsRule) (before : ℕ) (filterLine orderLine : String) : Section where
  selector := (Selector.ofLine rule filterLine).toOption.getD .all
  ranking := (Ranking.ofLine orderLine).toOption.getD .ascendingPath
  warnings := Warning.ofDirective (before + 2) (Selector.ofLine rule filterLine) ++
    Warning.ofDirective (before + 4) (Ranking.ofLine orderLine)

/-- The lines of a section that has begun and is not complete. -/
inductive Opening : List String → Prop
  | none : Opening []
  | header : Opening ["FILTER"]
  | filter (filterLine : String) : Opening ["FILTER", filterLine]
  | order (filterLine : String) : Opening ["FILTER", filterLine, "ORDER"]

theorem Opening.length_lt {good : List String} (h : Opening good) : good.length < 4 := by
  cases h <;> simp

/-- The first thing wrong in lines that should begin a section, with `before` lines in front of
them. -/
inductive FirstFault (before : ℕ) : List (Except IoError String) → ReadError → Prop
  | filterHeader {found : String} {rest : List (Except IoError String)} (h : found ≠ "FILTER") :
    FirstFault before (.ok found :: rest) (.layout (before + 1) (.missingFilterHeader found))
  | noFilterLine : FirstFault before [.ok "FILTER"] (.layout (before + 1) .missingFilterDirective)
  | orderHeader {filterLine found : String} {rest : List (Except IoError String)}
    (h : found ≠ "ORDER") :
    FirstFault before (.ok "FILTER" :: .ok filterLine :: .ok found :: rest)
      (.layout (before + 3) (.missingOrderHeader (some found)))
  | noOrderHeader {filterLine : String} :
    FirstFault before [.ok "FILTER", .ok filterLine]
      (.layout (before + 2) (.missingOrderHeader none))
  | noOrderLine {filterLine : String} :
    FirstFault before [.ok "FILTER", .ok filterLine, .ok "ORDER"]
      (.layout (before + 3) .missingOrderDirective)
  | unreadable {good : List String} {cause : IoError} {rest : List (Except IoError String)}
    (h : Opening good) :
    FirstFault before (good.map .ok ++ .error cause :: rest)
      (.unreadable (before + good.length) cause)

/-- The sections of lines that follow `index` sections, and the error that ends them, if one
does. -/
inductive Layout (rule : BoundsRule) :
    ℕ → List (Except IoError String) → List Section → Option ReadError → Prop
  | ends {index : ℕ} : Layout rule index [] [] none
  | breaks {index : ℕ} {lines : List (Except IoError String)} {error : ReadError}
    (h : FirstFault (4 * index) lines error) : Layout rule index lines [] (some error)
  | group {index : ℕ} {filterLine orderLine : String} {rest : List (Except IoError String)}
    {sections : List Section} {ending : Option ReadError}
    (h : Layout rule (index + 1) rest sections ending) :
    Layout rule index (.ok "FILTER" :: .ok filterLine :: .ok "ORDER" :: .ok orderLine :: rest)
      (Section.ofLines rule (4 * index) filterLine orderLine :: sections) ending

/-- Lines are at their end, or wrong, or begin with a complete group. -/
theorem nil_or_fault_or_group (before : ℕ) (lines : List (Except IoError String)) :
    lines = [] ∨ (∃ error, FirstFault before lines error) ∨
      ∃ filterLine orderLine rest,
        lines = .ok "FILTER" :: .ok filterLine :: .ok "ORDER" :: .ok orderLine :: rest := by
  match lines with
  | [] => exact .inl rfl
  | .error _ :: _ => exact .inr (.inl ⟨_, .unreadable .none⟩)
  | .ok header :: lines =>
    by_cases hfilter : header = "FILTER"
    swap
    · exact .inr (.inl ⟨_, .filterHeader hfilter⟩)
    subst hfilter
    match lines with
    | [] => exact .inr (.inl ⟨_, .noFilterLine⟩)
    | .error _ :: _ => exact .inr (.inl ⟨_, .unreadable .header⟩)
    | .ok filterLine :: lines =>
      match lines with
      | [] => exact .inr (.inl ⟨_, .noOrderHeader⟩)
      | .error _ :: _ => exact .inr (.inl ⟨_, .unreadable (.filter filterLine)⟩)
      | .ok header :: lines =>
        by_cases horder : header = "ORDER"
        swap
        · exact .inr (.inl ⟨_, .orderHeader horder⟩)
        subst horder
        match lines with
        | [] => exact .inr (.inl ⟨_, .noOrderLine⟩)
        | .error _ :: _ => exact .inr (.inl ⟨_, .unreadable (.order filterLine)⟩)
        | .ok orderLine :: rest => exact .inr (.inr ⟨filterLine, orderLine, rest, rfl⟩)

/-- Any lines have a layout. -/
theorem exists_layout (rule : BoundsRule) (index : ℕ) (lines : List (Except IoError String)) :
    ∃ sections ending, Layout rule index lines sections ending := by
  rcases nil_or_fault_or_group (4 * index) lines with rfl | ⟨error, hfault⟩ | ⟨f, o, rest, rfl⟩
  · exact ⟨[], none, .ends⟩
  · exact ⟨[], some error, .breaks hfault⟩
  · obtain ⟨sections, ending, hrest⟩ := exists_layout rule (index + 1) rest
    exact ⟨_, ending, .group hrest⟩
termination_by lines.length

/-! ### One call -/

namespace CommandReader

variable {r : CommandReader} {rest : List (Except IoError String)}

theorem orDefault_eq {α : Type} (default : α) (line : ℕ) (result : Except Rejection α) :
    Phase.orDefault default line result =
      (result.toOption.getD default, Warning.ofDirective line result) := by
  cases result <;> rfl

/-- What the filter line leaves behind. -/
def draft (rule : BoundsRule) (before : ℕ) (filterLine : String) : Draft where
  selector := (Selector.ofLine rule filterLine).toOption.getD .all
  warnings := Warning.ofDirective (before + 2) (Selector.ofLine rule filterLine)

/-- The phase after the first lines of a section. -/
def phaseAfter (rule : BoundsRule) (before : ℕ) : List String → Phase
  | [] => .ready
  | [_] => .awaitingFilterName
  | [_, filterLine] => .awaitingOrderHeader (draft rule before filterLine)
  | _ :: filterLine :: _ => .awaitingOrderName (draft rule before filterLine)

/-- A call has read the first lines of a section, and goes on with `r'`. -/
structure ReadUpTo (r : CommandReader) (good : List String) (rest : List (Except IoError String))
    (r' : CommandReader) : Prop where
  reads : r'.input.reads = rest
  rule : r'.rule = r.rule
  line : r'.line = r.line + good.length
  phase : r'.phase = phaseAfter r.rule r.line good
  result : r.next.result = (readLines (4 - good.length) r').result
  reader : r.next.reader = (readLines (4 - good.length) r').reader

theorem ReadUpTo.snoc {good : List String} {text : String} {r' : CommandReader} {n : ℕ}
    {warnings : List Warning} (h : ReadUpTo r good (.ok text :: rest) r')
    (hn : 4 - good.length = n + 1)
    (hm : (phaseAfter r.rule r.line good).onLine r.rule (r.line + good.length + 1) (some text) =
      .enter (phaseAfter r.rule r.line (good ++ [text])) warnings) :
    ∃ r'', ReadUpTo r (good ++ [text]) rest r'' := by
  have hm' : r'.phase.onLine r'.rule (r'.line + 1) (some text) =
      .enter (phaseAfter r.rule r.line (good ++ [text])) warnings := by
    rw [h.phase, h.rule, h.line, hm]
  obtain ⟨hresult, hreader⟩ := readLines_enter (n := n) h.reads hm'
  have hlength : 4 - (good ++ [text]).length = n := by
    rw [List.length_append, List.length_singleton]
    omega
  refine ⟨{ r'.advance with phase := phaseAfter r.rule r.line (good ++ [text]) },
    reads_advance h.reads, h.rule, ?_, rfl, ?_, ?_⟩
  · rw [List.length_append, List.length_singleton, advance_line, h.line, Nat.add_assoc]
  · rw [h.result, hn, hlength, hresult]
  · rw [h.reader, hn, hlength, hreader]

theorem onLine_filterHeader (rule : BoundsRule) (line : ℕ) :
    Phase.ready.onLine rule line (some "FILTER") = .enter .awaitingFilterName [] := rfl

theorem onLine_orderHeader (rule : BoundsRule) (line : ℕ) (draft : Draft) :
    (Phase.awaitingOrderHeader draft).onLine rule line (some "ORDER") =
      .enter (.awaitingOrderName draft) [] := rfl

theorem onLine_filter (rule : BoundsRule) (before : ℕ) (filterLine : String) :
    Phase.awaitingFilterName.onLine rule (before + 2) (some filterLine) =
      .enter (.awaitingOrderHeader (draft rule before filterLine))
        (Warning.ofDirective (before + 2) (Selector.ofLine rule filterLine)) := by
  simp only [Phase.onLine, orDefault_eq]
  rfl

/-- A call reads the first lines of a section one by one. -/
theorem exists_readUpTo {good : List String} {rest : List (Except IoError String)}
    (ho : Opening good) (hphase : r.phase = .ready)
    (h : r.input.reads = good.map .ok ++ rest) : ∃ r', ReadUpTo r good rest r' := by
  cases ho with
  | none =>
    have hnext : r.next = readLines 4 r := by rw [next, hphase, Phase.linesLeft]
    exact ⟨r, h, rfl, rfl, hphase, by rw [hnext]; rfl, by rw [hnext]; rfl⟩
  | header =>
    obtain ⟨r', hr'⟩ : ∃ r', ReadUpTo r [] (.ok "FILTER" :: rest) r' :=
      exists_readUpTo .none hphase h
    exact hr'.snoc rfl (onLine_filterHeader _ _)
  | filter filterLine =>
    obtain ⟨r', hr'⟩ : ∃ r', ReadUpTo r ["FILTER"] (.ok filterLine :: rest) r' :=
      exists_readUpTo .header hphase h
    exact hr'.snoc rfl (onLine_filter r.rule r.line filterLine)
  | order filterLine =>
    obtain ⟨r', hr'⟩ : ∃ r', ReadUpTo r ["FILTER", filterLine] (.ok "ORDER" :: rest) r' :=
      exists_readUpTo (.filter filterLine) hphase h
    exact hr'.snoc rfl (onLine_orderHeader _ _ _)
termination_by good.length

/-- Without lines a call is at the end. -/
theorem next_of_nil (hphase : r.phase = .ready) (h : r.input.reads = []) :
    r.next.result = .ok none ∧ r.next.reader = { r with phase := .exhausted } := by
  rw [next, hphase, Phase.linesLeft]
  apply readLines_finish h
  rw [hphase]
  rfl

/-- A complete group is a section, and a call takes its four lines. -/
theorem next_of_group {filterLine orderLine : String} (hphase : r.phase = .ready)
    (h : r.input.reads =
      .ok "FILTER" :: .ok filterLine :: .ok "ORDER" :: .ok orderLine :: rest) :
    r.next.result = .ok (some (Section.ofLines r.rule r.line filterLine orderLine)) ∧
      r.next.reader.input.reads = rest ∧ r.next.reader.rule = r.rule ∧
      r.next.reader.line = r.line + 4 ∧ r.next.reader.phase = .ready := by
  obtain ⟨r', hr'⟩ := exists_readUpTo (.order filterLine) hphase h
  have hm : r'.phase.onLine r'.rule (r'.line + 1) (some orderLine) =
      .complete (Section.ofLines r.rule r.line filterLine orderLine)
        (Warning.ofDirective (r.line + 4) (Ranking.ofLine orderLine)) := by
    rw [hr'.phase, hr'.rule, hr'.line]
    simp only [phaseAfter, Phase.onLine, orDefault_eq]
    rfl
  obtain ⟨hresult, hreader⟩ := readLines_complete (n := 0) hr'.reads hm
  rw [hr'.result, hr'.reader]
  refine ⟨hresult, ?_⟩
  simp only [List.length_cons, List.length_nil, Nat.reduceAdd, Nat.reduceSub] at hreader ⊢
  rw [hreader]
  exact ⟨reads_advance hr'.reads, hr'.rule, by rw [advance_line, hr'.line]; rfl, rfl⟩

/-- The next call ends with an error, and the reader stays at its line. -/
def StopsWith (r : CommandReader) (error : ReadError) : Prop :=
  r.next.result = .error error ∧ r.next.reader.line = error.line ∧ r.next.reader.phase = .fatal

theorem ReadUpTo.stopsWith_line {good : List String} {text : String} {r' : CommandReader} {n : ℕ}
    {fault : LayoutFault} (h : ReadUpTo r good (.ok text :: rest) r')
    (hn : 4 - good.length = n + 1)
    (hm : (phaseAfter r.rule r.line good).onLine r.rule (r.line + good.length + 1) (some text) =
      .reject fault) : r.StopsWith (.layout (r.line + good.length + 1) fault) := by
  have hm' : r'.phase.onLine r'.rule (r'.line + 1) (some text) = .reject fault := by
    rw [h.phase, h.rule, h.line, hm]
  obtain ⟨hresult, hreader⟩ := readLines_reject (n := n) h.reads hm'
  refine ⟨?_, ?_, ?_⟩
  · rw [h.result, hn, hresult, h.line]
  · rw [h.reader, hn, hreader, advance_line, h.line]
    rfl
  · rw [h.reader, hn, hreader]

theorem ReadUpTo.stopsWith_end {good : List String} {r' : CommandReader} {n : ℕ}
    {fault : LayoutFault} (h : ReadUpTo r good [] r') (hn : 4 - good.length = n + 1)
    (hm : (phaseAfter r.rule r.line good).onLine r.rule (r.line + good.length) none =
      .reject fault) : r.StopsWith (.layout (r.line + good.length) fault) := by
  have hm' : r'.phase.onLine r'.rule r'.line none = .reject fault := by
    rw [h.phase, h.rule, h.line, hm]
  obtain ⟨hresult, hreader⟩ := readLines_reject_end (n := n) h.reads hm'
  refine ⟨?_, ?_, ?_⟩
  · rw [h.result, hn, hresult, h.line]
  · rw [h.reader, hn, hreader, h.line]
    rfl
  · rw [h.reader, hn, hreader]

theorem ReadUpTo.stopsWith_unreadable {good : List String} {cause : IoError} {r' : CommandReader}
    {n : ℕ} (h : ReadUpTo r good (.error cause :: rest) r') (hn : 4 - good.length = n + 1) :
    r.StopsWith (.unreadable (r.line + good.length) cause) := by
  obtain ⟨hresult, hreader⟩ := readLines_unreadable (n := n) h.reads
  refine ⟨?_, ?_, ?_⟩
  · rw [h.result, hn, hresult, h.line]
  · rw [h.reader, hn, hreader, h.line]
    rfl
  · rw [h.reader, hn, hreader]

/-- A fault stops a call with its error. -/
theorem stopsWith_of_fault {error : ReadError} (hphase : r.phase = .ready)
    (h : FirstFault r.line r.input.reads error) : r.StopsWith error := by
  generalize hlines : r.input.reads = lines at h
  cases h with
  | filterHeader hne =>
    obtain ⟨r', hr'⟩ := exists_readUpTo .none hphase hlines
    exact hr'.stopsWith_line rfl (if_neg hne)
  | noFilterLine =>
    obtain ⟨r', hr'⟩ := exists_readUpTo .header hphase hlines
    exact hr'.stopsWith_end rfl rfl
  | orderHeader hne =>
    obtain ⟨r', hr'⟩ := exists_readUpTo (.filter _) hphase hlines
    exact hr'.stopsWith_line rfl (if_neg fun heq => hne (Option.some.inj heq))
  | noOrderHeader =>
    obtain ⟨r', hr'⟩ := exists_readUpTo (.filter _) hphase hlines
    exact hr'.stopsWith_end rfl rfl
  | noOrderLine =>
    obtain ⟨r', hr'⟩ := exists_readUpTo (.order _) hphase hlines
    exact hr'.stopsWith_end rfl rfl
  | unreadable ho =>
    obtain ⟨r', hr'⟩ := exists_readUpTo ho hphase hlines
    obtain ⟨n, hn⟩ := Nat.exists_eq_add_of_lt ho.length_lt
    exact hr'.stopsWith_unreadable (n := n) (by omega)

/-! ### A whole file -/

/-- A reader between two sections, `index` of them behind it and these lines before it. -/
structure Between (rule : BoundsRule) (index : ℕ) (lines : List (Except IoError String))
    (r : CommandReader) : Prop where
  phase : r.phase = .ready
  rule : r.rule = rule
  line : r.line = 4 * index
  reads : r.input.reads = lines

theorem between_start (rule : BoundsRule) (input : ByteStream) :
    Between rule 0 input.reads { input, rule } :=
  ⟨rfl, rfl, rfl, rfl⟩

/-- What is left when a layout has been read: where it ends, and in which phase. -/
def Finished (index : ℕ) (ending : Option ReadError) (r : CommandReader) : Prop :=
  r.line = ending.elim (4 * index) ReadError.line ∧
    r.phase = ending.elim .exhausted fun _ => .fatal

theorem next_of_between_group {rule : BoundsRule} {index : ℕ} {filterLine orderLine : String}
    (h : Between rule index
      (.ok "FILTER" :: .ok filterLine :: .ok "ORDER" :: .ok orderLine :: rest) r) :
    r.next.result = .ok (some (Section.ofLines rule (4 * index) filterLine orderLine)) ∧
      Between rule (index + 1) rest r.next.reader := by
  obtain ⟨hresult, hreads, hrule, hline, hphase⟩ := next_of_group h.phase h.reads
  rw [h.rule, h.line] at hresult
  exact ⟨hresult, hphase, hrule.trans h.rule, by rw [hline, h.line]; omega, hreads⟩

/-- A reader reads the layout that its lines have. The induction is over the layout, one call for
each group and one for the end. -/
theorem read_layout {rule : BoundsRule} {index : ℕ} {lines : List (Except IoError String)}
    {sections : List Section} {ending : Option ReadError}
    (h : Layout rule index lines sections ending) {r : CommandReader}
    (hr : Between rule index lines r) :
    r.items = sections.map .ok ++ ending.toList.map .error ∧
      Finished (index + sections.length) ending r.drained := by
  induction h generalizing r with
  | ends =>
    obtain ⟨hresult, hreader⟩ := next_of_nil hr.phase hr.reads
    rw [items_of_end hresult, drained_of_end hresult, hreader]
    exact ⟨rfl, hr.line, rfl⟩
  | breaks hfault =>
    have hstop := stopsWith_of_fault hr.phase (by rw [hr.reads, hr.line]; exact hfault)
    rw [items_of_error hstop.1, drained_of_error hstop.1]
    exact ⟨rfl, hstop.2⟩
  | group _ ih =>
    obtain ⟨hresult, hnext⟩ := next_of_between_group hr
    obtain ⟨hitems, hfinished⟩ := ih hnext
    rw [items_of_section hresult, drained_of_section hresult, hitems, List.length_cons,
      Nat.add_comm _ 1, ← Nat.add_assoc]
    exact ⟨rfl, hfinished⟩

theorem items_injective {sections sections' : List Section} {ending ending' : Option ReadError}
    (h : (sections.map .ok ++ ending.toList.map .error : List (Except ReadError Section)) =
      sections'.map .ok ++ ending'.toList.map .error) :
    sections = sections' ∧ ending = ending' := by
  induction sections generalizing sections' with
  | nil =>
    cases sections' with
    | nil => cases ending <;> cases ending' <;> simp_all
    | cons s' sections' => cases ending <;> simp at h
  | cons s sections ih =>
    cases sections' with
    | nil => cases ending' <;> simp at h
    | cons s' sections' =>
      simp only [List.map_cons, List.cons_append, List.cons.injEq, Except.ok.injEq] at h
      obtain ⟨hs, hrest⟩ := h
      obtain ⟨hsections, hending⟩ := ih hrest
      exact ⟨by rw [hs, hsections], hending⟩

/-- A file has one layout, and a reader that is drained has read it: its sections, and then either
the end of the file after four lines for each of them, or the error of the first line that is out
of place, at the number of that line. -/
theorem drain_reads_layout (rule : BoundsRule) (bytes : Bytes) :
    ∃ sections ending,
      (∀ sections' ending', Layout rule 0 ((lines bytes).map decodeLine) sections' ending' ↔
        sections' = sections ∧ ending' = ending) ∧
      ({ input := { bytes }, rule } : CommandReader).items =
        sections.map .ok ++ ending.toList.map .error ∧
      ({ input := { bytes }, rule } : CommandReader).drained.line =
        ending.elim (4 * sections.length) ReadError.line ∧
      ({ input := { bytes }, rule } : CommandReader).drained.phase =
        ending.elim .exhausted fun _ => .fatal := by
  have hstart := between_start rule { bytes }
  obtain ⟨sections, ending, hlayout⟩ := exists_layout rule 0 ((lines bytes).map decodeLine)
  obtain ⟨hitems, hfinished⟩ := read_layout hlayout hstart
  rw [Nat.zero_add] at hfinished
  refine ⟨sections, ending, fun sections' ending' => ⟨fun h => ?_, ?_⟩, hitems, hfinished⟩
  · exact items_injective ((read_layout h hstart).1.symm.trans hitems)
  · rintro ⟨rfl, rfl⟩
    exact hlayout

end CommandReader

end FileSelection
