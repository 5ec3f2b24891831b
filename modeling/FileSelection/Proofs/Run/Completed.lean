import FileSelection.Proofs.CommandFile.Layout
import FileSelection.Proofs.Run.Delivery
import FileSelection.Proofs.Selection.Order

/-! What a run tells of the sections of a command file. The events of a run are those of its
complete sections, each with its number, its warnings first and then its files; the section in which
the file breaks has none, not even the warning of a filter line already read. The main statement is
that a console with unlimited streams receives the lines of exactly these events. -/

namespace FileSelection

open Text.Utf8

/-! ### The events of sections -/

/-- The events of section number `number`. -/
def Event.ofSection (files : List FileInfo) (number : ℕ) (s : Section) : List Event :=
  s.warnings.map (.warning number) ++ (s.select files).map (.row number)

/-- The events of sections that are numbered from `number` on. -/
def Event.ofSections (files : List FileInfo) (number : ℕ) (sections : List Section) :
    List Event :=
  (sections.zipIdx number).flatMap fun (s, number) => Event.ofSection files number s

def Step.event? : Step → Option Event
  | .log _ => none
  | .print event => some event

def Step.entry? : Step → Option Log.Entry
  | .log entry => some entry
  | .print _ => none

/-- The lines that a logger shows of some entries. -/
def Log.Logger.shown (logger : Log.Logger) (time : String) (entries : List Log.Entry) : String :=
  String.join ((entries.filter (logger.shows ·.level)).map (Log.Entry.line time))

theorem Log.Logger.shown_eq_empty {logger : Log.Logger} {entries : List Log.Entry}
    (h : ∀ entry ∈ entries, logger.shows entry.level = false) (time : String) :
    logger.shown time entries = "" := by
  have hhidden : entries.filter (logger.shows ·.level) = [] := by
    rw [List.filter_eq_nil_iff]
    intro entry hmem
    rw [h entry hmem]
    exact Bool.false_ne_true
  rw [shown, hhidden]
  rfl

theorem Event.ofSections_cons (files : List FileInfo) (number : ℕ) (s : Section)
    (sections : List Section) :
    ofSections files number (s :: sections) =
      ofSection files number s ++ ofSections files (number + 1) sections := by
  rw [ofSections, List.zipIdx_cons, List.flatMap_cons]
  rfl

theorem Event.isOutput_of_mem_ofSections {files : List FileInfo} {number : ℕ}
    {sections : List Section} {event : Event} (h : event ∈ ofSections files number sections) :
    event.isOutput := by
  obtain ⟨⟨s, number⟩, -, hevent⟩ := List.mem_flatMap.1 h
  rcases List.mem_append.1 hevent with hmem | hmem
  · obtain ⟨w, -, rfl⟩ := List.mem_map.1 hmem
    rfl
  · obtain ⟨file, -, rfl⟩ := List.mem_map.1 hmem
    rfl

/-! ### The events of a plan -/

namespace Plan

theorem event?_log (entries : List Log.Entry) :
    (entries.map Step.log).filterMap Step.event? = [] := by
  rw [List.filterMap_map]
  exact List.filterMap_eq_nil_iff.2 fun _ _ => rfl

theorem event?_print (events : List Event) :
    (events.map Step.print).filterMap Step.event? = events := by
  rw [List.filterMap_map]
  exact List.filterMap_some

theorem entry?_log (entries : List Log.Entry) :
    (entries.map Step.log).filterMap Step.entry? = entries := by
  rw [List.filterMap_map]
  exact List.filterMap_some

theorem entry?_print (events : List Event) :
    (events.map Step.print).filterMap Step.entry? = [] := by
  rw [List.filterMap_map]
  exact List.filterMap_eq_nil_iff.2 fun _ _ => rfl

/-- A section's warnings are printed before its files, with one log entry in between. -/
theorem exists_sectionSteps (files : List FileInfo) (number : ℕ) (s : Section) :
    ∃ message, sectionSteps files number s =
      (s.warnings.map (Event.warning number)).map Step.print ++
        .log (logEntry .debug message) ::
          ((s.select files).map (Event.row number)).map Step.print := by
  refine ⟨s!"section {number}: {(s.select files).length} of {files.length} files selected", ?_⟩
  rw [sectionSteps, List.map_map, List.map_map]
  rfl

theorem event?_sectionSteps (files : List FileInfo) (number : ℕ) (s : Section) :
    (sectionSteps files number s).filterMap Step.event? = Event.ofSection files number s := by
  obtain ⟨message, hsteps⟩ := exists_sectionSteps files number s
  rw [hsteps, List.filterMap_append, List.filterMap_cons, event?_print, event?_print]
  rfl

theorem entry?_sectionSteps (files : List FileInfo) (number : ℕ) (s : Section) :
    ∃ message, (sectionSteps files number s).filterMap Step.entry? = [logEntry .debug message] := by
  obtain ⟨message, hsteps⟩ := exists_sectionSteps files number s
  refine ⟨message, ?_⟩
  rw [hsteps, List.filterMap_append, List.filterMap_cons, entry?_print, entry?_print]
  rfl

/-- The plan of a layout: the events of its sections, and how it ends. -/
theorem ofReadings_of_layout {rule : BoundsRule} {index : ℕ}
    {lines : List (Except IoError String)} {sections : List Section} {ending : Option ReadError}
    (h : Layout rule index lines sections ending) {r : CommandReader}
    (hr : CommandReader.Between rule index lines r) (files : List FileInfo) :
    (ofReadings files index r.readAll).1.filterMap Step.event? =
        Event.ofSections files (index + 1) sections ∧
      (ofReadings files index r.readAll).2 =
        ending.elim (.finished (index + sections.length)) .stopped := by
  induction h generalizing r with
  | ends =>
    have hresult := (CommandReader.next_of_nil hr.phase hr.reads).1
    rw [CommandReader.readAll_of_end hresult, ofReadings, hresult]
    exact ⟨event?_log _, rfl⟩
  | breaks hfault =>
    have hresult := (CommandReader.stopsWith_of_fault hr.phase
      (by rw [hr.reads, hr.line]; exact hfault)).1
    rw [CommandReader.readAll_of_error hresult, ofReadings, hresult]
    exact ⟨event?_log _, rfl⟩
  | group _ ih =>
    obtain ⟨hresult, hnext⟩ := CommandReader.next_of_between_group hr
    obtain ⟨hevents, houtcome⟩ := ih hnext
    rw [CommandReader.readAll_of_section hresult, ofReadings, hresult]
    refine ⟨?_, ?_⟩
    · simp only [List.filterMap_append, event?_log, event?_sectionSteps, hevents,
        Event.ofSections_cons, List.nil_append]
    · rw [houtcome, List.length_cons, Nat.add_right_comm]
      rfl

/-- The log entries of a reader's plan are for debugging. -/
theorem level_of_mem_entries {files : List FileInfo} {index : ℕ} {readings : List Reading}
    (h : ∀ reading ∈ readings, ∃ r : CommandReader, reading = r.next) {entry : Log.Entry}
    (hentry : entry ∈ (ofReadings files index readings).1.filterMap Step.entry?) :
    entry.level = .debug := by
  induction readings generalizing index with
  | nil => cases hentry
  | cons reading readings ih =>
    obtain ⟨⟨r, rfl⟩, hrest⟩ := List.forall_mem_cons.1 h
    rw [ofReadings] at hentry
    split at hentry
    · rw [entry?_log] at hentry
      exact CommandReader.level_of_mem_journal hentry
    · rw [entry?_log] at hentry
      exact CommandReader.level_of_mem_journal hentry
    next s _ =>
      obtain ⟨message, hsteps⟩ := entry?_sectionSteps files (index + 1) s
      simp only [List.filterMap_append, entry?_log, hsteps, List.mem_append,
        List.mem_singleton] at hentry
      rcases hentry with (hjournal | rfl) | hlater
      · exact CommandReader.level_of_mem_journal hjournal
      · rfl
      · exact ih hrest hlater

theorem join_outText (format : Format) {planned : List Step}
    (h : ∀ event ∈ planned.filterMap Step.event?, event.isOutput) :
    String.join (planned.map (Step.outText format)) =
      String.join ((planned.filterMap Step.event?).map (Event.line format)) := by
  induction planned with
  | nil => rfl
  | cons s planned ih =>
    rw [List.filterMap_cons] at h ⊢
    cases s with
    | log entry => simpa [Step.outText, Step.event?] using ih h
    | print event =>
      obtain ⟨hevent, hrest⟩ := List.forall_mem_cons.1 h
      rw [List.map_cons, String.join_cons, ih hrest, Step.outText, if_pos hevent]
      simp [Step.event?]

theorem join_errText (format : Format) (logger : Log.Logger) (time : String)
    {planned : List Step} (h : ∀ event ∈ planned.filterMap Step.event?, event.isOutput) :
    String.join (planned.map (Step.errText format logger time)) =
      logger.shown time (planned.filterMap Step.entry?) := by
  induction planned with
  | nil => rfl
  | cons s planned ih =>
    rw [List.filterMap_cons] at h ⊢
    cases s with
    | log entry =>
      rw [List.map_cons, String.join_cons, ih h, Step.errText, Log.Logger.shown, Step.entry?]
      simp only [Log.Logger.shown, List.filter_cons]
      split_ifs <;> simp
    | print event =>
      obtain ⟨hevent, hrest⟩ := List.forall_mem_cons.1 h
      rw [List.map_cons, String.join_cons, ih hrest, Step.errText, if_pos hevent]
      simp [Step.entry?]

end Plan

/-! ### The warnings of a section -/

theorem Warning.line_ofDirective {α : Type} (line : ℕ) (result : Except Rejection α) :
    ((ofDirective line result).map Warning.line).Sublist [line] := by
  cases result with
  | ok _ => exact List.nil_sublist _
  | error _ => exact List.Sublist.refl _

theorem Section.lines_of_warnings (rule : BoundsRule) (before : ℕ)
    (filterLine orderLine : String) :
    ((ofLines rule before filterLine orderLine).warnings.map Warning.line).Sublist
      [before + 2, before + 4] := by
  rw [ofLines, List.map_append]
  exact (Warning.line_ofDirective _ _).append (Warning.line_ofDirective _ _)

/-- The warnings of section `s` are those of its filter line and of its order line. -/
theorem Layout.lines_of_warnings {rule : BoundsRule} {index : ℕ}
    {lines : List (Except IoError String)} {sections : List Section} {ending : Option ReadError}
    (h : Layout rule index lines sections ending) {s : Section} {number : ℕ}
    (hs : (s, number) ∈ sections.zipIdx (index + 1)) :
    (s.warnings.map Warning.line).Sublist [4 * number - 2, 4 * number] := by
  induction h with
  | ends => simp at hs
  | breaks _ => simp at hs
  | group _ ih =>
    rw [List.zipIdx_cons] at hs
    rcases List.mem_cons.1 hs with heq | hmem
    · obtain ⟨rfl, rfl⟩ := Prod.mk.inj heq
      exact Section.lines_of_warnings _ _ _ _
    · exact ih hmem

/-! ### Command files for all files -/

/-- All files, in the order of their paths, after some warnings. -/
def Section.all (warnings : List Warning) : Section where
  selector := .all
  ranking := .ascendingPath
  warnings := warnings

theorem Section.ofLines_all (rule : BoundsRule) : ofLines rule 0 "all" "abs" = all [] := by
  cases rule <;> decide

/-- A filter of an unknown name leaves all files. -/
theorem Section.ofLines_big (rule : BoundsRule) :
    ofLines rule 0 "big" "abs" = all [{ line := 2, rejection := .unknownFilterName "big" }] := by
  cases rule <;> decide

theorem Layout.all (rule : BoundsRule) :
    Layout rule 0 (ByteStream.reads { bytes := encode "FILTER\nall\nORDER\nabs\n" })
      [Section.all []] none := by
  have hreads : ByteStream.reads { bytes := encode "FILTER\nall\nORDER\nabs\n" } =
      ["FILTER", "all", "ORDER", "abs"].map .ok := by decide
  rw [hreads, ← Section.ofLines_all rule]
  exact .group .ends

/-- A section with a bad filter line, and whatever stands behind it. -/
theorem Layout.big {rule : BoundsRule} {rest : Bytes} {sections : List Section}
    {ending : Option ReadError}
    (h : Layout rule 1 (ByteStream.reads { bytes := rest }) sections ending) :
    Layout rule 0 (ByteStream.reads { bytes := encode "FILTER\nbig\nORDER\nabs\n" ++ rest })
      (Section.all [{ line := 2, rejection := .unknownFilterName "big" }] :: sections) ending := by
  have hbytes : encode "FILTER\nbig\nORDER\nabs\n" ++ rest =
      encode "FILTER" ++ ByteStream.newline :: (encode "big" ++ ByteStream.newline ::
        (encode "ORDER" ++ ByteStream.newline :: (encode "abs" ++ ByteStream.newline :: rest))) :=
    rfl
  have hreads : ByteStream.reads { bytes := encode "FILTER\nbig\nORDER\nabs\n" ++ rest } =
      ["FILTER", "big", "ORDER", "abs"].map .ok ++ ByteStream.reads { bytes := rest } := by
    simp (disch := decide) only [hbytes, ByteStream.reads_append_cons]
    rfl
  rw [hreads, ← Section.ofLines_big rule]
  exact .group h

/-- A section for all files tells of its warnings and then of every file, in the order of the
paths. -/
theorem Event.ofSections_all {files : List FileInfo} (h : Ranking.ascendingPath.Sorts id files)
    (number : ℕ) (warnings : List Warning) :
    ofSections files number [Section.all warnings] =
      warnings.map (.warning number) ++ files.map (.row number) := by
  have hselected : (Section.all warnings).select files = files :=
    Section.select_eq_self (fun _ _ => rfl) h
  rw [ofSections_cons, ofSection, hselected]
  exact List.append_nil _

/-! ### The run -/

/-- With unlimited streams, a run prints the lines of its complete sections, each with its number
and selected from the same files, and nothing of a section that is not complete. The error stream
receives no event, and shows log entries where the logger lets those for debugging through. -/
theorem sections_prints_completed (rule : BoundsRule) (bytes : Bytes) (files : List FileInfo)
    (format : Format) (c : Console Sink) (hout : c.out.room = none) (herr : c.err.room = none) :
    ∃ (sections : List Section) (ending : Option ReadError) (c' : Console Sink),
      ({ input := { bytes }, rule } : CommandReader).items =
        sections.map .ok ++ ending.toList.map .error ∧
      Action.sections format files { input := { bytes }, rule } c =
        .ok (ending.elim (.finished sections.length) .stopped) c' ∧
      c'.out.accepted = c.out.accepted ++ encode (String.join
        ((Event.ofSections files 1 sections).map (Event.line format))) ∧
      (∀ s number, (s, number) ∈ sections.zipIdx 1 →
        (s.warnings.map Warning.line).Sublist [4 * number - 2, 4 * number]) ∧
      (∃ entries : List Log.Entry, (∀ entry ∈ entries, entry.level = .debug) ∧
        c'.err.accepted = c.err.accepted ++ encode (c.logger.shown c.time entries)) ∧
      (c.logger.shows .debug = false → c'.err = c.err) := by
  have hstart := CommandReader.between_start rule { bytes }
  obtain ⟨sections, ending, hlayout⟩ := exists_layout rule 0 (ByteStream.reads { bytes })
  obtain ⟨hitems, -⟩ := CommandReader.read_layout hlayout hstart
  obtain ⟨hevents, houtcome⟩ := Plan.ofReadings_of_layout hlayout hstart files
  rw [Nat.zero_add] at hevents houtcome
  set reader : CommandReader := { input := { bytes }, rule }
  set planned := (Plan.ofReadings files 0 reader.readAll).1 with hplanned
  have hdebug : ∀ entry ∈ planned.filterMap Step.entry?, entry.level = .debug := fun entry hmem =>
    Plan.level_of_mem_entries (fun _ h => CommandReader.exists_next_of_mem_readAll h) hmem
  have houtput : ∀ event ∈ planned.filterMap Step.event?, event.isOutput := fun event hmem =>
    Event.isOutput_of_mem_ofSections (hevents ▸ hmem)
  have hsteps := Action.steps_of_unlimited ⟨hout, herr⟩ format planned
  rw [Plan.join_outText format houtput, Plan.join_errText format _ _ houtput, hevents] at hsteps
  refine ⟨sections, ending, c.received
    (encode (String.join ((Event.ofSections files 1 sections).map (Event.line format))))
    (encode (c.logger.shown c.time (planned.filterMap Step.entry?))),
    hitems, ?_, ?_, fun _ _ => hlayout.lines_of_warnings,
    ⟨planned.filterMap Step.entry?, hdebug, ?_⟩, ?_⟩
  · rw [Action.sections, Plan.ofReader]
    exact (Action.bind_of_ok hsteps).trans (by rw [houtcome]; rfl)
  · rw [Console.received, Sink.took_of_room_eq_none hout]
  · rw [Console.received, Sink.took_of_room_eq_none herr]
  · intro hoff
    have hhidden : ∀ entry ∈ planned.filterMap Step.entry?,
        c.logger.shows entry.level = false := fun entry hmem => by rw [hdebug entry hmem, hoff]
    rw [Console.received, Log.Logger.shown_eq_empty hhidden, encode_empty]
    exact Sink.took_nil c.err

/-- The second section has the wrong header for its order: the run tells of the bad filter in line 2
and of the file that it leaves, and not of the bad filter in line 6. -/
theorem sections_prints_completed_before_fault :
    ∃ c' : Console Sink,
      Action.sections .human [⟨"a", "/d/a", 1, {}⟩]
          { input := { bytes := encode "FILTER\nbig\nORDER\nabs\nFILTER\nbig\nORDRE\n" },
            rule := .strict } { out := {}, err := {} } =
        .ok (.stopped (.layout 7 (.missingOrderHeader (some "ORDRE")))) c' ∧
      c'.out.accepted.toList =
        encode "Warning in line 2 - unknown filter name \"big\"\na\n" ∧
      c'.err = {} := by
  obtain ⟨sections, ending, c', hitems, hrun, hout, -, -, herr⟩ :=
    sections_prints_completed .strict (encode "FILTER\nbig\nORDER\nabs\nFILTER\nbig\nORDRE\n")
      [⟨"a", "/d/a", 1, {}⟩] .human { out := {}, err := {} } rfl rfl
  have hrest : Layout .strict 1 (ByteStream.reads { bytes := encode "FILTER\nbig\nORDRE\n" }) []
      (some (.layout 7 (.missingOrderHeader (some "ORDRE")))) := by
    have hreads : ByteStream.reads { bytes := encode "FILTER\nbig\nORDRE\n" } =
        ["FILTER", "big", "ORDRE"].map .ok := by decide
    rw [hreads]
    exact .breaks (.orderHeader (by decide))
  have hread := (CommandReader.read_layout hrest.big (CommandReader.between_start _ _)).1
  obtain ⟨rfl, rfl⟩ := CommandReader.items_injective (hitems.symm.trans hread)
  refine ⟨c', hrun, ?_, herr rfl⟩
  rw [hout, Event.ofSections_all (List.pairwise_singleton _ _), Array.toList_appendList]
  decide +kernel

end FileSelection
