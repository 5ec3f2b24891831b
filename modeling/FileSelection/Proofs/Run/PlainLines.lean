import FileSelection.Proofs.CommandFile.Messages
import FileSelection.Proofs.File.Paths
import FileSelection.Proofs.Run.Formats
import FileSelection.Proofs.Run.Report

/-! The lines of the human format. Every event ends its line, and a warning has no other newline in
it, so it is one line. A row is the name of a file as it is, and a name may contain newlines: then
it is as many lines more as it has of them, each of which looks like the name of another file. So a
reader of the lines can be sure of one line for each event where no selected name has a newline, and
only there. -/

namespace FileSelection

open ByteStream (terminated unterminated newline)
open Text.Utf8

/-! ### Shown events -/

namespace Event

/-- What a human reader is shown of an event, without the end of the line. -/
def shown : Event → String
  | .warning _ w => w.shown
  | .row _ file => file.name
  | .error e => "ERROR: " ++ e.message
  | .failure message => "ERROR: " ++ message

/-- The lines on which it is shown. -/
def shownLines (event : Event) : List String :=
  (Text.cut '\n' event.shown.toList).map String.ofList

theorem line_human (event : Event) : event.line .human = event.shown ++ "\n" := by
  cases event with
  | warning number w => exact line_warning number w
  | row number file =>
    change String.join [file.name, "\n"] = _
    simp only [String.join_cons, String.join_nil, String.append_empty, shown]
  | error e =>
    change String.join ["ERROR: ", e.message, "\n"] = _
    simp only [String.join_cons, String.join_nil, String.append_empty, shown, String.append_assoc]
  | failure message =>
    change String.join ["ERROR: ", message, "\n"] = _
    simp only [String.join_cons, String.join_nil, String.append_empty, shown, String.append_assoc]

/-- A newline is the end of the line of every event, and all others stand in what is shown. -/
theorem lines_of_rendering (events : List Event) :
    terminated (rendering .human events) = (events.flatMap shownLines).map encode ∧
      unterminated (rendering .human events) = [] := by
  induction events with
  | nil => exact ⟨rfl, rfl⟩
  | cons event events ih =>
    have hbytes : rendering .human (event :: events) =
        encode event.shown ++ newline :: rendering .human events := by
      rw [rendering_cons, line_human, encode_append, List.append_assoc]
      rfl
    have hshown : Text.cut newline (encode event.shown) = event.shownLines.map encode := by
      have hnewline : Char.ofNat newline.toNat = '\n' := by decide
      rw [shownLines, List.map_map, encode, Text.Utf8.cut_flatMap_encodeChar (by decide), hnewline]
      exact List.map_congr_left fun piece _ => by
        rw [Function.comp_apply, encode, String.toList_ofList]
    rw [hbytes, ByteStream.terminated_append_newline, ByteStream.unterminated_append_newline,
      hshown, ih.1, List.flatMap_cons, List.map_append]
    exact ⟨rfl, ih.2⟩

theorem length_shownLines (event : Event) :
    event.shownLines.length = event.shown.toList.count '\n' + 1 := by
  rw [shownLines, List.length_map, Text.length_cut]

theorem shownLines_of_not_mem {event : Event} (h : '\n' ∉ event.shown.toList) :
    event.shownLines = [event.shown] := by
  rw [shownLines, Text.cut_of_not_mem h, List.map_singleton, String.ofList_toList]

theorem newline_not_mem_warning (number : ℕ) (w : Warning) :
    '\n' ∉ (warning number w).shown.toList := by
  have hshown : Text.Shown w.shown :=
    .numbered (.of_plain rfl) w.line (.of_plain rfl) w.rejection.shown_message
  exact fun hmem => hshown.onOneLine '\n' hmem (.inl (by decide))

/-- There are as many lines more than events as newlines in what is shown. -/
theorem length_flatMap_shownLines (events : List Event) :
    (events.flatMap shownLines).length =
      events.length + (events.flatMap (·.shown.toList)).count '\n' := by
  induction events with
  | nil => rfl
  | cons event events ih =>
    rw [List.flatMap_cons, List.length_append, ih, length_shownLines, List.flatMap_cons,
      List.count_append, List.length_cons]
    omega

/-- There is one line for each event where nothing that is shown has a newline, and only there. -/
theorem flatMap_shownLines_eq_iff {events : List Event} :
    events.flatMap shownLines = events.map shown ↔ ∀ event ∈ events, '\n' ∉ event.shown.toList := by
  constructor
  · intro h event hmem hnewline
    have hlength := congrArg List.length h
    rw [length_flatMap_shownLines, List.length_map, Nat.add_eq_left, List.count_eq_zero] at hlength
    exact hlength (List.mem_flatMap.2 ⟨event, hmem, hnewline⟩)
  · intro h
    rw [← List.flatMap_singleton' (events.map shown), List.flatMap_map]
    exact List.flatMap_congr fun event hmem => shownLines_of_not_mem (h event hmem)

end Event

/-! ### The run -/

/-- What an unlimited output receives of a run over the sections of a layout. -/
theorem Layout.out_of_sections {rule : BoundsRule} {input : ByteStream} {sections : List Section}
    {ending : Option ReadError} (h : Layout rule 0 input.reads sections ending)
    {c : Console Sink} (hc : c.Unlimited) (format : Format) (files : List FileInfo) :
    ∃ c' : Console Sink,
      Action.sections format files { input, rule } c =
        .ok (ending.elim (.finished sections.length) .stopped) c' ∧
      c'.out.accepted =
        c.out.accepted ++ Event.rendering format (Event.ofSections files 1 sections) := by
  obtain ⟨hevents, houtcome⟩ :=
    Plan.ofReadings_of_layout h (CommandReader.between_start rule input) files
  have hrun := Action.sections_of_unlimited hc format files { input, rule }
  rw [Plan.ofReader, hevents, houtcome, Nat.zero_add] at hrun
  exact ⟨_, hrun, Sink.accepted_took hc.1 _⟩

/-- The lines of a run in the human format, on streams that take every byte. The output ends with a
newline and is the events of the complete sections, each on the lines on which it is shown: one for
a warning, and for a row the name of its file, which is as many lines more as it has newlines. So
the lines are the events one by one, each row the whole name of its file, exactly where no name of
a selected file has a newline. -/
theorem plain_lines_of_run (rule : BoundsRule) (input : ByteStream) (files : List FileInfo)
    (c : Console Sink) (h : c.Unlimited) :
    ∃ (sections : List Section) (ending : Option ReadError) (c' : Console Sink) (written : Bytes),
      let events := Event.ofSections files 1 sections
      ({ input, rule } : CommandReader).items =
        sections.map .ok ++ ending.toList.map .error ∧
      Action.sections .human files { input, rule } c =
        .ok (ending.elim (.finished sections.length) .stopped) c' ∧
      c'.out.accepted = c.out.accepted ++ written ∧
      unterminated written = [] ∧
      terminated written = (events.flatMap Event.shownLines).map encode ∧
      (∀ number w, (Event.warning number w).shownLines = [w.shown]) ∧
      (terminated written).length =
        events.length + (events.flatMap (·.shown.toList)).count '\n' ∧
      (terminated written = (events.map Event.shown).map encode ↔
        ∀ number file, .row number file ∈ events → '\n' ∉ file.name.toList) := by
  obtain ⟨sections, ending, hlayout⟩ := exists_layout rule 0 input.reads
  obtain ⟨c', hrun, hout⟩ := hlayout.out_of_sections h .human files
  obtain ⟨hlines, hend⟩ := Event.lines_of_rendering (Event.ofSections files 1 sections)
  refine ⟨sections, ending, c', _,
    (CommandReader.read_layout hlayout (CommandReader.between_start rule input)).1, hrun, hout,
    hend, hlines, fun number w => ?_, ?_, ?_⟩
  · exact Event.shownLines_of_not_mem (Event.newline_not_mem_warning number w)
  · rw [hlines, List.length_map, Event.length_flatMap_shownLines]
  · rw [hlines, (List.map_injective_iff.2 encode_injective).eq_iff,
      Event.flatMap_shownLines_eq_iff]
    constructor
    · intro hfree number file hmem
      exact hfree _ hmem
    · intro hfree event hmem
      have houtput := Event.isOutput_of_mem_ofSections hmem
      cases event with
      | warning number w => exact Event.newline_not_mem_warning number w
      | row number file => exact hfree number file hmem
      | error e => cases houtput
      | failure message => cases houtput

/-- A section with a bad filter line takes every file, here one with a blank in its name. -/
theorem plain_lines_of_run_with_warning :
    ∃ c : Console Sink,
      Action.sections .human [⟨"a b", "/d/a b", 1, {}⟩]
          { input := { bytes := encode "FILTER\nbig\nORDER\nabs\n" }, rule := .strict }
          { out := {}, err := {} } = .ok (.finished 1) c ∧
      terminated c.out.accepted.toList =
        [encode "Warning in line 2 - unknown filter name \"big\"", encode "a b"] := by
  obtain ⟨sections, ending, c, written, hitems, hrun, hout, -, -, -, -, hlines⟩ :=
    plain_lines_of_run .strict { bytes := encode "FILTER\nbig\nORDER\nabs\n" }
      [⟨"a b", "/d/a b", 1, {}⟩] { out := {}, err := {} } ⟨rfl, rfl⟩
  have hlayout := @Layout.big .strict [] _ _ .ends
  have hread := (CommandReader.read_layout hlayout (CommandReader.between_start _ _)).1
  obtain ⟨rfl, rfl⟩ := CommandReader.items_injective (hitems.symm.trans hread)
  rw [Event.ofSections_all (List.pairwise_singleton _ _), List.map_singleton, List.map_singleton,
    List.singleton_append] at hlines
  refine ⟨c, hrun, ?_⟩
  rw [hout, Array.toList_appendList, List.nil_append, hlines.2 ?_]
  · decide +kernel
  · rintro number file hmem
    simp only [List.mem_cons, List.not_mem_nil, or_false, reduceCtorEq, false_or,
      Event.row.injEq] at hmem
    rw [hmem.2]
    decide

/-- One file with a newline in its name, next to two files without one. The output is the same: two
lines for one row. -/
theorem plain_lines_of_broken_name :
    ∃ one two : Console Sink,
      Action.sections .human [⟨"a\nb", "/d/a\nb", 1, {}⟩]
          { input := { bytes := encode "FILTER\nall\nORDER\nabs\n" }, rule := .strict }
          { out := {}, err := {} } = .ok (.finished 1) one ∧
      Action.sections .human [⟨"a", "/d/a", 1, {}⟩, ⟨"b", "/d/b", 1, {}⟩]
          { input := { bytes := encode "FILTER\nall\nORDER\nabs\n" }, rule := .strict }
          { out := {}, err := {} } = .ok (.finished 1) two ∧
      Event.ofSections [⟨"a\nb", "/d/a\nb", 1, {}⟩] 1 [Section.ofLines .strict 0 "all" "abs"] =
        [.row 1 ⟨"a\nb", "/d/a\nb", 1, {}⟩] ∧
      one.out.accepted = two.out.accepted ∧
      terminated one.out.accepted.toList = [encode "a", encode "b"] := by
  have hone := Event.ofSections_all (List.pairwise_singleton _ ⟨"a\nb", "/d/a\nb", 1, {}⟩) 1 []
  have htwo := @Event.ofSections_all [⟨"a", "/d/a", 1, {}⟩, ⟨"b", "/d/b", 1, {}⟩]
    (List.pairwise_pair.2 (by decide +kernel)) 1 []
  obtain ⟨one, hrunOne, houtOne⟩ := (Layout.all .strict).out_of_sections
    (c := { out := {}, err := {} }) ⟨rfl, rfl⟩ .human [⟨"a\nb", "/d/a\nb", 1, {}⟩]
  obtain ⟨two, hrunTwo, houtTwo⟩ := (Layout.all .strict).out_of_sections
    (c := { out := {}, err := {} }) ⟨rfl, rfl⟩ .human
    [⟨"a", "/d/a", 1, {}⟩, ⟨"b", "/d/b", 1, {}⟩]
  rw [hone] at houtOne
  rw [htwo] at houtTwo
  rw [Section.ofLines_all]
  refine ⟨one, two, hrunOne, hrunTwo, hone, ?_, ?_⟩
  · rw [houtOne, houtTwo]
    decide +kernel
  · rw [houtOne]
    decide +kernel

end FileSelection
