import FileSelection.Proofs.Run.JsonLines
import FileSelection.Proofs.Run.Limited

/-! The two formats of one run, next to each other. A reader of the JSON lines who writes each of
them as a plain sentence has the output in the human format, byte by byte, and the same holds of
the error that ends a run. So the human format leaves out what only the JSON lines tell, such as the
numbers of the sections, and adds nothing. These numbers never decrease from line to line. -/

namespace FileSelection

open ByteStream (terminated unterminated)
open Text.Utf8

/-! ### Streams of JSON lines -/

namespace Told

/-- The sentence, or the name, for which the human format has room. -/
def plain : Told → String
  | .warning _ line message => "Warning in line " ++ toString line ++ " - " ++ message ++ "\n"
  | .file _ name _ _ => name ++ "\n"
  | .error _ message => "ERROR: " ++ message ++ "\n"

/-- The number of the section that is told of. -/
def number? : Told → Option ℕ
  | .warning number _ _ => some number
  | .file number _ _ _ => some number
  | .error _ _ => none

/-- What a stream tells line by line, where it consists of lines that tell something. -/
def ofBytes? (bytes : Bytes) : Option (List Told) :=
  if unterminated bytes = [] then (terminated bytes).mapM ofLine? else none

theorem mapM_ofLine? {lines : List Bytes} {events : List Event}
    (h : lines.map ofLine? = events.map (some <| ofEvent ·)) :
    lines.mapM ofLine? = some (events.map ofEvent) := by
  induction lines generalizing events with
  | nil =>
    cases events with
    | nil => rfl
    | cons _ _ => cases h
  | cons line lines ih =>
    cases events with
    | nil => cases h
    | cons event events =>
      obtain ⟨hline, hrest⟩ := List.cons.inj h
      rw [List.mapM_cons, hline, ih hrest]
      rfl

theorem Lines.ofBytes?_eq {bytes : Bytes} {events : List Event} (h : Lines bytes events) :
    ofBytes? bytes = some (events.map ofEvent) := by
  rw [ofBytes?, if_pos h.2]
  exact mapM_ofLine? h.1

/-- The human format of an event is the plain form of what its JSON line tells. -/
theorem plain_ofEvent (event : Event) : (ofEvent event).plain = event.line .human := by
  cases event with
  | warning number w =>
    change "Warning in line " ++ toString w.line ++ " - " ++ w.rejection.message ++ "\n" =
      String.join ["Warning in line ", toString w.line, " - ", w.rejection.message, "\n"]
    simp only [String.join_cons, String.join_nil, String.append_empty, String.append_assoc]
  | row number file =>
    change file.name ++ "\n" = String.join [file.name, "\n"]
    simp only [String.join_cons, String.join_nil, String.append_empty]
  | error e =>
    change "ERROR: " ++ e.message ++ "\n" = String.join ["ERROR: ", e.message, "\n"]
    simp only [String.join_cons, String.join_nil, String.append_empty, String.append_assoc]
  | failure message =>
    change "ERROR: " ++ message ++ "\n" = String.join ["ERROR: ", message, "\n"]
    simp only [String.join_cons, String.join_nil, String.append_empty, String.append_assoc]

theorem join_plain (events : List Event) :
    String.join ((events.map ofEvent).map plain) =
      String.join (events.map (Event.line .human)) := by
  rw [List.map_map]
  exact congrArg String.join (List.map_congr_left fun event _ => plain_ofEvent event)

end Told

/-! ### The numbers of sections -/

theorem Event.number?_of_mem_ofSection {files : List FileInfo} {number : ℕ} {s : Section}
    {event : Event} (h : event ∈ ofSection files number s) :
    (Told.ofEvent event).number? = some number := by
  rcases List.mem_append.1 h with hmem | hmem
  · obtain ⟨w, -, rfl⟩ := List.mem_map.1 hmem
    rfl
  · obtain ⟨file, -, rfl⟩ := List.mem_map.1 hmem
    rfl

/-- Each section has a number above those of the sections before it. -/
theorem Plan.numbers_ofReadings (files : List FileInfo) (readings : List Reading) (index : ℕ) :
    ∃ numbers : List ℕ,
      (((ofReadings files index readings).1.filterMap Step.event?).map Told.ofEvent).map
          Told.number? = numbers.map some ∧
        numbers.Pairwise (· ≤ ·) ∧ ∀ number ∈ numbers, index < number := by
  induction readings generalizing index with
  | nil => exact ⟨[], rfl, .nil, List.forall_mem_nil _⟩
  | cons reading readings ih =>
    rw [ofReadings]
    split
    · rw [event?_log]
      exact ⟨[], rfl, .nil, List.forall_mem_nil _⟩
    · rw [event?_log]
      exact ⟨[], rfl, .nil, List.forall_mem_nil _⟩
    next s _ =>
      obtain ⟨numbers, hnumbers, hsorted, habove⟩ := ih (index + 1)
      have hsection : ((Event.ofSection files (index + 1) s).map Told.ofEvent).map Told.number? =
          (List.replicate (Event.ofSection files (index + 1) s).length (index + 1)).map some := by
        rw [List.map_map, List.map_replicate, List.eq_replicate_iff, List.length_map]
        refine ⟨rfl, fun number hmem => ?_⟩
        obtain ⟨event, hevent, rfl⟩ := List.mem_map.1 hmem
        exact Event.number?_of_mem_ofSection hevent
      refine ⟨List.replicate (Event.ofSection files (index + 1) s).length (index + 1) ++ numbers,
        ?_, List.pairwise_append.2 ⟨?_, hsorted, ?_⟩, ?_⟩
      · simp only [List.filterMap_append, event?_log, event?_sectionSteps, List.nil_append,
          List.map_append, hsection, hnumbers]
      · exact List.pairwise_replicate.2 (.inr le_rfl)
      · intro number hmem later hlater
        rw [List.eq_of_mem_replicate hmem]
        exact (habove later hlater).le
      · intro number hmem
        rcases List.mem_append.1 hmem with hmem | hmem
        · rw [List.eq_of_mem_replicate hmem]
          exact Nat.lt_succ_self index
        · exact (Nat.lt_succ_self index).trans (habove number hmem)

/-! ### The run -/

namespace Action

/-- What a run prints on an unlimited console, in either format, is told by the same events. -/
theorem sections_of_unlimited {c : Console Sink} (h : c.Unlimited) (format : Format)
    (files : List FileInfo) (reader : CommandReader) :
    sections format files reader c =
      .ok (Plan.ofReader files reader).2 (c.received
        (encode (String.join (((Plan.ofReader files reader).1.filterMap Step.event?).map
          (Event.line format))))
        (encode (c.logger.shown c.time
          ((Plan.ofReader files reader).1.filterMap Step.entry?)))) := by
  have houtput : ∀ event ∈ (Plan.ofReader files reader).1.filterMap Step.event?, event.isOutput :=
    Plan.isOutput_of_mem_ofReadings files reader.readAll 0
  have hsteps := steps_of_unlimited h format (Plan.ofReader files reader).1
  rw [Plan.join_outText format houtput, Plan.join_errText format _ _ houtput] at hsteps
  exact bind_of_ok hsteps

/-- An unlimited console receives the line of an error on its error stream. -/
theorem print_error_of_unlimited {c : Console Sink} (h : c.Unlimited) (format : Format)
    (error : ReadError) :
    print format (.error error) c =
      .ok () (c.received [] (encode (Event.line format (.error error)))) :=
  step_of_unlimited h format (.print (.error error))

end Action

/-- The entries of a reader's plan are shown only where those for debugging are. -/
theorem Plan.shown_entries (files : List FileInfo) (reader : CommandReader) {logger : Log.Logger}
    (h : logger.shows .debug = false) (time : String) :
    logger.shown time ((ofReader files reader).1.filterMap Step.entry?) = "" := by
  apply Log.Logger.shown_eq_empty
  intro entry hmem
  have hdebug : entry.level = .debug :=
    level_of_mem_entries (fun _ h => CommandReader.exists_next_of_mem_readAll h) hmem
  rw [hdebug, h]

/-- One run in both formats, on streams that take every byte. The runs have the same outcome, and
the lines of the JSON format, decoded and put into plain words, are the output of the human format,
which numbers the sections in order. Where an error ends the runs and is printed, its JSON line has
the number of its line, and in plain words is what the human format prints of it. -/
theorem formats_tell_the_same (files : List FileInfo) (reader : CommandReader) (c : Console Sink)
    (hout : c.out.room = none) (herr : c.err.room = none) :
    ∃ (outcome : Outcome) (human json : Console Sink) (names lines : Bytes) (told : List Told)
      (numbers : List ℕ),
      Action.sections .human files reader c = .ok outcome human ∧
      Action.sections .json files reader c = .ok outcome json ∧
      human.out.accepted = c.out.accepted ++ names ∧
      json.out.accepted = c.out.accepted ++ lines ∧
      Told.ofBytes? lines = some told ∧
      names = encode (String.join (told.map Told.plain)) ∧
      told.map Told.number? = numbers.map some ∧ numbers.Pairwise (· ≤ ·) ∧
      human.err = json.err ∧ (c.logger.shows .debug = false → human.err = c.err) ∧
      ∀ error, outcome = .stopped error →
        ∃ (human' json' : Console Sink) (sentence line : Bytes),
          Action.print .human (.error error) human = .ok () human' ∧
          Action.print .json (.error error) json = .ok () json' ∧
          human'.out = human.out ∧ json'.out = json.out ∧
          human'.err.accepted = human.err.accepted ++ sentence ∧
          json'.err.accepted = json.err.accepted ++ line ∧
          Told.ofBytes? line = some [.error (some error.line) error.message] ∧
          sentence = encode (Told.plain (.error (some error.line) error.message)) := by
  have hrun (format : Format) := Action.sections_of_unlimited ⟨hout, herr⟩ format files reader
  set events := (Plan.ofReader files reader).1.filterMap Step.event? with hevents
  set shown := encode (c.logger.shown c.time ((Plan.ofReader files reader).1.filterMap Step.entry?))
  have hended (bytes : Bytes) : (c.received bytes shown).Unlimited :=
    Console.Unlimited.received ⟨hout, herr⟩ bytes shown
  obtain ⟨numbers, hnumbers, hsorted, -⟩ := Plan.numbers_ofReadings files reader.readAll 0
  refine ⟨_, _, _, _, _, events.map Told.ofEvent, numbers, hrun .human, hrun .json,
    Sink.accepted_took hout _, Sink.accepted_took hout _, (Told.lines_join events).ofBytes?_eq,
    by rw [Told.join_plain], hnumbers, hsorted, rfl, ?_, ?_⟩
  · intro hoff
    have hsilent : shown = [] := by
      rw [← encode_empty, ← Plan.shown_entries files reader hoff c.time]
    rw [hsilent]
    exact Sink.took_nil c.err
  · intro error _
    have hline : Told.ofBytes? (encode (Event.line .json (.error error))) =
        some [.error (some error.line) error.message] := by
      have hlines := Told.lines_join [.error error]
      rw [List.map_singleton, String.join_cons, String.join_nil, String.append_empty] at hlines
      exact hlines.ofBytes?_eq
    refine ⟨_, _, _, _, Action.print_error_of_unlimited (hended _) .human error,
      Action.print_error_of_unlimited (hended _) .json error, Sink.took_nil _, Sink.took_nil _,
      Sink.accepted_took (hended _).2 _, Sink.accepted_took (hended _).2 _, hline, ?_⟩
    rw [← Told.plain_ofEvent]
    rfl

/-- A section with a bad filter line, and then a line that begins no section. -/
theorem formats_tell_the_same_before_fault :
    ∃ (human json human' : Console Sink) (told : List Told),
      Action.sections .human [⟨"a", "/d/a", 7, {}⟩]
          { input := { bytes := encode "FILTER\nbig\nORDER\nabs\nX\n" }, rule := .strict }
          { out := {}, err := {} } =
        .ok (.stopped (.layout 5 (.missingFilterHeader "X"))) human ∧
      Action.sections .json [⟨"a", "/d/a", 7, {}⟩]
          { input := { bytes := encode "FILTER\nbig\nORDER\nabs\nX\n" }, rule := .strict }
          { out := {}, err := {} } =
        .ok (.stopped (.layout 5 (.missingFilterHeader "X"))) json ∧
      Told.ofBytes? json.out.accepted.toList = some told ∧
      human.out.accepted.toList = encode (String.join (told.map Told.plain)) ∧
      Action.print .human (.error (.layout 5 (.missingFilterHeader "X"))) human = .ok () human' ∧
      human'.err.accepted.toList =
        encode "ERROR: line 5: FILTER subsection is missing (found \"X\")\n" := by
  obtain ⟨outcome, human, json, names, lines, told, _, hhuman, hjson, hnames, hlines, htold, hplain,
    -, -, -, hquiet, hprinted⟩ :=
    formats_tell_the_same [⟨"a", "/d/a", 7, {}⟩]
      { input := { bytes := encode "FILTER\nbig\nORDER\nabs\nX\n" }, rule := .strict }
      { out := {}, err := {} } rfl rfl
  have hrest : Layout .strict 1 (ByteStream.reads { bytes := encode "X\n" }) []
      (some (.layout 5 (.missingFilterHeader "X"))) := by
    have hreads : ByteStream.reads { bytes := encode "X\n" } = ["X"].map .ok := by decide
    rw [hreads]
    exact .breaks (.filterHeader (by decide))
  have hstopped : outcome = .stopped (.layout 5 (.missingFilterHeader "X")) := by
    have hended := congrArg Action.outcome hhuman
    rw [Action.outcome_sections ⟨rfl, rfl⟩] at hended
    rw [← Except.ok.inj hended]
    exact (Plan.ofReadings_of_layout hrest.big (CommandReader.between_start _ _) _).2
  subst hstopped
  obtain ⟨human', -, sentence, -, hprint, -, -, -, herr, -, -, hsentence⟩ := hprinted _ rfl
  refine ⟨human, json, human', told, hhuman, hjson, ?_, ?_, hprint, ?_⟩
  · rw [hlines, Array.toList_appendList, List.nil_append, htold]
  · rw [hnames, Array.toList_appendList, List.nil_append, hplain]
  · have hmessage : Told.plain (.error (some 5)
        (ReadError.message (.layout 5 (.missingFilterHeader "X")))) =
        "ERROR: line 5: FILTER subsection is missing (found \"X\")\n" := by
      decide +kernel
    rw [herr, hquiet rfl, Array.toList_appendList, List.nil_append, hsentence]
    exact congrArg encode hmessage

end FileSelection
