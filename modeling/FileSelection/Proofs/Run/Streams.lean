import FileSelection.Proofs.Run.JsonLines
import FileSelection.Proofs.Run.Report

/-! The two streams of a whole run and its exit status, for sinks that may refuse bytes anywhere and
a logger that shows nothing. What a run finds is a list of events and an ending. The output takes
the rendering of the events as far as it fits, and the error stream is offered one message, or none
after a success; which one it is depends on what was found and on whether the output took
everything, and not on the error stream. -/

namespace FileSelection

open Text.Utf8

/-! ### What a run finds -/

/-- What there is to tell with these settings: the events of the complete sections, if the run gets
as far as reading them, and how it ends if everything can be written. -/
inductive Findings (settings : Settings) (s : Surroundings) :
    List Event → Except String Outcome → Prop
  | noDirectory (h : s.sourceIsDirectory = false) :
    Findings settings s []
      (.error ("source directory " ++ settings.sourceDirectory ++ " does not exist"))
  | unlisted {cause : IoError} (h : s.sourceIsDirectory = true)
    (hlisting : s.listing = .error cause) :
    Findings settings s []
      (.error ("failed to list " ++ settings.sourceDirectory ++ ": " ++ cause.message))
  | unopened {listing : Listing} {cause : IoError} (h : s.sourceIsDirectory = true)
    (hlisting : s.listing = .ok listing) (hcommands : s.commands = .error cause) :
    Findings settings s []
      (.error ("failed to open command file " ++ settings.commandFile ++ ": " ++ cause.message))
  | read {listing : Listing} {input : ByteStream} {sections : List Section}
    {ending : Option ReadError} (h : s.sourceIsDirectory = true)
    (hlisting : s.listing = .ok listing) (hcommands : s.commands = .ok input)
    (hlayout : Layout settings.rule 0 input.reads sections ending) :
    Findings settings s (Event.ofSections (Inventory.ofListing listing).files 1 sections)
      (.ok (ending.elim (.finished sections.length) .stopped))

variable {settings : Settings} {s : Surroundings} {events : List Event}
  {ending : Except String Outcome}

/-- There is always something to find. -/
theorem exists_findings (settings : Settings) (s : Surroundings) :
    ∃ events ending, Findings settings s events ending := by
  cases hdirectory : s.sourceIsDirectory with
  | false => exact ⟨_, _, .noDirectory hdirectory⟩
  | true =>
    cases hlisting : s.listing with
    | error cause => exact ⟨_, _, .unlisted hdirectory hlisting⟩
    | ok listing =>
      cases hcommands : s.commands with
      | error cause => exact ⟨_, _, .unopened hdirectory hlisting hcommands⟩
      | ok input =>
        obtain ⟨sections, ending, hlayout⟩ := exists_layout settings.rule 0 input.reads
        exact ⟨_, _, .read hdirectory hlisting hcommands hlayout⟩

/-- The plan of a run that gets as far as reading sections. -/
theorem Plan.ofSettings_of_ok {listing : Listing} {input : ByteStream}
    (h : s.sourceIsDirectory = true) (hlisting : s.listing = .ok listing)
    (hcommands : s.commands = .ok input) :
    ofSettings settings s =
      { steps := (Inventory.ofListing listing).journal.map .log ++
          (ofReader (Inventory.ofListing listing).files { input, rule := settings.rule }).1
        ending := .ok
          (ofReader (Inventory.ofListing listing).files { input, rule := settings.rule }).2 } := by
  rw [ofSettings, h, hlisting, hcommands]
  rfl

/-- The plan of a run prints what there is to find, and ends like it. -/
theorem Findings.plan (h : Findings settings s events ending) :
    (Plan.ofSettings settings s).steps.filterMap Step.event? = events ∧
      (Plan.ofSettings settings s).ending = ending := by
  cases h with
  | noDirectory h =>
    rw [Plan.ofSettings, h]
    exact ⟨rfl, rfl⟩
  | unlisted h hlisting =>
    rw [Plan.ofSettings, h, hlisting]
    exact ⟨rfl, rfl⟩
  | unopened h hlisting hcommands =>
    rw [Plan.ofSettings, h, hlisting, hcommands]
    exact ⟨Plan.event?_log _, rfl⟩
  | @read listing input sections ending h hlisting hcommands hlayout =>
    obtain ⟨hevents, hended⟩ := Plan.ofReadings_of_layout hlayout
      (CommandReader.between_start settings.rule input) (Inventory.ofListing listing).files
    rw [Nat.zero_add] at hevents hended
    rw [Plan.ofSettings_of_ok h hlisting hcommands, List.filterMap_append, Plan.event?_log]
    exact ⟨hevents, congrArg Except.ok hended⟩

theorem Findings.isOutput (h : Findings settings s events ending) {event : Event}
    (hmem : event ∈ events) : event.isOutput := by
  cases h with
  | noDirectory _ | unlisted _ _ | unopened _ _ _ => cases hmem
  | read _ _ _ _ => exact Event.isOutput_of_mem_ofSections hmem

/-- There is only one thing to find. -/
theorem Findings.unique {events' : List Event} {ending' : Except String Outcome}
    (h : Findings settings s events ending) (h' : Findings settings s events' ending') :
    events' = events ∧ ending' = ending := by
  obtain ⟨hevents, hending⟩ := h.plan
  obtain ⟨hevents', hending'⟩ := h'.plan
  exact ⟨hevents'.symm.trans hevents, hending'.symm.trans hending⟩

/-- A plan prints nothing of how it ends. -/
theorem Plan.isOutput_of_mem_ofSettings {event : Event}
    (h : event ∈ (ofSettings settings s).steps.filterMap Step.event?) : event.isOutput := by
  obtain ⟨events, ending, hfound⟩ := exists_findings settings s
  rw [hfound.plan.1] at h
  exact hfound.isOutput h

/-- A run that cannot reach the first section has no events. -/
theorem Findings.eq_nil_of_error {message : String}
    (h : Findings settings s events (.error message)) : events = [] := by
  cases h <;> rfl

/-! ### Sinks as outputs -/

theorem Sink.write_eq_or (sink : Sink) (bytes : Bytes) :
    sink.write bytes = (.ok (), sink.took bytes) ∨
      sink.write bytes = (.error sink.refusal, sink.took bytes) := by
  obtain ⟨accepted, room, refusal, flushRefusal⟩ := sink
  cases room with
  | none => exact .inl rfl
  | some room =>
    by_cases hfits : bytes.length ≤ room
    · exact .inl (by rw [took, write]; simp only [if_pos hfits])
    · exact .inr (by rw [took, write]; simp only [if_neg hfits])

theorem Sink.eq_refusal_of_write {sink : Sink} {bytes : Bytes} {cause : IoError}
    (h : (sink.write bytes).1 = .error cause) : cause = sink.refusal := by
  rcases sink.write_eq_or bytes with hwrite | hwrite
  · rw [hwrite] at h
    cases h
  · rw [hwrite] at h
    exact (Except.error.inj h).symm

/-- A sink takes the first ones of some bytes, and all of them unless it refuses. -/
theorem Sink.exists_accepted_took (sink : Sink) (bytes : Bytes) :
    ∃ taken : Bytes, (sink.took bytes).accepted = sink.accepted ++ taken ∧ taken <+: bytes ∧
      ((sink.write bytes).1 = .ok () → taken = bytes) := by
  obtain ⟨accepted, room, refusal, flushRefusal⟩ := sink
  cases room with
  | none => exact ⟨bytes, rfl, List.prefix_rfl, fun _ => rfl⟩
  | some room =>
    refine ⟨bytes.take room, rfl, List.take_prefix room bytes, fun hwrite => ?_⟩
    apply List.take_of_length_le
    by_contra hlong
    simp only [write, if_neg hlong] at hwrite
    cases hwrite

theorem Destination.writeAll_sink (texts : List String) (sink : Sink) :
    Destination.writeAll texts sink = sink.write (encode (String.join texts)) := by
  induction texts generalizing sink with
  | nil => rw [String.join_nil, encode_empty, Sink.write_nil, writeAll]
  | cons text texts ih =>
    have hwrite : Destination.write (encode text) sink = sink.write (encode text) := rfl
    rw [writeAll, hwrite, String.join_cons, encode_append, Sink.write_append]
    obtain ⟨_ | _, sink'⟩ := sink.write (encode text)
    · rfl
    · exact ih sink'

theorem Event.writeAll_sink (format : Format) (events : List Event) (sink : Sink) :
    writeAll format events sink = sink.write (rendering format events) := by
  rw [writeAll, Destination.writeAll_sink, rendering_eq_join_chunks]

/-! ### The run -/

/-- A run whose log is silent, on two sinks. -/
theorem Findings.run_eq (h : Findings settings s events ending) (out err : Sink) :
    let rendering := Event.rendering settings.format events
    let ended := endingOnOutput ending (out.write rendering).1
    (Plan.ofSettings settings s).run settings.format { out, err } =
      (.ofEnding ended, {
        out := out.took rendering
        err := err.took (Event.rendering settings.format (Event.ofEnding? ended).toList) }) := by
  intro rendering ended
  obtain ⟨hevents, hending⟩ := h.plan
  have hquiet (level : Log.Level) : (Log.Logger.shows {} level) = false := rfl
  obtain ⟨hstatus, -, hconsole⟩ := Plan.run_of_admits (c := { out, err }) settings.format
    (fun _ => Plan.isOutput_of_mem_ofSettings) (fun _ _ => .inr (hquiet _)) (.inr (hquiet _))
    fun _ => .inr (hquiet _)
  rw [Plan.deliver_snd, hevents, hending, Event.writeAll_sink] at hstatus hconsole
  have hflushed : (Destination.flush (out.write rendering).2).2 = out.took rendering :=
    Sink.flush_snd _
  refine Prod.ext hstatus ((hconsole hquiet).trans ?_)
  rw [hflushed]

/-- The lines of a JSON rendering are what they tell. -/
theorem Told.lines_rendering (events : List Event) :
    Told.Lines (Event.rendering .json events) events :=
  Told.lines_join events

/-- A directory with one file in it. -/
theorem Inventory.files_of_one :
    (ofListing {
      directory := encode "/src"
      entries := [{ name := encode "a", status := .ok { isRegular := true, size := 1 } }] }).files =
      [⟨"a", "/src/a", 1, {}⟩] := by
  decide +kernel

/-- What a run leaves on two sinks, wherever these refuse bytes. The output takes a first part of
the rendering of the complete sections. The error stream is offered the rendering of one message, or
of none, and has no influence on anything else: the message, the status and the output are the same
for all error streams. Status 0 means that there is no message and that the output took the whole
rendering, after which the command file ended; status 1, that the output took the whole rendering
and the message is the error in the command file; and status 2, that the message is a failure,
either one that came before the first section or that of the output. JSON streams without a limit
consist of JSON lines. -/
theorem streams_of_run (settings : Settings) (s : Surroundings) (out : Sink) :
    ∃ (events : List Event) (ending : Except String Outcome) (status : ExitStatus)
      (message : Option Event) (out' : Sink) (written : Bytes),
      Findings settings s events ending ∧
      (∀ err : Sink, ∃ (err' : Sink) (told : Bytes),
        (Plan.ofSettings settings s).run settings.format { out, err } =
          (status, { out := out', err := err' }) ∧
        err' = err.took (Event.rendering settings.format message.toList) ∧
        err'.accepted = err.accepted ++ told ∧
        told <+: Event.rendering settings.format message.toList ∧
        (status.code = 0 → told = []) ∧
        (settings.format = .json → err.room = none → Told.Lines told message.toList)) ∧
      out'.accepted = out.accepted ++ written ∧
      written <+: Event.rendering settings.format events ∧
      (settings.format = .json → out.room = none → Told.Lines written events) ∧
      status.code ≤ 2 ∧
      (status.code = 0 → message = none ∧ written = Event.rendering settings.format events ∧
        ∃ sections, ending = .ok (.finished sections)) ∧
      (status.code = 1 → written = Event.rendering settings.format events ∧
        ∃ error, ending = .ok (.stopped error) ∧ message = some (.error error)) ∧
      (status.code = 2 → ∃ text, message = some (.failure text) ∧
        (ending = .error text ∧ events = [] ∧ written = [] ∨
          (out.write (Event.rendering settings.format events)).1 = .error out.refusal ∧
            text = "failed to write output: " ++ out.refusal.message)) := by
  obtain ⟨events, ending, hfound⟩ := exists_findings settings s
  set rendering := Event.rendering settings.format events with hrendering
  -- How the run ends is settled here, before there is an error stream.
  set ended := endingOnOutput ending (out.write rendering).1 with hended
  obtain ⟨written, haccepted, hprefix, hwhole⟩ := out.exists_accepted_took rendering
  refine ⟨events, ending, .ofEnding ended, Event.ofEnding? ended, out.took rendering, written,
    hfound, fun err => ?_, haccepted, hprefix, fun hjson hroom => ?_,
    ExitStatus.code_ofEnding_le ended, fun hcode => ?_, fun hcode => ?_, fun hcode => ?_⟩
  · obtain ⟨told, htold, htoldPrefix, htoldWhole⟩ :=
      err.exists_accepted_took (Event.rendering settings.format (Event.ofEnding? ended).toList)
    refine ⟨_, told, hfound.run_eq out err, rfl, htold, htoldPrefix, fun hcode => ?_,
      fun hjson hroom => ?_⟩
    · obtain ⟨sections, hfinished⟩ :=
        ExitStatus.ofEnding_eq_success_iff.1 (ExitStatus.code_injective hcode)
      rw [hfinished] at htoldPrefix
      exact List.prefix_nil.1 htoldPrefix
    · rw [htoldWhole (by rw [Sink.write_of_room_eq_none hroom]), hjson]
      exact Told.lines_rendering _
  · rw [hwhole (by rw [Sink.write_of_room_eq_none hroom]), hrendering, hjson]
    exact Told.lines_rendering events
  · obtain ⟨sections, hfinished⟩ :=
      ExitStatus.ofEnding_eq_success_iff.1 (ExitStatus.code_injective hcode)
    obtain ⟨hwrite, hending⟩ := endingOnOutput_eq_ok_iff.1 hfinished
    exact ⟨by rw [hfinished]; rfl, hwhole hwrite, sections, hending⟩
  · obtain ⟨error, hstopped⟩ :=
      ExitStatus.ofEnding_eq_fatal_iff.1 (ExitStatus.code_injective hcode)
    obtain ⟨hwrite, hending⟩ := endingOnOutput_eq_ok_iff.1 hstopped
    exact ⟨hwhole hwrite, error, hending, by rw [hstopped]; rfl⟩
  · obtain ⟨text, hfailed⟩ :=
      ExitStatus.ofEnding_eq_failure_iff.1 (ExitStatus.code_injective hcode)
    refine ⟨text, by rw [hfailed]; rfl, ?_⟩
    rcases endingOnOutput_eq_error_iff.1 hfailed with ⟨hwrite, hending⟩ | ⟨cause, hrefused, htext⟩
    · have hnone : events = [] := Findings.eq_nil_of_error (hending ▸ hfound)
      refine .inl ⟨hending, hnone, ?_⟩
      rw [hwhole hwrite, hrendering, hnone, Event.rendering_nil]
    · obtain rfl := Sink.eq_refusal_of_write hrefused
      exact .inr ⟨hrefused, htext⟩

/-- The command file has a section with a bad filter line and ends in the next one. The output has
the warning and the one file, and the error stream the error in line 5. -/
theorem streams_of_run_before_fault :
    let settings : Settings :=
      { sourceDirectory := "src", commandFile := "cmds", format := .human, rule := .strict }
    let s : Surroundings :=
      { sourceIsDirectory := true
        listing := .ok {
          directory := encode "/src"
          entries := [{ name := encode "a", status := .ok { isRegular := true, size := 1 } }] }
        commands := .ok { bytes := encode "FILTER\nbig\nORDER\nabs\nFILTER\n" } }
    ∃ out err : Sink,
      (Plan.ofSettings settings s).run settings.format { out := {}, err := {} } =
        (.fatal, { out, err }) ∧
      ExitStatus.fatal.code = 1 ∧
      out.accepted.toList = encode "Warning in line 2 - unknown filter name \"big\"\na\n" ∧
      err.accepted.toList =
        encode "ERROR: line 5: FILTER subsection has no filter directive\n" := by
  intro settings s
  obtain ⟨events, ending, status, message, out, written, hfound, hrun, hout, -, -, hcode, hzero,
    hone, htwo⟩ := streams_of_run settings s {}
  have hrest : Layout .strict 1 (ByteStream.reads { bytes := encode "FILTER\n" }) []
      (some (.layout 5 .missingFilterDirective)) := by
    have hreads : ByteStream.reads { bytes := encode "FILTER\n" } = [.ok "FILTER"] := by decide
    rw [hreads]
    exact .breaks .noFilterLine
  have hread := @Findings.read settings s _ _ _ _ rfl rfl rfl hrest.big
  obtain ⟨rfl, rfl⟩ := hread.unique hfound
  have hstatus : status.code = 1 := by
    have hnotZero : status.code ≠ 0 := fun h => by
      obtain ⟨-, -, _, hended⟩ := hzero h
      cases hended
    have hnotTwo : status.code ≠ 2 := fun h => by
      obtain ⟨_, -, ⟨hended, -⟩ | ⟨hrefused, -⟩⟩ := htwo h
      · cases hended
      · rw [Sink.write_of_room_eq_none rfl] at hrefused
        cases hrefused
    omega
  obtain ⟨hwritten, error, hended, hmessage⟩ := hone hstatus
  cases hended
  obtain rfl : status = .fatal := ExitStatus.code_injective hstatus
  obtain ⟨err, told, hended, herr, -⟩ := hrun {}
  refine ⟨out, err, hended, rfl, ?_, ?_⟩
  · rw [hout, hwritten, Inventory.files_of_one, Event.ofSections_all (List.pairwise_singleton _ _),
      Array.toList_appendList]
    decide +kernel
  · rw [herr, hmessage]
    decide +kernel

/-! ### The exit status -/

/-- What each exit status says. Status 0 means that the command file was read to its end, and
status 1 that an error in it was met, be it a fault in the layout or a failure to read on; in both
cases the output has taken all there was before. Status 2 means that the run did not reach the first
section, or that the output has refused something. -/
theorem status_of_run (settings : Settings) (s : Surroundings) (out err : Sink) :
    let status := ((Plan.ofSettings settings s).run settings.format { out, err }).1
    let result := fun events => (out.write (Event.rendering settings.format events)).1
    (status.code = 0 ↔ ∃ events sections,
      Findings settings s events (.ok (.finished sections)) ∧ result events = .ok ()) ∧
    (status.code = 1 ↔
      (∃ events line fault,
        Findings settings s events (.ok (.stopped (.layout line fault))) ∧ result events = .ok ()) ∨
      ∃ events line cause,
        Findings settings s events (.ok (.stopped (.unreadable line cause))) ∧
          result events = .ok ()) ∧
    (status.code = 2 ↔
      (∃ message, Findings settings s [] (.error message)) ∨
      ∃ events ending, Findings settings s events ending ∧ result events = .error out.refusal) := by
  intro status result
  obtain ⟨events, ending, hfound⟩ := exists_findings settings s
  have hstatus : status = .ofEnding (endingOnOutput ending (result events)) :=
    congrArg Prod.fst (hfound.run_eq out err)
  have hcode (expected : ExitStatus) : status.code = expected.code ↔ status = expected :=
    ExitStatus.code_injective.eq_iff
  refine ⟨?_, ?_, ?_⟩
  · rw [show 0 = ExitStatus.success.code from rfl, hcode, hstatus,
      ExitStatus.ofEnding_eq_success_iff]
    constructor
    · rintro ⟨sections, hended⟩
      obtain ⟨hresult, rfl⟩ := endingOnOutput_eq_ok_iff.1 hended
      exact ⟨events, sections, hfound, hresult⟩
    · rintro ⟨events', sections, hfound', hresult⟩
      obtain ⟨rfl, rfl⟩ := hfound.unique hfound'
      exact ⟨sections, endingOnOutput_eq_ok_iff.2 ⟨hresult, rfl⟩⟩
  · rw [show 1 = ExitStatus.fatal.code from rfl, hcode, hstatus, ExitStatus.ofEnding_eq_fatal_iff]
    constructor
    · rintro ⟨error, hended⟩
      obtain ⟨hresult, rfl⟩ := endingOnOutput_eq_ok_iff.1 hended
      cases error with
      | layout line fault => exact .inl ⟨events, line, fault, hfound, hresult⟩
      | unreadable line cause => exact .inr ⟨events, line, cause, hfound, hresult⟩
    · rintro (⟨events', line, fault, hfound', hresult⟩ | ⟨events', line, cause, hfound', hresult⟩)
      all_goals
        obtain ⟨rfl, rfl⟩ := hfound.unique hfound'
        exact ⟨_, endingOnOutput_eq_ok_iff.2 ⟨hresult, rfl⟩⟩
  · rw [show 2 = ExitStatus.failure.code from rfl, hcode, hstatus,
      ExitStatus.ofEnding_eq_failure_iff]
    constructor
    · rintro ⟨message, hended⟩
      rcases endingOnOutput_eq_error_iff.1 hended with ⟨-, rfl⟩ | ⟨cause, hrefused, -⟩
      · obtain rfl := hfound.eq_nil_of_error
        exact .inl ⟨message, hfound⟩
      · obtain rfl := Sink.eq_refusal_of_write hrefused
        exact .inr ⟨events, ending, hfound, hrefused⟩
    · rintro (⟨message, hfound'⟩ | ⟨events', ending', hfound', hresult⟩)
      · obtain ⟨rfl, rfl⟩ := hfound.unique hfound'
        refine ⟨message, endingOnOutput_eq_error_iff.2 (.inl ⟨?_, rfl⟩)⟩
        exact congrArg Prod.fst (Sink.write_nil out)
      · obtain ⟨rfl, rfl⟩ := hfound.unique hfound'
        exact ⟨_, endingOnOutput_eq_error_iff.2 (.inr ⟨_, hresult, rfl⟩)⟩

/-- A directory in place of the command file can be opened but not read, and the run ends with the
status of an error in the command file. -/
theorem status_of_directory_as_commands :
    let settings : Settings :=
      { sourceDirectory := "src", commandFile := "src", format := .human, rule := .strict }
    let s : Surroundings :=
      { sourceIsDirectory := true
        listing := .ok { directory := encode "/src", entries := [] }
        commands := .ok { bytes := [], failure := some .isDirectory } }
    Findings settings s [] (.ok (.stopped (.unreadable 0 .isDirectory))) ∧
      ∃ c : Console Sink,
        (Plan.ofSettings settings s).run .human { out := {}, err := {} } = (.fatal, c) ∧
        ExitStatus.fatal.code = 1 ∧
        c.err.accepted.toList = encode
          "ERROR: line 0: failed to read command stream: Is a directory (os error 21)\n" := by
  intro settings s
  have hreads : ByteStream.reads { bytes := [], failure := some .isDirectory } =
      [.error .isDirectory] := by decide
  have hlayout : Layout .strict 0 (ByteStream.reads { bytes := [], failure := some .isDirectory })
      [] (some (.unreadable 0 .isDirectory)) := by
    rw [hreads]
    exact .breaks (.unreadable .none)
  have hfound : Findings settings s [] (.ok (.stopped (.unreadable 0 .isDirectory))) :=
    @Findings.read settings s _ _ [] (some (.unreadable 0 .isDirectory)) rfl rfl rfl hlayout
  have hrun := hfound.run_eq ({} : Sink) ({} : Sink)
  exact ⟨hfound, _, hrun, rfl, by decide +kernel⟩

end FileSelection
