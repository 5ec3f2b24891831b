import FileSelection.Proofs.Run.Streams

/-! What logging does to a run. On an error stream that takes every byte it changes neither the
status nor the output. An error stream that refuses every byte changes nothing either as long as no
entry is shown; but the first entry that is shown ends the process with a crash. So the one status
that no ending has is a matter of the log level and of what the run has to log. -/

namespace FileSelection

open Text.Utf8

variable {σ : Type}

/-! ### Error streams that refuse every byte -/

theorem encode_ne_nil_of_newline {text : String} (h : '\n' ∈ text.toList) : encode text ≠ [] :=
  List.ne_nil_of_mem ((mem_encode_iff (b := 0x0A) (by decide)).2 h)

namespace Sink

variable {sink : Sink}

theorem write_of_room_eq_zero (h : sink.room = some 0) {bytes : Bytes} (hbytes : bytes ≠ []) :
    sink.write bytes = (.error sink.refusal, sink) := by
  obtain ⟨accepted, room, refusal, flushRefusal⟩ := sink
  subst h
  have hlong : ¬bytes.length ≤ 0 := by simpa using hbytes
  simp [write, hlong]

end Sink

theorem Log.Entry.newline_mem_line (entry : Log.Entry) (time : String) :
    '\n' ∈ (entry.line time).toList := by
  change '\n' ∈ (_ ++ "\n").toList
  rw [String.toList_append]
  exact List.mem_append_right _ (List.mem_singleton_self _)

theorem Event.newline_mem_line (event : Event) (format : Format) :
    '\n' ∈ (event.line format).toList := by
  cases format <;> cases event <;> simp [line, chunks, String.join_cons]

namespace Log.Logger

variable {logger : Log.Logger} {level level' : Log.Level}

theorem shows_iff : logger.shows level ↔
    (∃ max, logger.maximum = some max ∧ level.verbosity ≤ max.verbosity) ∧
      ∃ max, logger.installed = some max ∧ level.verbosity ≤ max.verbosity := by
  rw [shows, Bool.and_eq_true, passes, enabled]
  cases logger.maximum <;> cases logger.installed <;> simp

/-- More is shown at the levels that matter more. -/
theorem shows_of_le (hle : level.verbosity ≤ level'.verbosity) (h : logger.shows level') :
    logger.shows level := by
  obtain ⟨⟨max, hmaximum, hpasses⟩, max', hinstalled, henabled⟩ := shows_iff.1 h
  exact shows_iff.2 ⟨⟨max, hmaximum, hle.trans hpasses⟩, max', hinstalled, hle.trans henabled⟩

end Log.Logger

namespace Action

variable {c : Console σ}

/-- An entry that is shown and refused ends the process. -/
theorem submit_of_refusing (hroom : c.err.room = some 0) {entry : Log.Entry}
    (h : c.logger.shows entry.level) : submit entry c = .error .crashed c := by
  rw [submit_of_shown h, writeEntry, writeErr,
    Sink.write_of_room_eq_zero hroom (encode_ne_nil_of_newline (entry.newline_mem_line c.time))]

variable [Destination σ]

/-- A message that is refused is complained of, which ends the process where complaints are
shown. -/
theorem orLog_print_of_refusing (hroom : c.err.room = some 0) (h : c.logger.shows .debug)
    (format : Format) {event : Event} (hevent : event.isOutput = false) (complaint : String) :
    orLog (print format event) complaint c = .error .crashed c := by
  have hprint := print_of_not_isOutput format hevent c
  rw [Sink.write_of_room_eq_zero hroom
    (encode_ne_nil_of_newline (event.newline_mem_line format))] at hprint
  rw [orLog, hprint]
  exact submit_of_refusing hroom h

/-- Steps end the process where one of the entries up to the end of the output is shown. -/
theorem steps_of_refusing (hroom : c.err.room = some 0) (format : Format) {planned : List Step}
    (houtput : ∀ event ∈ planned.filterMap Step.event?, event.isOutput)
    (h : ∃ entry ∈ (Plan.deliver format planned c.out).1, c.logger.shows entry.level) :
    ∃ c', steps format planned c = .error .crashed c' := by
  induction planned generalizing c with
  | nil =>
    obtain ⟨_, hmem, -⟩ := h
    cases hmem
  | cons s planned ih =>
    rw [List.filterMap_cons] at houtput
    cases s with
    | log entry =>
      by_cases hshown : c.logger.shows entry.level
      · exact ⟨c, bind_of_error (submit_of_refusing hroom hshown)⟩
      · have hhidden : submit entry c = .ok () c := submit_of_hidden (Bool.eq_false_iff.2 hshown)
        obtain ⟨later, hmem, hlater⟩ := h
        rcases List.mem_cons.1 hmem with rfl | hmem
        · exact absurd hlater hshown
        · obtain ⟨c', hsteps⟩ := ih hroom houtput ⟨later, hmem, hlater⟩
          exact ⟨c', (bind_of_ok hhidden).trans hsteps⟩
    | print event =>
      obtain ⟨hevent, hrest⟩ := List.forall_mem_cons.1 houtput
      have hprint := print_of_isOutput format hevent c
      rw [Plan.deliver] at h
      generalize Destination.writeAll (event.chunks format) c.out = written at h hprint
      obtain ⟨result, out⟩ := written
      cases result with
      | ok _ =>
        obtain ⟨c', hsteps⟩ := ih (c := { c with out }) hroom hrest h
        exact ⟨c', (bind_of_ok hprint).trans hsteps⟩
      | error cause =>
        obtain ⟨_, hmem, -⟩ := h
        cases hmem

theorem conclude_of_refusing (hroom : c.err.room = some 0) (format : Format)
    {ending : Except String Outcome}
    (h : c.logger.shows .debug ∨
      (ExitStatus.ofEnding ending = .success ∧ c.logger.shows .info)) :
    conclude format ending c = .error .crashed c := by
  match ending, h with
  | .ok (.finished sections), h =>
    have hinfo : c.logger.shows .info := by
      rcases h with hdebug | ⟨-, hinfo⟩
      · exact Log.Logger.shows_of_le (by decide) hdebug
      · exact hinfo
    exact bind_of_error (submit_of_refusing hroom hinfo)
  | .ok (.stopped e), .inl hdebug =>
    exact bind_of_error (orLog_print_of_refusing hroom hdebug format rfl _)
  | .error message, .inl hdebug =>
    exact bind_of_error (orLog_print_of_refusing hroom hdebug format rfl _)

end Action

variable [Destination σ]

/-- A run that crashes at its first step has done nothing. -/
theorem Plan.run_of_refused_first {c : Console σ} {plan : Plan} (hroom : c.err.room = some 0)
    (format : Format) {entry : Log.Entry} {rest : List Step}
    (hsteps : plan.steps = .log entry :: rest) (h : c.logger.shows entry.level) :
    plan.run format c = (.crash, c) := by
  have hcarried : Action.carryOut format plan c = .error .crashed c := by
    have hfirst : Action.steps format plan.steps c = .error .crashed c := by
      rw [hsteps]
      exact Action.bind_of_error (Action.submit_of_refusing hroom h)
    rw [Action.carryOut, hfirst]
  rw [run, Action.report, Action.bind_of_error hcarried]

/-- Where the error stream refuses every byte, a run crashes if one of its entries is shown: one of
those before its output ends, the last one of a success, or the complaint of a message that was
refused. Otherwise it ends as it does where nothing is refused. -/
theorem Plan.run_of_refusing {c : Console σ} (hroom : c.err.room = some 0) (format : Format)
    {plan : Plan} (houtput : ∀ event ∈ plan.steps.filterMap Step.event?, event.isOutput) :
    let delivered := deliver format plan.steps c.out
    let ending := endingOnOutput plan.ending delivered.2.1
    ((plan.run format c).1 = .crash ↔
      (∃ entry ∈ delivered.1, c.logger.shows entry.level) ∨ c.logger.shows .debug ∨
        (ExitStatus.ofEnding ending = .success ∧ c.logger.shows .info)) ∧
      ((plan.run format c).1 ≠ .crash →
        (plan.run format c).1 = .ofEnding ending ∧
        (plan.run format c).2.out = (Destination.flush delivered.2.2).2) := by
  intro delivered ending
  -- A refused entry among the steps comes first; only without one does the ending matter.
  by_cases hshown : ∃ entry ∈ delivered.1, c.logger.shows entry.level
  · obtain ⟨c', hsteps⟩ := Action.steps_of_refusing hroom format houtput hshown
    have hcarried : Action.carryOut format plan c = .error .crashed c' := by
      rw [Action.carryOut, hsteps]
    have hcrash : (plan.run format c).1 = .crash := by
      rw [run, Action.report, Action.bind_of_error hcarried]
    exact ⟨iff_of_true hcrash (.inl hshown), fun h => absurd hcrash h⟩
  have hhidden : ∀ entry ∈ delivered.1, c.logger.shows entry.level = false := by
    simpa using hshown
  by_cases hended : c.logger.shows .debug ∨
      (ExitStatus.ofEnding ending = .success ∧ c.logger.shows .info)
  · have hcarried := Action.carryOut_of_admits (c := c) format houtput
      fun entry hmem => .inr (hhidden entry hmem)
    rw [Console.heard_of_hidden (c := { c with out := delivered.2.2 }) hhidden] at hcarried
    have hconcluded := Action.conclude_of_refusing (c := { c with out := delivered.2.2 }) hroom
      format hended
    have hcrash : (plan.run format c).1 = .crash := by
      rw [run, Action.report, Action.bind_of_ok hcarried, Action.bind_of_error hconcluded]
    exact ⟨iff_of_true hcrash (.inr hended), fun h => absurd hcrash h⟩
  · obtain ⟨hdebug, hinfo⟩ := not_or.1 hended
    obtain ⟨hstatus, hout, -⟩ := run_of_admits (c := c) format houtput
      (fun entry hmem => .inr (hhidden entry hmem)) (.inr (Bool.eq_false_iff.2 hdebug))
      fun hsuccess => .inr (Bool.eq_false_iff.2 fun h => hinfo ⟨hsuccess, h⟩)
    refine ⟨iff_of_false ?_ (not_or.2 ⟨hshown, hended⟩), fun _ => ⟨hstatus, hout⟩⟩
    rw [hstatus]
    exact ExitStatus.ofEnding_ne_crash _

/-! ### The entries of a run -/

/-- An entry of the directory is left out with a warning. -/
def Surroundings.LeavesOut (s : Surroundings) : Prop :=
  s.sourceIsDirectory = true ∧ ∃ listing, s.listing = .ok listing ∧
    ∃ entry ∈ listing.entries, ∃ warning,
      Inventory.inspect listing.directory entry = .error (some warning)

namespace Inventory

theorem level_of_inspect {directory : Bytes} {entry : DirectoryEntry} {warning : Log.Entry}
    (h : inspect directory entry = .error (some warning)) : warning.level = .warn := by
  rw [inspect] at h
  split at h
  · cases h
    rfl
  split at h
  · cases h
    rfl
  · split_ifs at h
    · cases h
    · split at h
      · cases h
        rfl
      · cases h

/-- The log of an inventory has a warning for each entry that is left out, and then a count. -/
theorem exists_journal (listing : Listing) :
    ∃ (warnings : List Log.Entry) (count : Log.Entry),
      (ofListing listing).journal = warnings ++ [count] ∧ count.level = .debug ∧
      ∀ warning, warning ∈ warnings ↔
        ∃ entry ∈ listing.entries, inspect listing.directory entry = .error (some warning) := by
  refine ⟨_, _, rfl, rfl, fun warning => ?_⟩
  rw [List.mem_filterMap]
  constructor
  · rintro ⟨inspected, hmem, hwarning⟩
    obtain ⟨entry, hentry, rfl⟩ := List.mem_map.1 hmem
    refine ⟨entry, hentry, ?_⟩
    split at hwarning
    · cases hwarning
    next heq => rw [heq, hwarning]
  · rintro ⟨entry, hentry, hwarning⟩
    exact ⟨_, List.mem_map.2 ⟨entry, hentry, rfl⟩, by rw [hwarning]⟩

end Inventory

namespace Plan

/-- Entries at the start of a plan are logged whatever the output does. -/
theorem deliver_log_append (format : Format) (entries : List Log.Entry) (planned : List Step)
    (out : σ) :
    (deliver format (entries.map .log ++ planned) out).1 =
      entries ++ (deliver format planned out).1 := by
  induction entries with
  | nil => rfl
  | cons entry entries ih => exact congrArg (entry :: ·) ih

theorem mem_of_mem_deliver {format : Format} {planned : List Step} {out : σ} {entry : Log.Entry}
    (h : entry ∈ (deliver format planned out).1) : entry ∈ planned.filterMap Step.entry? := by
  induction planned generalizing out with
  | nil => cases h
  | cons s planned ih =>
    cases s with
    | log logged =>
      rcases List.mem_cons.1 h with rfl | hmem
      · exact List.mem_cons_self
      · exact List.mem_cons_of_mem _ (ih hmem)
    | print event =>
      rw [deliver] at h
      generalize Destination.writeAll (event.chunks format) out = written at h
      obtain ⟨_ | _, out'⟩ := written
      · cases h
      · exact ih h

/-- The plan of a run begins with the log of the inventory, and logs nothing but for debugging after
it. -/
theorem exists_steps_ofSettings (settings : Settings) {s : Surroundings} {listing : Listing}
    (h : s.sourceIsDirectory = true) (hlisting : s.listing = .ok listing) :
    ∃ planned, (ofSettings settings s).steps =
        (Inventory.ofListing listing).journal.map .log ++ planned ∧
      ∀ entry ∈ planned.filterMap Step.entry?, entry.level = .debug := by
  cases hcommands : s.commands with
  | error cause =>
    refine ⟨[], ?_, List.forall_mem_nil _⟩
    rw [ofSettings, h, hlisting, hcommands, List.append_nil]
    rfl
  | ok input =>
    rw [ofSettings_of_ok h hlisting hcommands]
    exact ⟨_, rfl, fun _ hmem =>
      level_of_mem_entries (fun _ hmem => CommandReader.exists_next_of_mem_readAll hmem) hmem⟩

/-- Without entries for debugging, what a run shows while it writes is warnings for entries of the
directory that are left out. -/
theorem exists_shown_iff (settings : Settings) (s : Surroundings) (format : Format) (out : σ)
    {logger : Log.Logger} (hdebug : logger.shows .debug = false) :
    (∃ entry ∈ (deliver format (ofSettings settings s).steps out).1,
      logger.shows entry.level) ↔ logger.shows .warn ∧ s.LeavesOut := by
  constructor
  · rintro ⟨entry, hmem, hshown⟩
    -- Of what is logged only the warnings of the inventory are not for debugging.
    have hlevel : entry.level ≠ .debug := by
      intro hlevel
      rw [hlevel, hdebug] at hshown
      cases hshown
    cases hdirectory : s.sourceIsDirectory with
    | false =>
      rw [ofSettings, hdirectory] at hmem
      cases hmem
    | true =>
      cases hlisting : s.listing with
      | error cause =>
        rw [ofSettings, hdirectory, hlisting] at hmem
        cases hmem
      | ok listing =>
        obtain ⟨planned, hsteps, hplanned⟩ :=
          exists_steps_ofSettings settings hdirectory hlisting
        obtain ⟨warnings, count, hjournal, hcount, hwarnings⟩ := Inventory.exists_journal listing
        rw [hsteps, deliver_log_append, hjournal] at hmem
        rcases List.mem_append.1 hmem with hjournaled | hlater
        · rcases List.mem_append.1 hjournaled with hwarning | hlast
          · obtain ⟨left, hleft, hinspected⟩ := (hwarnings entry).1 hwarning
            rw [Inventory.level_of_inspect hinspected] at hshown
            exact ⟨hshown, hdirectory, listing, hlisting, left, hleft, entry, hinspected⟩
          · rw [List.mem_singleton.1 hlast] at hlevel
            exact absurd hcount hlevel
        · exact absurd (hplanned entry (mem_of_mem_deliver hlater)) hlevel
  · rintro ⟨hwarn, hdirectory, listing, hlisting, left, hleft, warning, hinspected⟩
    obtain ⟨planned, hsteps, -⟩ := exists_steps_ofSettings settings hdirectory hlisting
    obtain ⟨warnings, count, hjournal, -, hwarnings⟩ := Inventory.exists_journal listing
    refine ⟨warning, ?_, ?_⟩
    · rw [hsteps, deliver_log_append, hjournal]
      exact List.mem_append_left _ (List.mem_append_left _ ((hwarnings warning).2
        ⟨left, hleft, hinspected⟩))
    · rw [Inventory.level_of_inspect hinspected]
      exact hwarn

end Plan

/-! ### The run -/

/-- What logging decides of a run. With an error stream that takes every byte, neither the level nor
what is logged has any influence on the status, which is 0, 1 or 2, or on the output: both are those
of what the run finds. With an error stream that refuses every byte the process either ends in the
same way or crashes, and it crashes exactly where an entry is shown: always at a level for
debugging, after a success at the level for information, and where an entry of the directory is left
out at the level of warnings. -/
theorem logging_decides_crash (settings : Settings) (s : Surroundings) (out : σ) :
    ∃ (events : List Event) (ending : Except String Outcome) (status : ExitStatus) (out' : σ),
      Findings settings s events ending ∧
      status = .ofEnding (endingOnOutput ending (Event.writeAll settings.format events out).1) ∧
      out' = (Destination.flush (Event.writeAll settings.format events out).2).2 ∧
      status.code ≤ 2 ∧
      ∀ (logger : Log.Logger) (time : String) (err : Sink),
        let ended := (Plan.ofSettings settings s).run settings.format { out, err, logger, time }
        (err.room = none → ended.1 = status ∧ ended.2.out = out') ∧
        (err.room = some 0 →
          (ended.1 = .crash ↔ logger.shows .debug ∨
            (logger.shows .info ∧ status = .success) ∨
            (logger.shows .warn ∧ s.LeavesOut)) ∧
          (ended.1 ≠ .crash → ended.1 = status ∧ ended.2.out = out')) := by
  obtain ⟨events, ending, hfound⟩ := exists_findings settings s
  obtain ⟨hevents, hending⟩ := hfound.plan
  have hdelivered := Plan.deliver_snd settings.format (Plan.ofSettings settings s).steps out
  rw [hevents] at hdelivered
  have houtput : ∀ event ∈ (Plan.ofSettings settings s).steps.filterMap Step.event?,
      event.isOutput := fun _ => Plan.isOutput_of_mem_ofSettings
  refine ⟨events, ending, _, _, hfound, rfl, rfl, ExitStatus.code_ofEnding_le _,
    fun logger time err => ?_⟩
  rw [← hdelivered, ← hending]
  refine ⟨fun hroom => ?_, fun hroom => ?_⟩
  · obtain ⟨hstatus, hout, -⟩ := Plan.run_of_admits (c := { out, err, logger, time })
      settings.format houtput (fun _ _ => .inl hroom) (.inl hroom) fun _ => .inl hroom
    exact ⟨hstatus, hout⟩
  · obtain ⟨hcrash, hended⟩ := Plan.run_of_refusing (c := { out, err, logger, time }) hroom
      settings.format houtput
    refine ⟨hcrash.trans ?_, hended⟩
    cases hdebug : logger.shows .debug with
    | true => exact iff_of_true (.inr (.inl rfl)) (.inl rfl)
    | false =>
      rw [Plan.exists_shown_iff settings s settings.format out hdebug]
      tauto

/-- A link that leads nowhere is left out with a warning. Where the error stream takes the warning
the run succeeds and writes the name of the other file. Where it refuses the warning the run crashes
and writes nothing. -/
theorem crash_of_refused_warning :
    let settings : Settings :=
      { sourceDirectory := "src", commandFile := "cmds", format := .human, rule := .strict }
    let s : Surroundings :=
      { sourceIsDirectory := true
        listing := .ok {
          directory := encode "/src"
          entries := [
            { name := encode "gone", status := .error .notFound },
            { name := encode "f", status := .ok { isRegular := true, size := 1 } }] }
        commands := .ok { bytes := encode "FILTER\nall\nORDER\nabs\n" } }
    let run (err : Sink) : ExitStatus × Console LineBuffer :=
      (Plan.ofSettings settings s).run settings.format
        { out := { sink := {} }, err, logger := .init {} none }
    ((run {}).1 = .success ∧ (run {}).2.out.sink.accepted.toList = encode "f\n") ∧
      ((run { room := some 0 }).1 = .crash ∧ (run { room := some 0 }).2.out = { sink := {} } ∧
        ExitStatus.crash.code = 101) := by
  intro settings s run
  have hfiles : (Inventory.ofListing {
      directory := encode "/src"
      entries := [
        { name := encode "gone", status := .error .notFound },
        { name := encode "f", status := .ok { isRegular := true, size := 1 } }] }).files =
      [⟨"f", "/src/f", 1, {}⟩] := by decide +kernel
  have hfound : Findings settings s [.row 1 ⟨"f", "/src/f", 1, {}⟩] (.ok (.finished 1)) := by
    have hread := @Findings.read settings s _ _ _ none rfl rfl rfl (.all .strict)
    rw [hfiles, Event.ofSections_all (List.pairwise_singleton _ _)] at hread
    exact hread
  obtain ⟨hevents, hending⟩ := hfound.plan
  have hwritten : Event.writeAll settings.format [.row 1 ⟨"f", "/src/f", 1, {}⟩]
      ({ sink := {} } : LineBuffer) = (.ok (), { sink := { accepted := #[0x66, 0x0A] } }) := by
    decide +kernel
  refine ⟨?_, ?_⟩
  · obtain ⟨hstatus, hout, -⟩ := Plan.run_of_admits
      (c := { out := ({ sink := {} } : LineBuffer), err := {}, logger := .init {} none })
      settings.format (fun _ => Plan.isOutput_of_mem_ofSettings)
      (fun _ _ => .inl rfl) (.inl rfl) fun _ => .inl rfl
    rw [Plan.deliver_snd, hevents] at hstatus hout
    dsimp only at hstatus hout
    rw [hending, hwritten] at hstatus
    rw [hwritten] at hout
    exact ⟨hstatus, by dsimp only [run]; rw [hout]; decide +kernel⟩
  · have hcrash : run { room := some 0 } =
        (.crash, { out := { sink := {} }, err := { room := some 0 }, logger := .init {} none }) :=
      Plan.run_of_refused_first rfl settings.format
        (by rw [Plan.ofSettings_of_ok rfl rfl rfl]; rfl) rfl
    exact ⟨congrArg Prod.fst hcrash, congrArg (·.2.out) hcrash, rfl⟩

end FileSelection
