import FileSelection.Proofs.Output.Buffering

/-! What the status of a success says about the output. It is settled when the last event is
written, and the streams are flushed after that, so it means that every write succeeded and says
nothing about the flush. The lines of the output are not in danger: a sink has accepted all of them
by then, directly or behind a line buffer. But a refusal that a destination keeps for the flush does
not keep the run from ending as a success. -/

namespace FileSelection

open Text.Utf8

variable {σ : Type}

/-! ### Actions that end as they should -/

namespace Action

variable {c c' : Console σ}

theorem bind_eq_ok_iff {α β : Type} {action : Action σ α} {next : α → Action σ β} {b : β} :
    (action >>= next) c = .ok b c' ↔ ∃ a c₁, action c = .ok a c₁ ∧ next a c₁ = .ok b c' := by
  constructor
  · intro h
    cases haction : action c with
    | ok a c₁ => exact ⟨a, c₁, rfl, (bind_of_ok haction).symm.trans h⟩
    | error stop c₁ =>
      rw [bind_of_error haction] at h
      cases h
  · rintro ⟨a, c₁, haction, hnext⟩
    exact (bind_of_ok haction).trans hnext

/-- An entry is logged on the error stream, which leaves the output alone. -/
theorem out_of_submit {entry : Log.Entry} (h : submit entry c = .ok () c') : c'.out = c.out := by
  cases hshown : c.logger.shows entry.level with
  | true =>
    rw [submit_of_shown hshown, writeEntry, writeErr] at h
    generalize c.err.write (encode (entry.line c.time)) = written at h
    obtain ⟨_ | _, err⟩ := written
    · cases h
    · cases h
      rfl
  | false =>
    rw [submit_of_hidden hshown] at h
    cases h
    rfl

variable [Destination σ]

/-- Whatever its flush answers, an output is left flushed. -/
theorem out_of_finish {complaint : String} (h : orLog finish complaint c = .ok () c') :
    c'.out = (Destination.flush c.out).2 := by
  rw [orLog, finish] at h
  generalize Destination.flush c.out = flushed at h ⊢
  obtain ⟨_ | _, out⟩ := flushed
  · exact out_of_submit h
  · generalize c.err.flush = flushedErr at h
    obtain ⟨_ | _, err⟩ := flushedErr
    · exact out_of_submit h
    · cases h
      rfl

theorem finished_of_conclude {format : Format} {ending : Except String Outcome}
    (h : conclude format ending c = .ok .success c') :
    (∃ sections, ending = .ok (.finished sections)) ∧ c'.out = c.out := by
  match ending with
  | .ok (.finished sections) =>
    obtain ⟨_, c₁, hlog, hreturn⟩ := bind_eq_ok_iff.1 h
    cases hreturn
    exact ⟨⟨sections, rfl⟩, out_of_submit hlog⟩
  | .ok (.stopped error) =>
    obtain ⟨_, c₁, -, hreturn⟩ := bind_eq_ok_iff.1 h
    cases hreturn
  | .error message =>
    obtain ⟨_, c₁, -, hreturn⟩ := bind_eq_ok_iff.1 h
    cases hreturn

/-- Steps that all succeed have written all their events. -/
theorem writeAll_of_steps {format : Format} {planned : List Step}
    (houtput : ∀ event ∈ planned.filterMap Step.event?, event.isOutput)
    (h : steps format planned c = .ok () c') :
    Event.writeAll format (planned.filterMap Step.event?) c.out = (.ok (), c'.out) := by
  induction planned generalizing c with
  | nil =>
    cases h
    rfl
  | cons s planned ih =>
    obtain ⟨_, c₁, hstep, hrest⟩ := bind_eq_ok_iff.1 h
    cases s with
    | log entry =>
      rw [← out_of_submit hstep]
      exact ih houtput hrest
    | print event =>
      have hevents : (Step.print event :: planned).filterMap Step.event? =
          event :: planned.filterMap Step.event? := rfl
      rw [hevents] at houtput ⊢
      obtain ⟨hevent, houtput⟩ := List.forall_mem_cons.1 houtput
      have hprint := (print_of_isOutput format hevent c).symm.trans hstep
      rw [Event.writeAll, List.flatMap_cons, Destination.writeAll_append]
      generalize Destination.writeAll (event.chunks format) c.out = written at hprint ⊢
      obtain ⟨_ | _, out⟩ := written
      · cases hprint
      · cases hprint
        exact ih houtput hrest

theorem steps_of_carryOut {format : Format} {plan : Plan} {outcome : Outcome}
    (h : carryOut format plan c = .ok (.ok outcome) c') :
    plan.ending = .ok outcome ∧ steps format plan.steps c = .ok () c' := by
  rw [carryOut] at h
  generalize steps format plan.steps c = result at h ⊢
  cases result with
  | ok _ c₁ =>
    obtain ⟨hending, rfl⟩ := EStateM.Result.ok.inj h
    exact ⟨hending, rfl⟩
  | error stop c₁ => cases stop <;> cases h

end Action

/-- A plan that ends as a success has written all its events, and then flushed the output. -/
theorem Plan.writeAll_of_run [Destination σ] {format : Format} {plan : Plan} {c : Console σ}
    (houtput : ∀ event ∈ plan.steps.filterMap Step.event?, event.isOutput)
    (h : (plan.run format c).1 = .success) :
    ∃ sections out, plan.ending = .ok (.finished sections) ∧
      Event.writeAll format (plan.steps.filterMap Step.event?) c.out = (.ok (), out) ∧
      (plan.run format c).2.out = (Destination.flush out).2 := by
  rw [run] at h ⊢
  cases hreport : Action.report format plan c with
  | error stop c' =>
    rw [hreport] at h
    cases h
  | ok status c' =>
    rw [hreport] at h
    obtain rfl : status = .success := h
    obtain ⟨ending, c₁, hcarried, hreport⟩ := Action.bind_eq_ok_iff.1 hreport
    obtain ⟨status, c₂, hconcluded, hreport⟩ := Action.bind_eq_ok_iff.1 hreport
    obtain ⟨_, c₃, hfinished, hreturn⟩ := Action.bind_eq_ok_iff.1 hreport
    cases hreturn
    obtain ⟨⟨sections, rfl⟩, hout⟩ := Action.finished_of_conclude hconcluded
    obtain ⟨hending, hsteps⟩ := Action.steps_of_carryOut hcarried
    refine ⟨sections, c₁.out, hending, Action.writeAll_of_steps houtput hsteps, ?_⟩
    rw [← hout]
    exact Action.out_of_finish hfinished

/-! ### The run -/

/-- There is a success to tell of with this output: the command file ends without an error, and the
output takes all events of its sections. -/
def Delivers [Destination σ] (settings : Settings) (s : Surroundings) (out out' : σ) : Prop :=
  ∃ events sections, Findings settings s events (.ok (.finished sections)) ∧
    Event.writeAll settings.format events out = (.ok (), out')

theorem delivers_of_run [Destination σ] {settings : Settings} {s : Surroundings} {c : Console σ}
    (h : ((Plan.ofSettings settings s).run settings.format c).1 = .success) :
    ∃ out, Delivers settings s c.out out ∧
      ((Plan.ofSettings settings s).run settings.format c).2.out = (Destination.flush out).2 := by
  obtain ⟨events, ending, hfound⟩ := exists_findings settings s
  obtain ⟨hevents, hending⟩ := hfound.plan
  obtain ⟨sections, out, hfinished, hwrite, hflushed⟩ :=
    Plan.writeAll_of_run (fun _ => Plan.isOutput_of_mem_ofSettings) h
  rw [hevents] at hwrite
  rw [hending] at hfinished
  exact ⟨out, ⟨events, sections, hfinished ▸ hfound, hwrite⟩, hflushed⟩

/-- Where entries meet no refusal, a run that delivers is a success. -/
theorem run_of_delivers [Destination σ] {settings : Settings} {s : Surroundings} {c : Console σ}
    {out : σ} (hadmits : ∀ level, c.Admits level) (h : Delivers settings s c.out out) :
    ((Plan.ofSettings settings s).run settings.format c).1 = .success := by
  obtain ⟨events, sections, hfound, hwrite⟩ := h
  obtain ⟨hevents, hending⟩ := hfound.plan
  obtain ⟨hstatus, -, -⟩ := Plan.run_of_admits (c := c) settings.format
    (fun _ => Plan.isOutput_of_mem_ofSettings) (fun _ _ => hadmits _) (hadmits _)
    fun _ => hadmits _
  rw [Plan.deliver_snd, hevents, hwrite, hending] at hstatus
  exact hstatus

/-- What the status of a success says, for destinations of any kind. The command file was read to
its end, every write of every warning and row succeeded, and the output was left as its flush leaves
it. Where no log entry that is shown is refused, the status says exactly this, so what the flushes
answer has no part in it. The output of a success is complete all the same: a sink has accepted the
rendering of all events, and so has the sink behind a line buffer, which holds nothing any more. -/
theorem success_means_written (settings : Settings) (s : Surroundings) :
    (∀ {σ : Type} [Destination σ] (c : Console σ),
      let ended := (Plan.ofSettings settings s).run settings.format c
      (ended.1 = .success → ∃ out, Delivers settings s c.out out ∧
        ended.2.out = (Destination.flush out).2) ∧
      ((∀ level, c.Admits level) →
        (ended.1 = .success ↔ ∃ out, Delivers settings s c.out out))) ∧
    (∀ c : Console Sink,
      let ended := (Plan.ofSettings settings s).run settings.format c
      ended.1 = .success → ∃ events sections,
        Findings settings s events (.ok (.finished sections)) ∧
        ended.2.out.accepted = c.out.accepted ++ Event.rendering settings.format events) ∧
    ∀ c : Console LineBuffer, c.out.held = [] →
      let ended := (Plan.ofSettings settings s).run settings.format c
      ended.1 = .success → ∃ events sections,
        Findings settings s events (.ok (.finished sections)) ∧ ended.2.out.held = [] ∧
        ended.2.out.sink.accepted =
          c.out.sink.accepted ++ Event.rendering settings.format events := by
  refine ⟨fun c => ⟨delivers_of_run, fun hadmits => ⟨fun h => ?_, ?_⟩⟩, fun c h => ?_,
    fun c hheld h => ?_⟩
  · obtain ⟨out, hdelivers, -⟩ := delivers_of_run h
    exact ⟨out, hdelivers⟩
  · rintro ⟨out, hdelivers⟩
    exact run_of_delivers hadmits hdelivers
  · obtain ⟨out, ⟨events, sections, hfound, hwrite⟩, hflushed⟩ := delivers_of_run h
    refine ⟨events, sections, hfound, Array.toList_inj.1 ?_⟩
    rw [hflushed.trans out.flush_snd, Array.toList_appendList]
    exact Sink.keeps_accepted.writeAll_events hwrite
  · obtain ⟨out, ⟨events, sections, hfound, hwrite⟩, hflushed⟩ := delivers_of_run h
    obtain ⟨hheld', haccepted⟩ := LineBuffer.accepted_of_writeAll hheld hwrite
    refine ⟨events, sections, hfound, ?_⟩
    rw [hflushed.trans (LineBuffer.flush_of_held_eq_nil hheld')]
    exact ⟨hheld', haccepted⟩

/-- An output takes the name of the one file and then refuses to be flushed. The run ends with the
status of a success, and the refusal is not told. -/
theorem success_despite_refused_flush :
    let settings : Settings :=
      { sourceDirectory := "src", commandFile := "cmds", format := .human, rule := .strict }
    let s : Surroundings :=
      { sourceIsDirectory := true
        listing := .ok {
          directory := encode "/src"
          entries := [{ name := encode "a", status := .ok { isRegular := true, size := 1 } }] }
        commands := .ok { bytes := encode "FILTER\nall\nORDER\nabs\n" } }
    let start : Console Sink :=
      { out := { flushRefusal := some (.other "flush refused") }, err := {} }
    ∃ c : Console Sink,
      Action.carryOut .human (Plan.ofSettings settings s) start = .ok (.ok (.finished 1)) c ∧
      Action.conclude .human (.ok (.finished 1)) c = .ok .success c ∧
      Action.finish c = .error (.refused (.other "flush refused")) c ∧
      (Plan.ofSettings settings s).run .human start = (.success, c) ∧
      ExitStatus.success.code = 0 ∧ c.out.accepted.toList = encode "a\n" ∧ c.err = {} := by
  intro settings s start
  have hfound : Findings settings s [.row 1 ⟨"a", "/src/a", 1, {}⟩] (.ok (.finished 1)) := by
    have hread := @Findings.read settings s _ _ _ none rfl rfl rfl (.all .strict)
    rw [Inventory.files_of_one, Event.ofSections_all (List.pairwise_singleton _ _)] at hread
    exact hread
  obtain ⟨hevents, hending⟩ := hfound.plan
  have hquiet (level : Log.Level) : start.logger.shows level = false := rfl
  have hheard (out : Sink) (entries : List Log.Entry) :
      Console.heard { start with out } entries = { start with out } :=
    Console.heard_of_hidden fun _ _ => hquiet _
  set bytes := Event.rendering .human [.row 1 ⟨"a", "/src/a", 1, {}⟩]
  have hcarried : Action.carryOut .human (Plan.ofSettings settings s) start =
      .ok (.ok (.finished 1)) { start with out := start.out.took bytes } := by
    rw [Action.carryOut_of_admits .human (fun _ => Plan.isOutput_of_mem_ofSettings)
      fun _ _ => .inr (hquiet _), Plan.deliver_snd, hevents, hending, hheard,
      Event.writeAll_sink, Sink.write_of_room_eq_none rfl]
    rfl
  refine ⟨_, hcarried, rfl, rfl, ?_, rfl, by decide +kernel, rfl⟩
  exact hfound.run_eq start.out start.err

end FileSelection
