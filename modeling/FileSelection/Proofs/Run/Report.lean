import FileSelection.Proofs.Run.Limited

/-! How a run ends on any output. What becomes of the events of a plan is worked out on the output
alone, up to where it refuses one of them. As long as no log entry that is shown meets a refusal, a
run does exactly that, tells the rest in one message on the error stream, and ends with the status
that goes with it. -/

namespace FileSelection

open Text.Utf8

variable {σ : Type}

/-! ### Log entries -/

namespace Console

/-- Entries of this level meet no refusal: the error stream takes every byte, or they are not
shown. -/
def Admits (c : Console σ) (level : Log.Level) : Prop :=
  c.err.room = none ∨ c.logger.shows level = false

/-- A console after log entries. -/
def heard (c : Console σ) (entries : List Log.Entry) : Console σ :=
  { c with err := c.err.took (encode (c.logger.shown c.time entries)) }

variable {c : Console σ}

theorem heard_nil (c : Console σ) : c.heard [] = c := by
  have hshown : encode (c.logger.shown c.time []) = [] := rfl
  rw [heard, hshown, Sink.took_nil]

theorem heard_heard (c : Console σ) (entries later : List Log.Entry) :
    (c.heard entries).heard later = c.heard (entries ++ later) := by
  simp only [heard, Sink.took_took, ← encode_append, Log.Logger.shown, List.filter_append,
    List.map_append, String.join_append]

theorem Admits.heard {level : Log.Level} (h : c.Admits level) (entries : List Log.Entry) :
    (c.heard entries).Admits level :=
  h.imp (fun hroom => Sink.room_took_eq_none hroom _) id

/-- Entries that are not shown leave no trace. -/
theorem heard_of_hidden {entries : List Log.Entry}
    (h : ∀ entry ∈ entries, c.logger.shows entry.level = false) : c.heard entries = c := by
  rw [heard, Log.Logger.shown_eq_empty h, encode_empty, Sink.took_nil]

end Console

/-- An entry that meets no refusal is heard. -/
theorem Action.submit_of_admits {c : Console σ} {entry : Log.Entry} (h : c.Admits entry.level) :
    Action.submit entry c = .ok () (c.heard [entry]) := by
  cases hshown : c.logger.shows entry.level with
  | true =>
    have hroom : c.err.room = none := by
      rcases h with hroom | hhidden
      · exact hroom
      · rw [hhidden] at hshown
        cases hshown
    have hline : c.logger.shown c.time [entry] = entry.line c.time := by
      simp only [Log.Logger.shown, List.filter_cons, hshown, if_true, List.filter_nil,
        List.map_cons, List.map_nil, String.join_cons, String.join_nil, String.append_empty]
    rw [submit_of_shown hshown, writeEntry, writeErr, Sink.write_of_room_eq_none hroom,
      Console.heard, hline]
  | false =>
    have hhidden : ∀ e ∈ [entry], c.logger.shows e.level = false := by
      simpa using hshown
    rw [submit_of_hidden hshown, Console.heard_of_hidden hhidden]

/-- Flushing a sink leaves it as it is, even if it fails. -/
theorem Sink.flush_snd (sink : Sink) : sink.flush.2 = sink := by
  rw [flush]
  split <;> rfl

/-- How a write to the error stream ends on a console. -/
def Action.ofErrWrite (c : Console σ) :
    Except IoError Unit × Sink → EStateM.Result Stop (Console σ) Unit
  | (.ok (), err) => .ok () { c with err }
  | (.error cause, err) => .error (.refused cause) { c with err }

/-- Texts on the error stream are written like their join. -/
theorem Action.writeChunks_err_eq (chunks : List String) (c : Console σ) :
    writeChunks writeErr chunks c = ofErrWrite c (c.err.write (encode (String.join chunks))) := by
  induction chunks generalizing c with
  | nil =>
    rw [String.join_nil, encode_empty, Sink.write_nil]
    rfl
  | cons chunk chunks ih =>
    have hfirst : writeErr chunk c = ofErrWrite c (c.err.write (encode chunk)) := rfl
    rw [writeChunks, String.join_cons, encode_append, Sink.write_append]
    generalize c.err.write (encode chunk) = written at hfirst ⊢
    obtain ⟨result, err⟩ := written
    cases result with
    | ok _ => exact (bind_of_ok hfirst).trans (ih { c with err })
    | error cause => exact bind_of_error hfirst

/-! ### Endings -/

/-- How a run ends that should have had this ending, where its output has taken everything or has
refused something. -/
def endingOnOutput (ending : Except String Outcome) : Except IoError Unit → Except String Outcome
  | .ok () => ending
  | .error cause => .error ("failed to write output: " ++ cause.message)

/-- The status that tells of an ending. -/
def ExitStatus.ofEnding : Except String Outcome → ExitStatus
  | .ok (.finished _) => .success
  | .ok (.stopped _) => .fatal
  | .error _ => .failure

/-- The message that tells of an ending, if it is to be told. -/
def Event.ofEnding? : Except String Outcome → Option Event
  | .ok (.finished _) => none
  | .ok (.stopped e) => some (.error e)
  | .error message => some (.failure message)

theorem endingOnOutput_eq_ok_iff {ending : Except String Outcome} {result : Except IoError Unit}
    {outcome : Outcome} :
    endingOnOutput ending result = .ok outcome ↔ result = .ok () ∧ ending = .ok outcome := by
  cases result <;> simp [endingOnOutput]

theorem endingOnOutput_eq_error_iff {ending : Except String Outcome}
    {result : Except IoError Unit} {message : String} :
    endingOnOutput ending result = .error message ↔
      (result = .ok () ∧ ending = .error message) ∨
        ∃ cause, result = .error cause ∧ message = "failed to write output: " ++ cause.message := by
  cases result <;> simp [endingOnOutput, eq_comm]

namespace ExitStatus

variable {ending : Except String Outcome}

theorem ofEnding_eq_success_iff :
    ofEnding ending = .success ↔ ∃ sections, ending = .ok (.finished sections) := by
  rcases ending with message | (sections | error) <;> simp [ofEnding]

theorem ofEnding_eq_fatal_iff :
    ofEnding ending = .fatal ↔ ∃ error, ending = .ok (.stopped error) := by
  rcases ending with message | (sections | error) <;> simp [ofEnding]

theorem ofEnding_eq_failure_iff :
    ofEnding ending = .failure ↔ ∃ message, ending = .error message := by
  rcases ending with message | (sections | error) <;> simp [ofEnding]

theorem ofEnding_ne_crash (ending : Except String Outcome) : ofEnding ending ≠ .crash := by
  rcases ending with message | (sections | error) <;> simp [ofEnding]

theorem code_injective : Function.Injective code := by
  intro status status' h
  cases status <;> cases status' <;> first | rfl | cases h

theorem code_ofEnding_le (ending : Except String Outcome) : (ofEnding ending).code ≤ 2 := by
  rcases ending with message | (sections | error) <;> simp [ofEnding, code]

end ExitStatus

/-- The bytes of events in turn. -/
def Event.rendering (format : Format) (events : List Event) : Bytes :=
  encode (String.join (events.map (Event.line format)))

@[simp] theorem Event.rendering_nil (format : Format) : rendering format [] = [] := rfl

theorem Event.rendering_cons (format : Format) (event : Event) (events : List Event) :
    rendering format (event :: events) = encode (event.line format) ++ rendering format events := by
  rw [rendering, List.map_cons, String.join_cons, encode_append]
  rfl

theorem Event.rendering_eq_join_chunks (format : Format) (events : List Event) :
    rendering format events = encode (String.join (events.flatMap (Event.chunks format))) := by
  induction events with
  | nil => rfl
  | cons event events ih =>
    rw [rendering_cons, ih, List.flatMap_cons, String.join_append, encode_append, Event.line]

/-- A console after an ending has been told on its error stream. -/
def Console.concluded (c : Console σ) (format : Format) : Except String Outcome → Console σ
  | .ok (.finished sections) => c.heard [Plan.logEntry .info s!"processed {sections} sections"]
  | .ok (.stopped e) => { c with err := c.err.took (encode (Event.line format (.error e))) }
  | .error message => { c with err := c.err.took (encode (Event.line format (.failure message))) }

namespace Console

variable {c : Console σ}

theorem concluded_out (c : Console σ) (format : Format) (ending : Except String Outcome) :
    (c.concluded format ending).out = c.out := by
  rcases ending with message | (sections | error) <;> rfl

theorem Admits.concluded {level : Log.Level} (h : c.Admits level) (format : Format)
    (ending : Except String Outcome) : (c.concluded format ending).Admits level := by
  rcases ending with message | (sections | error)
  · exact h.imp (fun hroom => Sink.room_took_eq_none hroom _) id
  · exact h.heard _
  · exact h.imp (fun hroom => Sink.room_took_eq_none hroom _) id

/-- Where no entry is shown, an ending is told by its message alone. -/
theorem concluded_of_quiet (h : ∀ level, c.logger.shows level = false) (format : Format)
    (ending : Except String Outcome) :
    c.concluded format ending =
      { c with err := c.err.took (Event.rendering format (Event.ofEnding? ending).toList) } := by
  have hone (event : Event) : Event.rendering format [event] = encode (event.line format) := by
    rw [Event.rendering_cons, Event.rendering_nil, List.append_nil]
  rcases ending with message | (sections | error)
  · exact congrArg (fun bytes => { c with err := c.err.took bytes }) (hone _).symm
  · rw [concluded, heard_of_hidden fun _ _ => h _, Event.ofEnding?, Option.toList_none,
      Event.rendering_nil, Sink.took_nil]
  · exact congrArg (fun bytes => { c with err := c.err.took bytes }) (hone _).symm

end Console

/-! ### Outputs without a console -/

variable [Destination σ]

/-- Writes texts in turn, up to the first refusal. -/
def Destination.writeAll : List String → σ → Except IoError Unit × σ
  | [], out => (.ok (), out)
  | text :: rest, out =>
    match Destination.write (encode text) out with
    | (.ok (), out) => writeAll rest out
    | (.error cause, out) => (.error cause, out)

/-- Writes events in turn, up to the first refusal. -/
def Event.writeAll (format : Format) (events : List Event) (out : σ) : Except IoError Unit × σ :=
  Destination.writeAll (events.flatMap (Event.chunks format)) out

/-- The entries that steps log before an output refuses an event, and what has become of the output
there. -/
def Plan.deliver (format : Format) : List Step → σ → List Log.Entry × Except IoError Unit × σ
  | [], out => ([], .ok (), out)
  | .log entry :: rest, out =>
    let (entries, ended) := deliver format rest out
    (entry :: entries, ended)
  | .print event :: rest, out =>
    match Destination.writeAll (event.chunks format) out with
    | (.ok (), out) => deliver format rest out
    | (.error cause, out) => ([], .error cause, out)

theorem Destination.writeAll_append (texts more : List String) (out : σ) :
    writeAll (texts ++ more) out =
      match writeAll texts out with
      | (.ok (), out) => writeAll more out
      | (.error cause, out) => (.error cause, out) := by
  induction texts generalizing out with
  | nil => rfl
  | cons text texts ih =>
    rw [List.cons_append, writeAll, writeAll]
    obtain ⟨_ | _, out'⟩ := Destination.write (encode text) out
    · rfl
    · exact ih out'

/-- What becomes of an output depends on the events alone. -/
theorem Plan.deliver_snd (format : Format) (planned : List Step) (out : σ) :
    (deliver format planned out).2 =
      Event.writeAll format (planned.filterMap Step.event?) out := by
  induction planned generalizing out with
  | nil => rfl
  | cons s planned ih =>
    cases s with
    | log entry => exact ih out
    | print event =>
      have hevents : (Step.print event :: planned).filterMap Step.event? =
          event :: planned.filterMap Step.event? := rfl
      rw [hevents, Event.writeAll, List.flatMap_cons, Destination.writeAll_append, deliver]
      obtain ⟨_ | _, out'⟩ := Destination.writeAll (event.chunks format) out
      · rfl
      · exact ih out'

/-! ### Carrying out a plan -/

namespace Action

/-- How a write to the output ends on a console. -/
def ofWrite (c : Console σ) : Except IoError Unit × σ → EStateM.Result Stop (Console σ) Unit
  | (.ok (), out) => .ok () { c with out }
  | (.error cause, out) => .error (.refused cause) { c with out }

theorem writeOut_eq (text : String) (c : Console σ) :
    writeOut text c = ofWrite c (Destination.write (encode text) c.out) := rfl

theorem writeChunks_eq (chunks : List String) (c : Console σ) :
    writeChunks writeOut chunks c = ofWrite c (Destination.writeAll chunks c.out) := by
  induction chunks generalizing c with
  | nil => rfl
  | cons chunk chunks ih =>
    rw [writeChunks, Destination.writeAll]
    have hfirst := writeOut_eq chunk c
    generalize Destination.write (encode chunk) c.out = written at hfirst ⊢
    obtain ⟨result, out⟩ := written
    cases result with
    | ok _ => exact (bind_of_ok hfirst).trans (ih { c with out })
    | error cause => exact bind_of_error hfirst

theorem print_of_isOutput (format : Format) {event : Event} (h : event.isOutput)
    (c : Console σ) :
    print format event c = ofWrite c (Destination.writeAll (event.chunks format) c.out) := by
  rw [print, if_pos h, writeChunks_eq]

theorem print_of_not_isOutput (format : Format) {event : Event} (h : event.isOutput = false)
    (c : Console σ) :
    print format event c = ofErrWrite c (c.err.write (encode (event.line format))) := by
  rw [print, h, Event.line]
  exact writeChunks_err_eq (event.chunks format) c

/-- Steps do to a console what they do to its output, and are heard up to there. -/
theorem steps_of_admits {c : Console σ} (format : Format) {planned : List Step}
    (houtput : ∀ event ∈ planned.filterMap Step.event?, event.isOutput)
    (h : ∀ entry ∈ (Plan.deliver format planned c.out).1, c.Admits entry.level) :
    steps format planned c =
      ofWrite (c.heard (Plan.deliver format planned c.out).1)
        (Plan.deliver format planned c.out).2 := by
  -- `h` speaks only of entries before a refusal, and so says nothing of the steps after it.
  induction planned generalizing c with
  | nil =>
    rw [Plan.deliver, Console.heard_nil]
    rfl
  | cons s planned ih =>
    rw [List.filterMap_cons] at houtput
    cases s with
    | log entry =>
      obtain ⟨hentry, hrest⟩ := List.forall_mem_cons.1 h
      refine (bind_of_ok (submit_of_admits hentry)).trans ?_
      rw [ih (c := c.heard [entry]) houtput fun later hmem => (hrest later hmem).heard [entry],
        Console.heard_heard]
      rfl
    | print event =>
      obtain ⟨hevent, hrest⟩ := List.forall_mem_cons.1 houtput
      have hprint := print_of_isOutput format hevent c
      rw [Plan.deliver] at h ⊢
      generalize Destination.writeAll (event.chunks format) c.out = written at h hprint ⊢
      obtain ⟨result, out⟩ := written
      cases result with
      | ok _ => exact (bind_of_ok hprint).trans (ih (c := { c with out }) hrest h)
      | error cause =>
        rw [Console.heard_nil]
        exact bind_of_error hprint

/-- A message is offered to the error stream once, and nobody hears of it if it is refused. -/
theorem orLog_print_of_admits {c : Console σ} (h : c.Admits .debug) (format : Format)
    {event : Event} (hevent : event.isOutput = false) (complaint : String) :
    orLog (print format event) complaint c =
      .ok () { c with err := c.err.took (encode (event.line format)) } := by
  have hprint := print_of_not_isOutput format hevent c
  cases hwrite : c.err.write (encode (event.line format)) with
  | mk result err =>
    have herr : c.err.took (encode (event.line format)) = err := by rw [Sink.took, hwrite]
    rw [hwrite] at hprint
    rw [herr, orLog, hprint]
    cases result with
    | ok _ => rfl
    | error cause =>
      have hhidden : c.logger.shows .debug = false := by
        rcases h with hroom | hhidden
        · rw [Sink.write_of_room_eq_none hroom] at hwrite
          cases hwrite
        · exact hhidden
      exact submit_of_hidden hhidden

/-- Flushing leaves a console with a flushed output, and with a complaint if it failed. -/
theorem orLog_finish_of_admits {c : Console σ} (h : c.Admits .debug) (complaint : String) :
    ∃ entries : List Log.Entry, orLog finish complaint c =
      .ok () ({ c with out := (Destination.flush c.out).2 }.heard entries) := by
  have hlogged (message : String) :
      submit (Plan.logEntry .debug message) { c with out := (Destination.flush c.out).2 } =
        .ok () ({ c with out := (Destination.flush c.out).2 }.heard
          [Plan.logEntry .debug message]) :=
    submit_of_admits (c := { c with out := (Destination.flush c.out).2 }) h
  rw [orLog, finish]
  generalize Destination.flush c.out = flushed at hlogged ⊢
  obtain ⟨result, out⟩ := flushed
  cases result with
  | error cause => exact ⟨_, hlogged _⟩
  | ok _ =>
    have herr := Sink.flush_snd c.err
    generalize c.err.flush = flushed at herr ⊢
    obtain ⟨result, err⟩ := flushed
    subst herr
    cases result with
    | error cause => exact ⟨_, hlogged _⟩
    | ok _ => exact ⟨[], by rw [Console.heard_nil]⟩

theorem conclude_of_admits {c : Console σ} (h : c.Admits .debug) (format : Format)
    {ending : Except String Outcome}
    (hinfo : ExitStatus.ofEnding ending = .success → c.Admits .info) :
    conclude format ending c = .ok (.ofEnding ending) (c.concluded format ending) := by
  match ending with
  | .ok (.finished sections) => exact bind_of_ok (submit_of_admits (hinfo rfl))
  | .ok (.stopped e) => exact bind_of_ok (orLog_print_of_admits h format rfl _)
  | .error message => exact bind_of_ok (orLog_print_of_admits h format rfl _)

theorem carryOut_of_admits {c : Console σ} (format : Format) {plan : Plan}
    (houtput : ∀ event ∈ plan.steps.filterMap Step.event?, event.isOutput)
    (h : ∀ entry ∈ (Plan.deliver format plan.steps c.out).1, c.Admits entry.level) :
    carryOut format plan c =
      .ok (endingOnOutput plan.ending (Plan.deliver format plan.steps c.out).2.1)
        ({ c with out := (Plan.deliver format plan.steps c.out).2.2 }.heard
          (Plan.deliver format plan.steps c.out).1) := by
  have hsteps := steps_of_admits format houtput h
  rw [carryOut]
  generalize Plan.deliver format plan.steps c.out = delivered at hsteps ⊢
  obtain ⟨entries, result, out⟩ := delivered
  rw [hsteps]
  cases result with
  | ok _ => rfl
  | error cause => rfl

end Action

/-- A run during which no entry that is shown meets a refusal ends as its plan does on the output,
and leaves the output as it is then, but flushed. If no entry is shown at all, the error stream is
offered one message or none. -/
theorem Plan.run_of_admits {c : Console σ} (format : Format) {plan : Plan}
    (houtput : ∀ event ∈ plan.steps.filterMap Step.event?, event.isOutput)
    (hentries : ∀ entry ∈ (deliver format plan.steps c.out).1, c.Admits entry.level)
    (hdebug : c.Admits .debug) :
    let delivered := deliver format plan.steps c.out
    let ending := endingOnOutput plan.ending delivered.2.1
    (ExitStatus.ofEnding ending = .success → c.Admits .info) →
      (plan.run format c).1 = .ofEnding ending ∧
      (plan.run format c).2.out = (Destination.flush delivered.2.2).2 ∧
      ((∀ level, c.logger.shows level = false) →
        (plan.run format c).2 = { c with
          out := (Destination.flush delivered.2.2).2
          err := c.err.took (Event.rendering format (Event.ofEnding? ending).toList) }) := by
  intro delivered ending hinfo
  have hcarried {level : Log.Level} (h : c.Admits level) :
      (Console.heard { c with out := delivered.2.2 } delivered.1).Admits level :=
    Console.Admits.heard (c := { c with out := delivered.2.2 }) h delivered.1
  obtain ⟨entries, hfinish⟩ := Action.orLog_finish_of_admits
    ((hcarried hdebug).concluded format ending) "failed to flush output"
  rw [run, Action.report, Action.bind_of_ok (Action.carryOut_of_admits format houtput hentries),
    Action.bind_of_ok (Action.conclude_of_admits (hcarried hdebug) format
      fun h => hcarried (hinfo h)),
    Action.bind_of_ok hfinish, Console.concluded_out]
  refine ⟨rfl, rfl, fun hquiet => ?_⟩
  rw [Console.heard_of_hidden (c := { c with out := delivered.2.2 }) fun _ _ => hquiet _,
    Console.concluded_of_quiet (c := { c with out := delivered.2.2 }) hquiet]
  exact Console.heard_of_hidden
    (c := { c with
      out := (Destination.flush delivered.2.2).2
      err := c.err.took (Event.rendering format (Event.ofEnding? ending).toList) })
    fun _ _ => hquiet _

end FileSelection
