import FileSelection.Proofs.Run.Completed

/-! A run whose output takes a limited number of bytes, next to the same run on an output without a
limit. As long as everything fits, the two do the same. The first write that does not fit takes what
there is room for and stops the run, so the limited output holds the first bytes of the other one,
wherever among the chunks of an event the limit lies. The property is stated for any action, holds
of each write, and goes through actions in turn. -/

namespace FileSelection

open Text.Utf8

namespace Console

/-- The console with this much room on its output. -/
def withRoom (c : Console Sink) (room : Option ℕ) : Console Sink :=
  { c with out := { c.out with room } }

end Console

namespace Action

/-! ### How an action ends -/

/-- The value of an action, or what stopped it. -/
def outcome {α : Type} : EStateM.Result Stop (Console Sink) α → Except Stop α
  | .ok a _ => .ok a
  | .error stop _ => .error stop

/-- The console after an action. -/
def console {α : Type} : EStateM.Result Stop (Console Sink) α → Console Sink
  | .ok _ c => c
  | .error _ c => c

/-- The same end on another console. -/
def onConsole {α : Type} (change : Console Sink → Console Sink) :
    EStateM.Result Stop (Console Sink) α → EStateM.Result Stop (Console Sink) α
  | .ok a c => .ok a (change c)
  | .error stop c => .error stop (change c)

@[simp] theorem outcome_onConsole {α : Type} (change : Console Sink → Console Sink)
    (result : EStateM.Result Stop (Console Sink) α) :
    outcome (onConsole change result) = outcome result := by
  cases result <;> rfl

@[simp] theorem console_onConsole {α : Type} (change : Console Sink → Console Sink)
    (result : EStateM.Result Stop (Console Sink) α) :
    console (onConsole change result) = change (console result) := by
  cases result <;> rfl

theorem ok_ne_error {α : Type} {a : α} {stop : Stop} {c c' : Console Sink} :
    (.ok a c : EStateM.Result Stop (Console Sink) α) ≠ .error stop c' := by
  intro h
  cases h

theorem eq_error_of_outcome {α : Type} {result : EStateM.Result Stop (Console Sink) α}
    {stop : Stop} (h : outcome result = .error stop) : result = .error stop (console result) := by
  cases result with
  | ok _ _ => cases h
  | error _ _ =>
    cases h
    rfl

/-- How an action from `c` ends when its output has room for `n` bytes, where without a limit it
ends with `whole` and writes these bytes. -/
inductive CutOff {α : Type} (c : Console Sink) (n : ℕ) (written : Bytes)
    (whole : EStateM.Result Stop (Console Sink) α) :
    EStateM.Result Stop (Console Sink) α → Prop
  | fits (h : written.length ≤ n) :
    CutOff c n written whole (onConsole (·.withRoom (some (n - written.length))) whole)
  | full {c' : Console Sink} (h : n < written.length)
    (out : c'.out.accepted = c.out.accepted ++ written.take n)
    (err : c'.err.accepted.toList <+: (console whole).err.accepted.toList) :
    CutOff c n written whole (.error (.refused c.out.refusal) c')

/-- A limit cuts off how an action ends from `c`, and is the only thing that makes a stream
refuse. -/
def CutShort {α : Type} (c : Console Sink) (n : ℕ)
    (whole limited : EStateM.Result Stop (Console Sink) α) : Prop :=
  ∃ written : Bytes, (console whole).out = c.out.took written ∧
    c.err.accepted.toList <+: (console whole).err.accepted.toList ∧
    (∀ cause c', whole ≠ .error (.refused cause) c') ∧ CutOff c n written whole limited

/-- A limit on the output cuts the action off, and nothing else. -/
def Truncates {α : Type} (action : Action Sink α) : Prop :=
  ∀ (c : Console Sink) (n : ℕ), c.out.room = none →
    CutShort c n (action c) (action (c.withRoom (some n)))

variable {α β : Type} {c c' : Console Sink} {n : ℕ}

/-- What would follow bytes that do not fit is not written. -/
theorem CutOff.full_append {written more : Bytes} {whole : EStateM.Result Stop (Console Sink) α}
    (h : n < written.length) (hout : c'.out.accepted = c.out.accepted ++ written.take n)
    (herr : c'.err.accepted.toList <+: (console whole).err.accepted.toList) :
    CutOff c n (written ++ more) whole (.error (.refused c.out.refusal) c') := by
  refine .full ?_ ?_ herr
  · rw [List.length_append]
    exact Nat.lt_add_right _ h
  · rw [List.take_append_of_le_length (Nat.le_of_lt h), hout]

/-- What follows bytes that fit is cut off by the room they leave. -/
theorem CutOff.append {written more : Bytes} {whole limited : EStateM.Result Stop (Console Sink) α}
    (hroom : c.out.room = none) (hout : c'.out = c.out.took written) (h : written.length ≤ n)
    (hcut : CutOff c' (n - written.length) more whole limited) :
    CutOff c n (written ++ more) whole limited := by
  rw [Sink.took_of_room_eq_none hroom] at hout
  have hlength : (written ++ more).length = written.length + more.length := List.length_append
  cases hcut with
  | fits hmore =>
    rw [Nat.sub_sub, ← hlength]
    exact .fits (by omega)
  | full hmore hcut herr =>
    rw [hout] at hcut ⊢
    refine .full (by omega) ?_ herr
    rw [hcut, List.take_append, List.take_of_length_le h]
    apply Array.toList_inj.1
    simp

/-- There is nothing to cut off where an action leaves the output alone. -/
theorem CutShort.of_out_eq {whole : EStateM.Result Stop (Console Sink) α}
    (hout : (console whole).out = c.out)
    (herr : c.err.accepted.toList <+: (console whole).err.accepted.toList)
    (hstop : ∀ cause c', whole ≠ .error (.refused cause) c') :
    CutShort c n whole (onConsole (·.withRoom (some n)) whole) :=
  ⟨[], hout.trans (Sink.took_nil c.out).symm, herr, hstop, .fits (c := c) (Nat.zero_le n)⟩

/-- A limit cuts off actions in turn. -/
theorem Truncates.bind {action : Action Sink α} {next : α → Action Sink β} (h : Truncates action)
    (hnext : ∀ a, Truncates (next a)) : Truncates (action >>= next) := by
  intro c n hroom
  obtain ⟨written, hout, herr, hstop, hcut⟩ := h c n hroom
  cases hwhole : action c with
  | error stop c₁ =>
    rw [hwhole] at hout herr hstop hcut
    refine ⟨written, ?_⟩
    rw [bind_of_error hwhole]
    refine ⟨hout, herr, fun _ _ h => ?_, ?_⟩
    · cases h
      exact hstop _ _ rfl
    generalize hlimited : action (c.withRoom (some n)) = limited at hcut
    cases hcut with
    | fits hfits =>
      rw [bind_of_error hlimited]
      exact .fits hfits
    | full hfull hcut herr =>
      rw [bind_of_error hlimited]
      exact .full hfull hcut herr
  | ok a c₁ =>
    rw [hwhole] at hout herr hcut
    have hroom₁ : c₁.out.room = none :=
      (congrArg Sink.room hout).trans (Sink.room_took_eq_none hroom written)
    obtain ⟨more, hout₁, herr₁, hstop₁, hcut₁⟩ := hnext a c₁ (n - written.length) hroom₁
    refine ⟨written ++ more, ?_⟩
    rw [bind_of_ok hwhole]
    refine ⟨?_, herr.trans herr₁, hstop₁, ?_⟩
    · rw [hout₁, show c₁.out = _ from hout, Sink.took_took]
    generalize hlimited : action (c.withRoom (some n)) = limited at hcut
    cases hcut with
    | fits hfits =>
      rw [bind_of_ok hlimited]
      exact hcut₁.append hroom hout hfits
    | full hfull hcut herr =>
      rw [bind_of_error hlimited]
      exact .full_append hfull hcut (herr.trans herr₁)

theorem Truncates.pure (a : α) : Truncates (Pure.pure a : Action Sink α) := fun _ _ _ =>
  .of_out_eq rfl List.prefix_rfl fun _ _ => ok_ne_error

/-! ### Writes, log entries and steps -/

theorem truncates_writeOut (text : String) : Truncates (writeOut text) := by
  intro c n hroom
  have hwhole : writeOut text c = .ok () { c with out := c.out.took (encode text) } := by
    have hwrite : Destination.write (encode text) c.out = c.out.write (encode text) := rfl
    rw [writeOut, hwrite, Sink.write_of_room_eq_none hroom]
  refine ⟨encode text, ?_⟩
  rw [hwhole]
  refine ⟨rfl, List.prefix_rfl, fun _ _ => ok_ne_error, ?_⟩
  by_cases hfits : (encode text).length ≤ n
  · have hlimited : writeOut text (c.withRoom (some n)) =
        onConsole (·.withRoom (some (n - (encode text).length)))
          (.ok () { c with out := c.out.took (encode text) }) := by
      simp only [writeOut, Destination.write, Sink.write, Console.withRoom, onConsole,
        Sink.took_of_room_eq_none hroom, if_pos hfits, List.take_of_length_le hfits]
    rw [hlimited]
    exact .fits hfits
  · have hlimited : writeOut text (c.withRoom (some n)) = .error (.refused c.out.refusal)
        { c with out := ((c.withRoom (some n)).out.write (encode text)).2 } := by
      simp only [writeOut, Destination.write, Sink.write, Console.withRoom, if_neg hfits]
    rw [hlimited]
    exact .full (Nat.lt_of_not_le hfits) rfl List.prefix_rfl

/-- An entry is handed in whatever room there is on the output, and leaves the output alone. -/
theorem truncates_submit (entry : Log.Entry) : Truncates (submit entry) := by
  intro c n _
  cases hshown : c.logger.shows entry.level with
  | true =>
    have hlimited : (c.withRoom (some n)).logger.shows entry.level = true := hshown
    rw [submit_of_shown hshown, submit_of_shown hlimited, writeEntry, writeEntry, writeErr,
      writeErr]
    have herr := Sink.accepted_prefix_took c.err (encode (entry.line c.time))
    rw [Sink.took] at herr
    cases hwrite : c.err.write (encode (entry.line c.time)) with
    | mk result err =>
      have hwrite' : (c.withRoom (some n)).err.write
          (encode (entry.line (c.withRoom (some n)).time)) = (result, err) := hwrite
      rw [hwrite] at herr
      rw [hwrite']
      cases result with
      | ok _ => exact .of_out_eq rfl herr fun _ _ => ok_ne_error
      | error _ =>
        refine .of_out_eq rfl herr fun _ _ h => ?_
        cases h
  | false =>
    have hlimited : (c.withRoom (some n)).logger.shows entry.level = false := hshown
    rw [submit_of_hidden hshown, submit_of_hidden hlimited]
    exact .of_out_eq rfl List.prefix_rfl fun _ _ => ok_ne_error

theorem truncates_writeChunks (chunks : List String) : Truncates (writeChunks writeOut chunks) := by
  induction chunks with
  | nil => exact .pure ()
  | cons chunk chunks ih => exact (truncates_writeOut chunk).bind fun _ => ih

theorem truncates_steps (format : Format) {planned : List Step}
    (h : ∀ event ∈ planned.filterMap Step.event?, event.isOutput) :
    Truncates (steps format planned) := by
  induction planned with
  | nil => exact .pure ()
  | cons s planned ih =>
    rw [List.filterMap_cons] at h
    cases s with
    | log entry => exact (truncates_submit entry).bind fun _ => ih h
    | print event =>
      obtain ⟨hevent, hrest⟩ := List.forall_mem_cons.1 h
      have hprint : Truncates (print format event) := by
        rw [print, if_pos hevent]
        exact truncates_writeChunks _
      exact hprint.bind fun _ => ih hrest

end Action

/-- A plan for sections tells of nothing but warnings and files. -/
theorem Plan.isOutput_of_mem_ofReadings (files : List FileInfo) (readings : List Reading)
    (index : ℕ) :
    ∀ event ∈ (ofReadings files index readings).1.filterMap Step.event?, event.isOutput := by
  induction readings generalizing index with
  | nil => exact List.forall_mem_nil _
  | cons reading readings ih =>
    rw [ofReadings]
    split
    · rw [event?_log]
      exact List.forall_mem_nil _
    · rw [event?_log]
      exact List.forall_mem_nil _
    next s _ =>
      have hsection : ∀ event ∈ Event.ofSection files (index + 1) s, event.isOutput := by
        intro event hmem
        refine @Event.isOutput_of_mem_ofSections files (index + 1) [s] event ?_
        rw [Event.ofSections_cons]
        exact List.mem_append_left _ hmem
      simp only [List.filterMap_append, event?_log, event?_sectionSteps, List.nil_append]
      exact List.forall_mem_append.2 ⟨hsection, ih _⟩

namespace Action

theorem truncates_sections (format : Format) (files : List FileInfo) (reader : CommandReader) :
    Truncates (sections format files reader) :=
  (truncates_steps format (Plan.isOutput_of_mem_ofReadings files _ _)).bind fun _ => .pure _

/-- With an unlimited console a run ends as planned. -/
theorem outcome_sections {c : Console Sink} (h : c.Unlimited) (format : Format)
    (files : List FileInfo) (reader : CommandReader) :
    outcome (sections format files reader c) = .ok (Plan.ofReader files reader).2 := by
  have hsteps := steps_of_unlimited h format (Plan.ofReader files reader).1
  exact congrArg outcome (bind_of_ok hsteps)

/-! ### The run -/

/-- A run whose output has room for `n` bytes, next to the same run on an output that takes every
byte and receives `written`. If these bytes fit, the two runs end alike and leave the same on both
streams. If not, the limited run ends with the refusal of its output, however the other one ends,
and has written exactly the first `n` bytes. -/
theorem sections_cut_at_limit (format : Format) (files : List FileInfo) (reader : CommandReader)
    (c : Console Sink) (n : ℕ) :
    let whole := sections format files reader (c.withRoom none)
    let limited := sections format files reader (c.withRoom (some n))
    ∃ written : Bytes,
      (console whole).out.accepted = c.out.accepted ++ written ∧
      (written.length ≤ n →
        outcome limited = outcome whole ∧
        (console limited).out.accepted = c.out.accepted ++ written ∧
        (console limited).err = (console whole).err) ∧
      (n < written.length →
        outcome limited = .error (.refused c.out.refusal) ∧
        (console limited).out.accepted = c.out.accepted ++ written.take n ∧
        (console limited).err.accepted.toList <+: (console whole).err.accepted.toList) ∧
      ((∃ cause, outcome limited = .error (.refused cause)) ↔ n < written.length) ∧
      (c.err.room = none → outcome whole = .ok (Plan.ofReader files reader).2) := by
  intro whole limited
  obtain ⟨written, hout, -, hstop, hcut⟩ :=
    truncates_sections format files reader (c.withRoom none) n rfl
  have hended (herr : c.err.room = none) : outcome whole = .ok (Plan.ofReader files reader).2 :=
    outcome_sections (c := c.withRoom none) ⟨rfl, herr⟩ format files reader
  change CutOff (c.withRoom none) n written whole limited at hcut
  clear_value limited
  rw [Sink.took_of_room_eq_none rfl] at hout
  have haccepted : (console whole).out.accepted = c.out.accepted ++ written :=
    congrArg Sink.accepted hout
  refine ⟨written, haccepted, ?_⟩
  cases hcut with
  | fits hfits =>
    refine ⟨fun _ => ⟨outcome_onConsole _ _, ?_, ?_⟩, fun hfull => ?_, ?_, hended⟩
    · rw [console_onConsole]
      exact haccepted
    · rw [console_onConsole]
      rfl
    · exact absurd hfull (Nat.not_lt_of_le hfits)
    · refine iff_of_false ?_ (Nat.not_lt_of_le hfits)
      rintro ⟨cause, hrefused⟩
      rw [outcome_onConsole] at hrefused
      exact hstop cause _ (eq_error_of_outcome hrefused)
  | full hfull hcut herr =>
    refine ⟨fun hfits => ?_, fun _ => ⟨rfl, hcut, herr⟩, ?_, hended⟩
    · exact absurd hfull (Nat.not_lt_of_le hfits)
    · exact ⟨fun _ => hfull, fun _ => ⟨_, rfl⟩⟩

end Action

end FileSelection
