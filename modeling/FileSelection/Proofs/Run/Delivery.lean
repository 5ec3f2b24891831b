import FileSelection.Proofs.Text.Decoding
import FileSelection.Run.Console

/-! What the steps of a run leave on a console whose two streams take every byte. Each step adds a
text to each stream, most of them nothing to one of the two, and steps in turn add their texts in
turn: events of the output proper go to the one stream, and everything else goes to the other. -/

namespace FileSelection

open Text.Utf8

/-! ### Bytes on sinks and consoles -/

/-- A sink after some bytes, whether it took them all or not. -/
def Sink.took (s : Sink) (bytes : Bytes) : Sink := (s.write bytes).2

namespace Sink

theorem write_of_room_eq_none {s : Sink} (h : s.room = none) (bytes : Bytes) :
    s.write bytes = (.ok (), s.took bytes) := by
  rw [took, write, h]

theorem took_of_room_eq_none {s : Sink} (h : s.room = none) (bytes : Bytes) :
    s.took bytes = { s with accepted := s.accepted ++ bytes } := by
  rw [took, write, h]

@[simp] theorem took_nil (s : Sink) : s.took [] = s := by
  obtain ⟨accepted, room, refusal, flushRefusal⟩ := s
  cases room <;> simp [took, write]

/-- Bytes in two parts are taken like the whole, up to the limit. -/
theorem took_took (s : Sink) (bytes more : Bytes) :
    (s.took bytes).took more = s.took (bytes ++ more) := by
  obtain ⟨accepted, room, refusal, flushRefusal⟩ := s
  have happend (front back : Bytes) : accepted ++ front ++ back = accepted ++ (front ++ back) := by
    apply Array.toList_inj.1
    simp
  cases room with
  | none => simp only [took, write, happend]
  | some room => simp only [took, write, List.take_append, List.length_append, happend, Nat.sub_sub]

@[simp] theorem write_nil (s : Sink) : s.write [] = (.ok (), s) := by
  obtain ⟨accepted, room, refusal, flushRefusal⟩ := s
  cases room <;> simp [write]

/-- Bytes in two parts are written like the whole: where the first part is refused, so is the
second one. -/
theorem write_append (s : Sink) (front back : Bytes) :
    s.write (front ++ back) =
      match s.write front with
      | (.ok (), s') => s'.write back
      | (.error cause, s') => (.error cause, s') := by
  have hwhole := took_took s front back
  obtain ⟨accepted, room, refusal, flushRefusal⟩ := s
  cases room with
  | none => exact Prod.ext rfl hwhole.symm
  | some room =>
    have hlength : (front ++ back).length = front.length + back.length := List.length_append
    by_cases hfront : front.length ≤ room
    · have hfits : (front ++ back).length ≤ room ↔ back.length ≤ room - front.length := by omega
      simp only [took, write, if_pos hfront, hfits] at hwhole ⊢
      exact Prod.ext rfl hwhole.symm
    · have hlong : ¬(front ++ back).length ≤ room := by omega
      have hnone : room - front.length = 0 := by omega
      simp only [took, write, if_neg hfront, if_neg hlong, hnone, List.take_zero, Nat.zero_sub]
        at hwhole ⊢
      rw [← hwhole]
      simp

theorem accepted_took {s : Sink} (h : s.room = none) (bytes : Bytes) :
    (s.took bytes).accepted = s.accepted ++ bytes := by
  rw [took_of_room_eq_none h]

theorem eq_of_accepted_took {s : Sink} (h : s.room = none) {bytes more : Bytes}
    (heq : (s.took bytes).accepted = (s.took more).accepted) : bytes = more := by
  rw [accepted_took h, accepted_took h] at heq
  simpa using congrArg Array.toList heq

/-- A sink keeps what it has accepted. -/
theorem accepted_prefix_took (s : Sink) (bytes : Bytes) :
    s.accepted.toList <+: (s.took bytes).accepted.toList := by
  obtain ⟨accepted, room, refusal, flushRefusal⟩ := s
  cases room <;> simp [took, write]

theorem room_took_eq_none {s : Sink} (h : s.room = none) (bytes : Bytes) :
    (s.took bytes).room = none := by
  rw [took_of_room_eq_none h, h]

end Sink

namespace Console

/-- A console after bytes on both of its streams. -/
def received (c : Console Sink) (out err : Bytes) : Console Sink :=
  { c with out := c.out.took out, err := c.err.took err }

/-- Both streams take every byte. -/
def Unlimited (c : Console Sink) : Prop := c.out.room = none ∧ c.err.room = none

@[simp] theorem received_nil (c : Console Sink) : c.received [] [] = c := by
  rw [received, Sink.took_nil, Sink.took_nil]

theorem received_received (c : Console Sink) (out err out' err' : Bytes) :
    (c.received out err).received out' err' = c.received (out ++ out') (err ++ err') := by
  simp only [received, Sink.took_took]

@[simp] theorem received_logger (c : Console Sink) (out err : Bytes) :
    (c.received out err).logger = c.logger := rfl

@[simp] theorem received_time (c : Console Sink) (out err : Bytes) :
    (c.received out err).time = c.time := rfl

theorem Unlimited.received {c : Console Sink} (h : c.Unlimited) (out err : Bytes) :
    (c.received out err).Unlimited :=
  ⟨Sink.room_took_eq_none h.1 out, Sink.room_took_eq_none h.2 err⟩

end Console

/-! ### Steps -/

/-- Whether log entries of a level are shown: they are passed on to the installed logger, and it
shows them. -/
def Log.Logger.shows (logger : Log.Logger) (level : Log.Level) : Bool :=
  logger.passes level && logger.enabled level

namespace Action

/-- An entry that is shown is written. -/
theorem submit_of_shown {σ : Type} {c : Console σ} {entry : Log.Entry}
    (h : c.logger.shows entry.level) : submit entry c = writeEntry entry c := by
  obtain ⟨hpasses, henabled⟩ := Bool.and_eq_true_iff.1 h
  rw [submit, if_pos hpasses, log, if_pos henabled]

/-- An entry that is not shown leaves everything as it is. -/
theorem submit_of_hidden {σ : Type} {c : Console σ} {entry : Log.Entry}
    (h : c.logger.shows entry.level = false) : submit entry c = .ok () c := by
  rw [submit]
  split_ifs with hpasses
  · rw [Log.Logger.shows, hpasses, Bool.true_and] at h
    exact if_neg (ne_true_of_eq_false h)
  · rfl

theorem bind_of_ok {σ α β : Type} {action : Action σ α} {next : α → Action σ β} {a : α}
    {c c' : Console σ} (h : action c = .ok a c') : (action >>= next) c = next a c' := by
  simp only [bind, EStateM.bind, h]

theorem bind_of_error {σ α β : Type} {action : Action σ α} {next : α → Action σ β} {stop : Stop}
    {c c' : Console σ} (h : action c = .error stop c') :
    (action >>= next) c = .error stop c' := by
  simp only [bind, EStateM.bind, h]

variable {c : Console Sink}

theorem writeOut_of_unlimited (h : c.Unlimited) (text : String) :
    writeOut text c = .ok () (c.received (encode text) []) := by
  have hwrite : Destination.write (encode text) c.out = c.out.write (encode text) := rfl
  rw [writeOut, hwrite, Sink.write_of_room_eq_none h.1, Console.received, Sink.took_nil]

theorem writeErr_of_unlimited (h : c.Unlimited) (text : String) :
    writeErr text c = .ok () (c.received [] (encode text)) := by
  rw [writeErr, Sink.write_of_room_eq_none h.2, Console.received, Sink.took_nil]

theorem writeChunks_out (h : c.Unlimited) (chunks : List String) :
    writeChunks writeOut chunks c = .ok () (c.received (encode (String.join chunks)) []) := by
  induction chunks generalizing c with
  | nil => simp [writeChunks, pure, EStateM.pure]
  | cons chunk chunks ih =>
    rw [writeChunks, bind_of_ok (writeOut_of_unlimited h chunk), ih (h.received _ _),
      Console.received_received, String.join_cons, encode_append, List.append_nil]

theorem writeChunks_err (h : c.Unlimited) (chunks : List String) :
    writeChunks writeErr chunks c = .ok () (c.received [] (encode (String.join chunks))) := by
  induction chunks generalizing c with
  | nil => simp [writeChunks, pure, EStateM.pure]
  | cons chunk chunks ih =>
    rw [writeChunks, bind_of_ok (writeErr_of_unlimited h chunk), ih (h.received _ _),
      Console.received_received, String.join_cons, encode_append, List.append_nil]

end Action

/-- What a step adds to the output. -/
def Step.outText (format : Format) : Step → String
  | .log _ => ""
  | .print event => if event.isOutput then event.line format else ""

/-- What a step adds to the error stream. -/
def Step.errText (format : Format) (logger : Log.Logger) (time : String) : Step → String
  | .log entry => if logger.shows entry.level then entry.line time else ""
  | .print event => if event.isOutput then "" else event.line format

namespace Action

variable {c : Console Sink}

theorem step_of_unlimited (h : c.Unlimited) (format : Format) (s : Step) :
    step format s c =
      .ok () (c.received (encode (s.outText format))
        (encode (s.errText format c.logger c.time))) := by
  cases s with
  | log entry =>
    simp only [step, Step.outText, Step.errText]
    split_ifs with hshown
    · rw [submit_of_shown hshown, writeEntry, writeErr_of_unlimited h]
      rfl
    · rw [submit_of_hidden (Bool.eq_false_iff.2 hshown)]
      simp
  | print event =>
    simp only [step, print, Step.outText, Step.errText]
    split_ifs with hout
    · rw [writeChunks_out h, encode_empty, Event.line]
    · rw [writeChunks_err h, encode_empty, Event.line]

/-- Steps in turn add their texts in turn. -/
theorem steps_of_unlimited (h : c.Unlimited) (format : Format) (planned : List Step) :
    steps format planned c =
      .ok () (c.received (encode (String.join (planned.map (Step.outText format))))
        (encode (String.join (planned.map (Step.errText format c.logger c.time))))) := by
  induction planned generalizing c with
  | nil => simp [steps, pure, EStateM.pure]
  | cons s planned ih =>
    rw [steps, bind_of_ok (step_of_unlimited h format s), ih (h.received _ _),
      Console.received_received]
    simp only [List.map_cons, String.join_cons, encode_append, Console.received_logger,
      Console.received_time]

end Action

end FileSelection
