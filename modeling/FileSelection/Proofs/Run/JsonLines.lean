import FileSelection.Proofs.CommandFile.LineReading
import FileSelection.Proofs.Run.Delivery
import FileSelection.Proofs.Text.JsonReading

/-! The lines of the JSON format, read back. A reader of either stream cuts it at its newlines,
reads each line as an object, and finds in the object what the event had to tell, whatever names,
paths and messages it tells of. So a stream holds one line for each event printed to it, in their
order and with nothing in between, and two streams of the same bytes tell the same. -/

namespace FileSelection

open ByteStream (terminated unterminated newline)
open Text.Json (Value readObject writeObject)
open Text.Utf8

/-- What a line of the JSON format tells. -/
inductive Told
  | warning (number line : ℕ) (message : String)
  | file (number : ℕ) (name path : String) (size : ℕ)
  | error (line : Option ℕ) (message : String)
  deriving DecidableEq, Repr

namespace Told

/-- What an event has to tell. An error of the command file has a line. -/
def ofEvent : Event → Told
  | .warning number w => .warning number w.line w.rejection.message
  | .row number f => .file number f.name f.path f.size.toNat
  | .error e => .error (some e.line) e.message
  | .failure message => .error none message

/-- What an object with these fields, and no others, tells. -/
def ofFields? : List (String × Value) → Option Told
  | [("type", .text "warning"), ("section", .number number), ("line", .number line),
      ("message", .text message)] => some (.warning number line message)
  | [("type", .text "file"), ("section", .number number), ("name", .text name),
      ("path", .text path), ("size", .number size)] => some (.file number name path size)
  | [("type", .text "error"), ("line", .number line), ("message", .text message)] =>
    some (.error (some line) message)
  | [("type", .text "error"), ("message", .text message)] => some (.error none message)
  | _ => none

/-- What a line tells, given without its newline. -/
def ofLine? (line : Bytes) : Option Told :=
  (decode? line).bind fun text => (readObject text.toList).bind ofFields?

theorem ofFields?_fields (event : Event) : ofFields? event.fields = some (ofEvent event) := by
  cases event <;> rfl

theorem ofLine?_writeObject (event : Event) :
    ofLine? (encode (writeObject event.fields)) = some (ofEvent event) := by
  rw [ofLine?, decode?_encode, Option.bind_some, Text.Json.readObject_writeObject,
    Option.bind_some, ofFields?_fields]

/-- These bytes are a line for each of the events, in their order, and nothing else. -/
def Lines (bytes : Bytes) (events : List Event) : Prop :=
  (terminated bytes).map ofLine? = events.map (some <| ofEvent ·) ∧ unterminated bytes = []

theorem lines_nil : Lines [] [] := ⟨rfl, rfl⟩

theorem encode_line (event : Event) :
    encode (event.line .json) = encode (writeObject event.fields) ++ [newline] := by
  rw [Event.line, Event.chunks, String.join_cons, String.join_cons, encode_append, encode_append]
  rfl

theorem newline_not_mem_writeObject (event : Event) :
    newline ∉ encode (writeObject event.fields) := fun hmem =>
  Text.Json.newline_not_mem_writeObject _ ((mem_encode_iff (by decide)).1 hmem)

theorem Lines.cons {bytes : Bytes} {events : List Event} (h : Lines bytes events) (event : Event) :
    Lines (encode (event.line .json) ++ bytes) (event :: events) := by
  have hone := newline_not_mem_writeObject event
  rw [encode_line, List.append_assoc, List.singleton_append]
  refine ⟨?_, ?_⟩
  · rw [ByteStream.terminated_append_cons hone, List.map_cons, List.map_cons, h.1,
      ofLine?_writeObject]
  · rw [ByteStream.unterminated_append_newline, h.2]

theorem lines_join (events : List Event) :
    Lines (encode (String.join (events.map (Event.line .json)))) events := by
  induction events with
  | nil => exact lines_nil
  | cons event events ih =>
    rw [List.map_cons, String.join_cons, encode_append]
    exact ih.cons event

/-- The same bytes tell the same. -/
theorem Lines.injective {bytes : Bytes} {events events' : List Event} (h : Lines bytes events)
    (h' : Lines bytes events') : events.map ofEvent = events'.map ofEvent := by
  have hsome := h.1.symm.trans h'.1
  refine (List.map_inj_right fun _ _ => Option.some.inj).1 ?_
  rwa [List.map_map, List.map_map]

end Told

/-! ### Calls -/

/-- What a printer is asked to do. -/
inductive PrinterCall
  | print (event : Event)
  | finish
  deriving DecidableEq, Repr

namespace PrinterCall

def event? : PrinterCall → Option Event
  | .print event => some event
  | .finish => none

/-- The events that are printed to the output, or to the error stream. -/
def events (isOutput : Bool) (calls : List PrinterCall) : List Event :=
  (calls.filterMap event?).filter (·.isOutput = isOutput)

theorem events_cons (isOutput : Bool) (k : PrinterCall) (calls : List PrinterCall) :
    events isOutput (k :: calls) = events isOutput [k] ++ events isOutput calls := by
  rw [events, ← List.singleton_append, List.filterMap_append, List.filter_append]
  rfl

/-- What calls add to the output, or to the error stream. -/
def written (format : Format) (isOutput : Bool) (calls : List PrinterCall) : String :=
  String.join ((events isOutput calls).map (Event.line format))

theorem written_cons (format : Format) (isOutput : Bool) (k : PrinterCall)
    (calls : List PrinterCall) :
    written format isOutput (k :: calls) =
      written format isOutput [k] ++ written format isOutput calls := by
  rw [written, events_cons, List.map_append, String.join_append]
  rfl

theorem written_print (format : Format) (isOutput : Bool) (event : Event) :
    written format isOutput [.print event] =
      if event.isOutput = isOutput then event.line format else "" := by
  rw [written, events]
  split_ifs with h
  · simp [event?, h]
  · simp [event?, h]

end PrinterCall

namespace Action

def call (format : Format) : PrinterCall → Action Sink Unit
  | .print event => print format event
  | .finish => finish

/-- Does calls in turn, up to the first stop. -/
def calls (format : Format) : List PrinterCall → Action Sink Unit
  | [] => pure ()
  | k :: rest => do
    call format k
    calls format rest

end Action

/-- Neither stream refuses anything. -/
structure Console.Unfailing (c : Console Sink) : Prop where
  unlimited : c.Unlimited
  out : c.out.flushRefusal = none
  err : c.err.flushRefusal = none

theorem Console.Unfailing.received {c : Console Sink} (h : c.Unfailing) (out err : Bytes) :
    (c.received out err).Unfailing where
  unlimited := h.unlimited.received out err
  out := by
    rw [Console.received, Sink.took_of_room_eq_none h.unlimited.1]
    exact h.out
  err := by
    rw [Console.received, Sink.took_of_room_eq_none h.unlimited.2]
    exact h.err

namespace Action

variable {c : Console Sink}

theorem finish_of_unfailing (h : c.Unfailing) : finish c = .ok () c := by
  have hout : Destination.flush c.out = (.ok (), c.out) := by
    change c.out.flush = _
    rw [Sink.flush, h.out]
  rw [finish, hout]
  simp only [Sink.flush, h.err]

theorem call_of_unfailing (h : c.Unfailing) (format : Format) (k : PrinterCall) :
    call format k c =
      .ok () (c.received (encode (PrinterCall.written format true [k]))
        (encode (PrinterCall.written format false [k]))) := by
  cases k with
  | finish =>
    rw [call, finish_of_unfailing h]
    exact congrArg (EStateM.Result.ok ()) (Console.received_nil c).symm
  | print event =>
    have hprint := step_of_unlimited h.unlimited format (.print event)
    rw [PrinterCall.written_print, PrinterCall.written_print]
    refine hprint.trans ?_
    rw [Step.outText, Step.errText]
    cases event.isOutput <;> rfl

/-- Calls in turn add the lines of their events in turn, to each stream its own. -/
theorem calls_of_unfailing (h : c.Unfailing) (format : Format) (printed : List PrinterCall) :
    calls format printed c =
      .ok () (c.received (encode (PrinterCall.written format true printed))
        (encode (PrinterCall.written format false printed))) := by
  induction printed generalizing c with
  | nil => exact congrArg (EStateM.Result.ok ()) (Console.received_nil c).symm
  | cons k printed ih =>
    refine (bind_of_ok (call_of_unfailing h format k)).trans ?_
    rw [ih (h.received _ _), Console.received_received, ← encode_append, ← encode_append,
      ← PrinterCall.written_cons, ← PrinterCall.written_cons]

end Action

/-- What calls print to streams that refuse nothing can be read back. Each stream receives a line
for each event that belongs to it, in their order and nothing else, and each line, read as a JSON
object, tells what its event had to tell. So calls that tell something else on a stream do not leave
the same bytes there. -/
theorem json_lines_read_back (c : Console Sink) (h : c.Unfailing) (calls : List PrinterCall) :
    ∃ (out err : Bytes) (c' : Console Sink),
      Action.calls .json calls c = .ok () c' ∧
      c'.out.accepted = c.out.accepted ++ out ∧
      c'.err.accepted = c.err.accepted ++ err ∧
      Told.Lines out (PrinterCall.events true calls) ∧
      Told.Lines err (PrinterCall.events false calls) ∧
      ∀ calls' c'', Action.calls .json calls' c = .ok () c'' →
        (c''.out.accepted = c'.out.accepted →
          (PrinterCall.events true calls').map Told.ofEvent =
            (PrinterCall.events true calls).map Told.ofEvent) ∧
        (c''.err.accepted = c'.err.accepted →
          (PrinterCall.events false calls').map Told.ofEvent =
            (PrinterCall.events false calls).map Told.ofEvent) := by
  have hrun := Action.calls_of_unfailing h .json
  refine ⟨_, _, _, hrun calls, Sink.accepted_took h.unlimited.1 _,
    Sink.accepted_took h.unlimited.2 _, Told.lines_join _, Told.lines_join _, ?_⟩
  intro calls' c'' hrun'
  rw [hrun calls'] at hrun'
  cases hrun'
  refine ⟨fun hout => ?_, fun herr => ?_⟩
  · have hsame := Sink.eq_of_accepted_took h.unlimited.1 hout
    exact (Told.lines_join _).injective (hsame ▸ Told.lines_join _)
  · have hsame := Sink.eq_of_accepted_took h.unlimited.2 herr
    exact (Told.lines_join _).injective (hsame ▸ Told.lines_join _)

/-- A file whose name has a line break and a quote in it is told of in one line. -/
theorem json_lines_read_back_line_break :
    ∃ c' : Console Sink,
      Action.calls .json
          [.print (.row 1 { name := "a\n\"b", path := "/a\n\"b", size := 3, attributes := {} }),
            .finish, .print (.failure "1\n2")] { out := {}, err := {} } = .ok () c' ∧
        (terminated c'.out.accepted.toList).map Told.ofLine? =
          [some (.file 1 "a\n\"b" "/a\n\"b" 3)] ∧
        (terminated c'.err.accepted.toList).map Told.ofLine? = [some (.error none "1\n2")] := by
  obtain ⟨out, err, c', hrun, hout, herr, hlines, hlines', -⟩ :=
    json_lines_read_back { out := {}, err := {} } ⟨⟨rfl, rfl⟩, rfl, rfl⟩
      [.print (.row 1 { name := "a\n\"b", path := "/a\n\"b", size := 3, attributes := {} }),
        .finish, .print (.failure "1\n2")]
  have hbytes (bytes : Bytes) : ((#[] : Array UInt8) ++ bytes).toList = bytes := by simp
  refine ⟨c', hrun, ?_, ?_⟩
  · rw [hout, hbytes]
    exact hlines.1
  · rw [herr, hbytes]
    exact hlines'.1

end FileSelection
