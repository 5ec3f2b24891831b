import FileSelection.IoError
import FileSelection.Text.Utf8

/-! Destinations of written bytes, and the plainest of them: a sink, which takes bytes up to a
limit and refuses the rest. -/

namespace FileSelection

/-- Somewhere to write to. A refused write may have taken a part of its bytes. -/
class Destination (σ : Type) where
  write : Bytes → σ → Except IoError Unit × σ
  flush : σ → Except IoError Unit × σ

structure Sink where
  accepted : Array UInt8 := #[]
  /-- How many more bytes the sink takes, if there is a limit. -/
  room : Option Nat := none
  /-- Why it takes no more. -/
  refusal : IoError := .other "sink full"
  /-- Why flushing fails, if it does. -/
  flushRefusal : Option IoError := none
  deriving DecidableEq, Repr

namespace Sink

def write (bytes : Bytes) (sink : Sink) : Except IoError Unit × Sink :=
  match sink.room with
  | none => (.ok (), { sink with accepted := sink.accepted ++ bytes })
  | some room =>
    let taken := sink.accepted ++ bytes.take room
    (if bytes.length ≤ room then .ok () else .error sink.refusal,
      { sink with accepted := taken, room := some (room - bytes.length) })

def flush (sink : Sink) : Except IoError Unit × Sink :=
  match sink.flushRefusal with
  | none => (.ok (), sink)
  | some refusal => (.error refusal, sink)

instance : Destination Sink := ⟨write, flush⟩

end Sink

end FileSelection
