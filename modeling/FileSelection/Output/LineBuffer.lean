import FileSelection.Output.Sink

/-! A line buffer in front of a sink. Bytes are held back until their line is complete or the
buffer is full, and bytes that the sink refuses stay held, so that a flush offers them again. -/

namespace FileSelection

structure LineBuffer where
  sink : Sink
  held : Bytes := []
  deriving DecidableEq, Repr

namespace LineBuffer

/-- As many bytes are too many to be held. -/
def capacity : Nat := 1024

def newline : UInt8 := 0x0A

/-- Hands over what is held. -/
def release (buffer : LineBuffer) : Except IoError Unit × LineBuffer :=
  let (result, sink) := buffer.sink.write buffer.held
  let written := sink.accepted.size - buffer.sink.accepted.size
  (result, { sink, held := buffer.held.drop written })

/-- Writes past the buffer. -/
def writeThrough (bytes : Bytes) (buffer : LineBuffer) : Except IoError Unit × LineBuffer :=
  let (result, sink) := buffer.sink.write bytes
  (result, { buffer with sink })

/-- Goes on where something succeeded. -/
def andThen (attempt : Except IoError Unit × LineBuffer)
    (next : LineBuffer → Except IoError Unit × LineBuffer) : Except IoError Unit × LineBuffer :=
  match attempt with
  | (.ok (), buffer) => next buffer
  | (.error cause, buffer) => (.error cause, buffer)

/-- Holds bytes back. Where there is no space for them the others are released first, and bytes
that alone would fill the buffer are written past it. -/
def hold (bytes : Bytes) (buffer : LineBuffer) : Except IoError Unit × LineBuffer :=
  let space := capacity - buffer.held.length
  if bytes.length < space then (.ok (), { buffer with held := buffer.held ++ bytes })
  else
    andThen (if space < bytes.length then buffer.release else (.ok (), buffer)) fun buffer =>
      if capacity ≤ bytes.length then buffer.writeThrough bytes
      else (.ok (), { buffer with held := buffer.held ++ bytes })

/-- The bytes up to the last newline, and those after it. -/
def atLastNewline (bytes : Bytes) : Bytes × Bytes :=
  let tail := (bytes.reverse.takeWhile (· != newline)).reverse
  (bytes.take (bytes.length - tail.length), tail)

/-- Writes complete lines at once and holds the rest back. -/
def write (bytes : Bytes) (buffer : LineBuffer) : Except IoError Unit × LineBuffer :=
  let (lines, tail) := atLastNewline bytes
  let attempt :=
    if lines = [] then
      if buffer.held.getLast? = some newline then buffer.release else (.ok (), buffer)
    else if buffer.held = [] then buffer.writeThrough lines
    else andThen (buffer.hold lines) release
  andThen attempt (hold tail)

def flush (buffer : LineBuffer) : Except IoError Unit × LineBuffer :=
  andThen buffer.release fun buffer =>
    let (result, sink) := buffer.sink.flush
    (result, { buffer with sink })

instance : Destination LineBuffer := ⟨write, flush⟩

end LineBuffer

end FileSelection
