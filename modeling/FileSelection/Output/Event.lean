import FileSelection.CommandFile.Section
import FileSelection.Text.Json

/-! What a run tells its reader, and the two formats in which it is written. Warnings and rows are
the output proper. Errors go to the error stream: one that ended the command file has a line
number, and any other failure has none. -/

namespace FileSelection

inductive Event
  | warning (index : Nat) (warning : Warning)
  | row (index : Nat) (file : FileInfo)
  | error (error : ReadError)
  | failure (message : String)
  deriving DecidableEq, Repr

/-- Names and plain sentences, or one JSON object for each event. -/
inductive Format
  | human
  | json
  deriving DecidableEq, Repr

namespace Event

open Text.Json (Value writeObject)

/-- Whether an event belongs to the output proper. -/
def isOutput : Event → Bool
  | .warning _ _ | .row _ _ => true
  | .error _ | .failure _ => false

/-- The fields of an event's JSON object. -/
def fields : Event → List (String × Value)
  | .warning index w =>
    [("type", .text "warning"), ("section", .number index), ("line", .number w.line),
      ("message", .text w.rejection.message)]
  | .row index file =>
    [("type", .text "file"), ("section", .number index), ("name", .text file.name),
      ("path", .text file.path), ("size", .number file.size.toNat)]
  | .error e => [("type", .text "error"), ("line", .number e.line), ("message", .text e.message)]
  | .failure message => [("type", .text "error"), ("message", .text message)]

/-- The line of an event, in the chunks in which it is written. -/
def chunks : Format → Event → List String
  | .human, .warning _ w => ["Warning in line ", toString w.line, " - ", w.rejection.message, "\n"]
  | .human, .row _ file => [file.name, "\n"]
  | .human, .error e => ["ERROR: ", e.message, "\n"]
  | .human, .failure message => ["ERROR: ", message, "\n"]
  | .json, event => [writeObject event.fields, "\n"]

/-- The whole line. -/
def line (format : Format) (event : Event) : String := String.join (event.chunks format)

end Event

end FileSelection
