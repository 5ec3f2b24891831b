import FileSelection.Output.LineBuffer
import FileSelection.Run.Plan

/-! Carrying out a plan on a console. The first refused write of an event ends the printing. How
the run ended is then told on the error stream, once, and the streams are flushed; failures of
these last writes show only in the log. A log entry that the error stream refuses ends the whole
process at once. -/

namespace FileSelection

/-- The two streams of a process, its logger, and the time that stands before log entries. -/
structure Console (σ : Type) where
  out : σ
  err : Sink
  logger : Log.Logger := {}
  time : String := ""

/-- What keeps an action from going on. -/
inductive Stop
  | refused (cause : IoError)
  | crashed
  deriving DecidableEq, Repr

inductive ExitStatus
  | success
  /-- The command file has an error in it, or cannot be read to its end. -/
  | fatal
  /-- The run failed for another reason. -/
  | failure
  | crash
  deriving DecidableEq, Repr

def ExitStatus.code : ExitStatus → Nat
  | .success => 0
  | .fatal => 1
  | .failure => 2
  | .crash => 101

/-- Something done on a console. What was done before a stop stays done. -/
abbrev Action (σ : Type) := EStateM Stop (Console σ)

namespace Action

variable {σ : Type}

def writeErr (text : String) : Action σ Unit := fun c =>
  match c.err.write (Text.Utf8.encode text) with
  | (.ok (), err) => .ok () { c with err }
  | (.error cause, err) => .error (.refused cause) { c with err }

/-- Writes the line of a log entry. A refusal ends the process. -/
def writeEntry (entry : Log.Entry) : Action σ Unit := fun c =>
  match writeErr (entry.line c.time) c with
  | .ok () c => .ok () c
  | .error _ c => .error .crashed c

/-- Hands a log entry to the installed logger, which writes it if it shows its level. -/
def log (entry : Log.Entry) : Action σ Unit := fun c =>
  if c.logger.enabled entry.level then writeEntry entry c else .ok () c

/-- Hands in a log entry where it is passed on to the installed logger, or not. -/
def submit (entry : Log.Entry) : Action σ Unit := fun c =>
  if c.logger.passes entry.level then log entry c else .ok () c

/-- Does something whose refusal shows only in the log. -/
def orLog (action : Action σ Unit) (complaint : String) : Action σ Unit := fun c =>
  match action c with
  | .ok () c => .ok () c
  | .error (.refused cause) c =>
    submit (Plan.logEntry .debug (complaint ++ ": " ++ cause.message)) c
  | .error .crashed c => .error .crashed c

variable [Destination σ]

def writeOut (text : String) : Action σ Unit := fun c =>
  match Destination.write (Text.Utf8.encode text) c.out with
  | (.ok (), out) => .ok () { c with out }
  | (.error cause, out) => .error (.refused cause) { c with out }

/-- Writes chunks in turn, up to the first refusal. -/
def writeChunks (write : String → Action σ Unit) : List String → Action σ Unit
  | [] => pure ()
  | chunk :: rest => do
    write chunk
    writeChunks write rest

/-- Prints an event on the stream to which it belongs. -/
def print (format : Format) (event : Event) : Action σ Unit :=
  writeChunks (if event.isOutput then writeOut else writeErr) (event.chunks format)

def step (format : Format) : Step → Action σ Unit
  | .log entry => submit entry
  | .print event => print format event

/-- Does steps in turn, up to the first stop. -/
def steps (format : Format) : List Step → Action σ Unit
  | [] => pure ()
  | s :: rest => do
    step format s
    steps format rest

/-- Prints what the sections of a command file select from some files, as far as it can be read
and written. -/
def sections (format : Format) (files : List FileInfo) (reader : CommandReader) :
    Action σ Outcome := do
  let (planned, outcome) := Plan.ofReader files reader
  steps format planned
  return outcome

/-- Flushes the output, and then the error stream. -/
def finish : Action σ Unit := fun c =>
  match Destination.flush c.out with
  | (.error cause, out) => .error (.refused cause) { c with out }
  | (.ok (), out) =>
    match c.err.flush with
    | (.error cause, err) => .error (.refused cause) { c with out, err }
    | (.ok (), err) => .ok () { c with out, err }

/-- Tells how a run ended. -/
def conclude (format : Format) : Except String Outcome → Action σ ExitStatus
  | .ok (.finished sections) => do
    submit (Plan.logEntry .info s!"processed {sections} sections")
    return .success
  | .ok (.stopped error) => do
    orLog (print format (.error error)) "failed to print fatal error"
    return .fatal
  | .error message => do
    orLog (print format (.failure message)) "failed to print failure"
    return .failure

/-- Does the steps of a plan. A refused step is a failure of its own. -/
def carryOut (format : Format) (plan : Plan) : Action σ (Except String Outcome) := fun c =>
  match steps format plan.steps c with
  | .ok () c => .ok plan.ending c
  | .error (.refused cause) c => .ok (.error ("failed to write output: " ++ cause.message)) c
  | .error .crashed c => .error .crashed c

def report (format : Format) (plan : Plan) : Action σ ExitStatus := do
  let ending ← carryOut format plan
  let status ← conclude format ending
  orLog finish "failed to flush output"
  return status

end Action

/-- Carries out a plan: the exit status of the process, and what it leaves behind. -/
def Plan.run {σ : Type} [Destination σ] (format : Format) (plan : Plan) (console : Console σ) :
    ExitStatus × Console σ :=
  match Action.report format plan console with
  | .ok status console => (status, console)
  | .error _ console => (.crash, console)

end FileSelection
