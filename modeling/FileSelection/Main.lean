import FileSelection.File.Manifest
import FileSelection.Run.Console
import Std.Time.Format
import Std.Time.Zoned

/-! The command line. It takes a directory and a command file, and reads the manifest of the
directory from its standard input. What is written and how the process ends is decided by the plan;
here the surroundings of a run are gathered and its bytes are handed over. -/

namespace FileSelection

/-- The cause behind a failed system call. -/
def IoError.ofCode (code : UInt32) (details : String) : IoError :=
  match code with
  | 2 => .notFound
  | 20 => .notDirectory
  | 21 => .isDirectory
  | 28 => .storageFull
  | 36 => .nameTooLong
  | 40 => .linkLoop
  | _ => .other s!"{details} (os error {code})"

def IoError.ofSystem : IO.Error → IoError
  | .alreadyExists _ code details | .otherError code details | .resourceBusy code details
  | .resourceVanished code details | .unsupportedOperation code details
  | .hardwareFault code details | .unsatisfiedConstraints code details
  | .illegalOperation code details | .protocolError code details | .timeExpired code details
  | .interrupted _ code details | .noFileOrDirectory _ code details
  | .invalidArgument _ code details | .permissionDenied _ code details
  | .resourceExhausted _ code details | .inappropriateType _ code details
  | .noSuchThing _ code details => ofCode code details
  | .unexpectedEof => .other "unexpected end of file"
  | .userError message => .other message

namespace CommandLine

def usage : String := s!"Usage: {programName} [--json] [--lax-between] DIRECTORY COMMAND_FILE\n"

/-- The text of an answer, and whether it belongs on the error stream. -/
def answer : UsageAnswer → String × Bool
  | .help => (usage, false)
  | .version => (versionText, false)
  | .unknownArgument => ("error: unexpected argument\n" ++ usage, true)
  | .missingArgument => ("error: a required argument is missing\n" ++ usage, true)
  | .repeatedFlag => ("error: a flag is given twice\n" ++ usage, true)
  | .flagWithValue => ("error: a flag takes no value\n" ++ usage, true)
  | .emptyValue => ("error: a value is empty\n" ++ usage, true)

/-- Opens a file and reads it. A directory can be opened and fails when it is read. -/
def readFile (path : String) : BaseIO (Except IoError ByteStream) := do
  match ← (IO.FS.Handle.mk path .read).toBaseIO with
  | .error cause => return .error (.ofSystem cause)
  | .ok handle =>
    match ← handle.readBinToEnd.toBaseIO with
    | .error cause => return .ok { bytes := [], failure := some (.ofSystem cause) }
    | .ok bytes => return .ok { bytes := bytes.toList }

def isDirectory (path : String) : BaseIO Bool := do
  match ← readFile path with
  | .ok opened => return opened.failure = some .isDirectory
  | .error _ => return false

/-- What a run with these settings finds, with the manifest on the standard input. -/
def surroundings (settings : Settings) : IO Surroundings := do
  let current := (← IO.getEnv "PWD").getD "/"
  let source := Text.Utf8.encode settings.sourceDirectory
  let sourceIsDirectory ← isDirectory settings.sourceDirectory
  let manifest := (← (← IO.getStdin).readBinToEnd).toList
  return {
    sourceIsDirectory
    listing := (Path.absolute (Text.Utf8.encode current) source).map (Manifest.read · manifest)
    commands := ← readFile settings.commandFile }

/-- Hands bytes to a stream. The answer is why it refused them, if it did. -/
def deliver (stream : IO.FS.Stream) (bytes : Array UInt8) : BaseIO (Option IoError) := do
  match ← (stream.write ⟨bytes⟩ *> stream.flush).toBaseIO with
  | .ok () => return none
  | .error cause => return some (.ofSystem cause)

def refusing (cause : IoError) : Sink := { room := some 0, refusal := cause }

/-- Carries out a plan. Where a stream turns out to refuse its bytes, the plan is carried out on
a console that refuses them as well. -/
def carryOut (format : Format) (plan : Plan) (console : Console LineBuffer) : IO UInt32 := do
  let (_, delivered) := plan.run format console
  let console ← match ← deliver (← IO.getStdout) delivered.out.sink.accepted with
    | none => pure console
    | some cause => pure { console with out := { sink := refusing cause } }
  let (status, delivered) := plan.run format console
  match ← deliver (← IO.getStderr) delivered.err.accepted with
  | none => return UInt32.ofNat status.code
  | some cause =>
    let (status, _) := plan.run format { console with err := refusing cause }
    return UInt32.ofNat status.code

def run (args : List String) : IO UInt32 := do
  let logger := Log.Logger.init {} (← IO.getEnv logLevelVariable)
  match Settings.ofArguments (.ofVariable (← IO.getEnv boundsVariable)) args with
  | .error answered =>
    let (text, isError) := answer answered
    let stream ← if isError then IO.getStderr else IO.getStdout
    let _ ← deliver stream (Text.Utf8.encode text).toArray
    return UInt32.ofNat answered.code
  | .ok settings =>
    let time := (← Std.Time.PlainDateTime.now).format "uuuu-MM-dd HH:mm:ss.SSS"
    let plan := Plan.ofSettings settings (← surroundings settings)
    carryOut settings.format plan { out := { sink := {} }, err := {}, logger, time }

end CommandLine

end FileSelection

def main (args : List String) : IO UInt32 := FileSelection.CommandLine.run args
