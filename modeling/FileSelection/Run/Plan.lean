import FileSelection.CommandFile.Reader
import FileSelection.File.Tree
import FileSelection.Run.Settings

/-! What a run is going to write, worked out before anything is written. A plan is a list of
steps, each an event to print or a log entry, and the way in which the run ends when all steps
succeed. Every section selects from the same files, and a section with an error in it contributes
no event. -/

namespace FileSelection

inductive Step
  | log (entry : Log.Entry)
  | print (event : Event)
  deriving DecidableEq, Repr

/-- How the reading of the sections ends: after so many of them, or at an error. -/
inductive Outcome
  | finished (sections : Nat)
  | stopped (error : ReadError)
  deriving DecidableEq, Repr

/-- A plan ends with a failure where the run cannot reach the first section. -/
structure Plan where
  steps : List Step
  ending : Except String Outcome

/-- What a run finds around it. -/
structure Surroundings where
  sourceIsDirectory : Bool
  listing : Except IoError Listing
  commands : Except IoError ByteStream

/-- What a run with these settings finds in a file system. -/
def FileTree.surroundings (tree : FileTree) (settings : Settings) : Surroundings :=
  let source := Text.Utf8.encode settings.sourceDirectory
  { sourceIsDirectory := tree.isDirectory source
    listing := tree.list source
    commands := tree.openFile (Text.Utf8.encode settings.commandFile) }

namespace Plan

def logEntry (level : Log.Level) (message : String) : Log.Entry :=
  { level, target := "sieve::driver", message }

/-- The steps of section number `index`: its warnings and then its files. -/
def sectionSteps (files : List FileInfo) (index : Nat) (s : Section) : List Step :=
  let selected := s.select files
  let count := logEntry .debug
    s!"section {index}: {selected.length} of {files.length} files selected"
  s.warnings.map (fun w => .print (.warning index w)) ++ .log count ::
    selected.map fun file => .print (.row index file)

/-- The steps for what a reader reads after `index` sections, and how it ends. -/
def ofReadings (files : List FileInfo) : Nat → List Reading → List Step × Outcome
  | index, [] => ([], .finished index)
  | index, reading :: rest =>
    let logged := reading.journal.map Step.log
    match reading.result with
    | .ok none => (logged, .finished index)
    | .error error => (logged, .stopped error)
    | .ok (some s) =>
      let (steps, outcome) := ofReadings files (index + 1) rest
      (logged ++ sectionSteps files (index + 1) s ++ steps, outcome)

def ofReader (files : List FileInfo) (reader : CommandReader) : List Step × Outcome :=
  ofReadings files 0 reader.readAll

def failing (steps : List Step) (message : String) : Plan := { steps, ending := .error message }

/-- The plan of a run. Files are listed before the command file is opened. -/
def ofSettings (settings : Settings) (surroundings : Surroundings) : Plan :=
  if !surroundings.sourceIsDirectory then
    failing [] s!"source directory {settings.sourceDirectory} does not exist"
  else
    match surroundings.listing with
    | .error cause => failing [] s!"failed to list {settings.sourceDirectory}: {cause.message}"
    | .ok listing =>
      let inventory := Inventory.ofListing listing
      let logged := inventory.journal.map Step.log
      match surroundings.commands with
      | .error cause =>
        failing logged s!"failed to open command file {settings.commandFile}: {cause.message}"
      | .ok input =>
        let (steps, outcome) := ofReader inventory.files { input, rule := settings.rule }
        { steps := logged ++ steps, ending := .ok outcome }

end Plan

end FileSelection
