import FileSelection.CommandFile.DirectiveLines
import FileSelection.Output.Event

/-! What a run is asked to do: the command line, completed by the environment. -/

namespace FileSelection

def programName : String := "sieve"

/-- The answer to a question for the version. -/
def versionText : String := programName ++ " 0.1.0\n"

/-- The environment variable that names the log level. -/
def logLevelVariable : String := "SIEVE_LOG_LEVEL"

/-- The environment variable that names the rule for bounds. -/
def boundsVariable : String := "SIEVE_BETWEEN_BOUNDS"

namespace Text

/-- The characters with the property White_Space. -/
def isBlank (c : Char) : Bool :=
  let n := c.toNat
  (0x9 ≤ n && n ≤ 0xD) || n == 0x20 || n == 0x85 || n == 0xA0 || n == 0x1680 ||
    (0x2000 ≤ n && n ≤ 0x200A) || n == 0x2028 || n == 0x2029 || n == 0x202F || n == 0x205F ||
    n == 0x3000

/-- Text without blanks at either end. -/
def trim (text : String) : String :=
  String.ofList (((text.toList.dropWhile isBlank).reverse.dropWhile isBlank).reverse)

end Text

namespace BoundsRule

/-- A rule by its name, in letters of either case and with any blanks around it. -/
def ofName? (text : String) : Option BoundsRule :=
  let name := (Text.trim text).map Char.toLower
  if name = "lax" then some .lax else if name = "strict" then some .strict else none

/-- The rule asked for by the environment: strict, unless the variable names the other one. -/
def ofVariable (value : Option String) : BoundsRule := (value.bind ofName?).getD .strict

end BoundsRule

structure Settings where
  sourceDirectory : String
  commandFile : String
  format : Format
  rule : BoundsRule
  deriving DecidableEq, Repr

/-- Why arguments give no settings. -/
inductive UsageAnswer
  | unknownArgument
  | missingArgument
  /-- A flag stands there twice. -/
  | repeatedFlag
  /-- A flag has a value attached to it. -/
  | flagWithValue
  /-- The name of the directory or of the command file is empty. -/
  | emptyValue
  | help
  | version
  deriving DecidableEq, Repr

/-- The exit status of an answer. Asking for information is no mistake. -/
def UsageAnswer.code : UsageAnswer → Nat
  | .help | .version => 0
  | _ => 2

/-- The arguments read so far. -/
structure Arguments where
  positional : List String := []
  json : Bool := false
  lax : Bool := false
  /-- Whether a double dash has ended the flags. -/
  onlyPositional : Bool := false
  deriving DecidableEq, Repr

namespace Arguments

/-- An empty name is noticed at the next argument that is recognised, or else at the end. -/
def checked (arguments : Arguments) (next : Except UsageAnswer Arguments) :
    Except UsageAnswer Arguments :=
  if arguments.positional.any (· == "") then .error .emptyValue else next

def readPositional (arguments : Arguments) (value : String) : Except UsageAnswer Arguments :=
  if 2 ≤ arguments.positional.length then .error .unknownArgument
  else arguments.checked (.ok { arguments with positional := arguments.positional ++ [value] })

/-- What a flag does that has this name after its two dashes. -/
def flag? (arguments : Arguments) (name : String) : Option (Except UsageAnswer Arguments) :=
  if name = "json" then
    some (if arguments.json then .error .repeatedFlag else .ok { arguments with json := true })
  else if name = "lax-between" then
    some (if arguments.lax then .error .repeatedFlag else .ok { arguments with lax := true })
  else if name = "help" then some (.error .help)
  else if name = "version" then some (.error .version)
  else none

/-- Reads a flag after its two dashes. No flag takes a value. -/
def readLong (arguments : Arguments) (text : List Char) : Except UsageAnswer Arguments :=
  match arguments.flag? (String.ofList (text.takeWhile (· != '='))) with
  | none => .error .unknownArgument
  | some next => if '=' ∈ text then .error .flagWithValue else arguments.checked next

/-- Reads a cluster of short flags, of which the first one decides. -/
def readShort (arguments : Arguments) (first : Char) : Except UsageAnswer Arguments :=
  if first = 'h' then arguments.checked (.error .help)
  else if first = 'V' then arguments.checked (.error .version)
  else .error .unknownArgument

def read (arguments : Arguments) (argument : String) : Except UsageAnswer Arguments :=
  if arguments.onlyPositional then arguments.readPositional argument
  else
    match argument.toList with
    | ['-', '-'] => .ok { arguments with onlyPositional := true }
    | '-' :: '-' :: text => arguments.readLong text
    | '-' :: first :: _ => arguments.readShort first
    | _ => arguments.readPositional argument

end Arguments

namespace Settings

/-- The settings that the arguments give, where the environment asks for a rule for bounds. -/
def ofArguments (environment : BoundsRule) (args : List String) :
    Except UsageAnswer Settings := do
  let read ← args.foldlM Arguments.read {}
  let arguments ← read.checked (.ok read)
  match arguments.positional with
  | [sourceDirectory, commandFile] =>
    return {
      sourceDirectory
      commandFile
      format := if arguments.json then .json else .human
      rule := if arguments.lax then .lax else environment }
  | _ => throw .missingArgument

end Settings

end FileSelection
