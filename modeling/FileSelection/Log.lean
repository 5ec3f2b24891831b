/-! Log entries and the logger that decides which of them are shown. The first initialisation makes
the logger of the process; before it nothing is shown. -/

namespace FileSelection.Log

inductive Level
  | error
  | warn
  | info
  | debug
  | trace
  deriving DecidableEq, Repr

namespace Level

def values : List Level := [.error, .warn, .info, .debug, .trace]

def name : Level → String
  | .error => "ERROR"
  | .warn => "WARN"
  | .info => "INFO"
  | .debug => "DEBUG"
  | .trace => "TRACE"

/-- How much a level lets through, from errors alone to everything. -/
def verbosity : Level → Nat
  | .error => 1
  | .warn => 2
  | .info => 3
  | .debug => 4
  | .trace => 5

/-- The level of that name, in letters of either case. -/
def ofName? (text : String) : Option Level :=
  values.find? fun level => level.name.map Char.toLower == text.map Char.toLower

/-- The level asked for by the environment: warnings, unless the variable names another one. -/
def ofVariable (value : Option String) : Level := (value.bind ofName?).getD .warn

end Level

structure Entry where
  level : Level
  /-- The part of the program that speaks. -/
  target : String
  message : String
  deriving DecidableEq, Repr

/-- The line of an entry, after the time at which it was made. -/
def Entry.line (time : String) (e : Entry) : String :=
  s!"{time} {e.level.name} [{e.target}] {e.message}\n"

/-- The logging of a process. The first initialisation makes the process's own logger and offers it
for installation; which logger is installed, and up to which level entries are passed on to it, is
kept apart from that. -/
structure Logger where
  /-- The logger that takes the entries, by its level. -/
  installed : Option Level := none
  /-- The level up to which entries are passed on to it. -/
  maximum : Option Level := none
  /-- The process's own logger, once it is made. -/
  own : Option Level := none
  deriving DecidableEq, Repr

namespace Logger

/-- Initialises logging at a level. The answer is whether that succeeds: the one call that makes
the own logger is refused if another logger is installed. -/
def tryInitWith (logger : Logger) (level : Level) : Bool × Logger :=
  match logger.own, logger.installed with
  | some _, _ => (true, logger)
  | none, some _ => (false, { logger with own := some level })
  | none, none => (true, { installed := some level, maximum := some level, own := some level })

/-- Initialises logging at the level that the environment asks for. -/
def tryInit (logger : Logger) (setting : Option String) : Bool × Logger :=
  logger.tryInitWith (.ofVariable setting)

def initWith (logger : Logger) (level : Level) : Logger := (logger.tryInitWith level).2

def init (logger : Logger) (setting : Option String) : Logger :=
  logger.initWith (.ofVariable setting)

/-- Whether the installed logger shows entries of a level. -/
def enabled (logger : Logger) (level : Level) : Bool :=
  match logger.installed with
  | some max => level.verbosity ≤ max.verbosity
  | none => false

/-- Whether entries of a level are passed on to the installed logger. -/
def passes (logger : Logger) (level : Level) : Bool :=
  match logger.maximum with
  | some max => level.verbosity ≤ max.verbosity
  | none => false

end Logger

end FileSelection.Log
