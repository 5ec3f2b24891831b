import FileSelection.Proofs.Run.Report

/-! Logging over any calls on it. A process may initialise its logging any number of times, at
levels of its own or at the one that its environment asks for, and may use it before, between and
after that. Three things are kept: the logger of the process, the one that is installed, and the
level up to which entries are passed on to it. They always agree, since the first initialisation
settles all of them and no later call moves one. -/

namespace FileSelection

open Text.Utf8

namespace Log

/-! ### Levels -/

/-- A level goes by a name, in letters of either case. -/
def Level.GoesBy (level : Level) (text : String) : Prop :=
  text.map Char.toLower = level.name.map Char.toLower

theorem Level.GoesBy.unique {text : String} {level other : Level} (h : level.GoesBy text)
    (hother : other.GoesBy text) : level = other := by
  have hnames : ∀ a ∈ values, ∀ b ∈ values,
      a.name.toList.map Char.toLower = b.name.toList.map Char.toLower → a = b := by decide
  have hmem (level : Level) : level ∈ values := by cases level <;> decide
  have hlower := congrArg String.toList (h.symm.trans hother)
  rw [String.toList_map, String.toList_map] at hlower
  exact hnames level (hmem level) other (hmem other) hlower

theorem Level.ofName?_eq_some_iff {text : String} {level : Level} :
    ofName? text = some level ↔ level.GoesBy text := by
  have hgoes (found : Level) (h : ofName? text = some found) : found.GoesBy text := by
    rw [ofName?] at h
    have hfound := List.find?_some h
    exact (eq_of_beq hfound).symm
  refine ⟨hgoes level, fun h => ?_⟩
  have hmem : level ∈ values := by cases level <;> decide
  have hsome : (ofName? text).isSome := List.find?_isSome.2 ⟨level, hmem, beq_iff_eq.2 h.symm⟩
  obtain ⟨found, hfound⟩ := Option.isSome_iff_exists.1 hsome
  rw [h.unique (hgoes found hfound)]
  exact hfound

/-- The level that the environment asks for, and warnings where it names none. -/
theorem Level.ofVariable_eq_iff {setting : Option String} {level : Level} :
    ofVariable setting = level ↔
      (∃ text, setting = some text ∧ level.GoesBy text) ∨
        (level = .warn ∧ ∀ text, setting = some text → ∀ other : Level, ¬other.GoesBy text) := by
  cases setting with
  | none => simp [ofVariable, eq_comm]
  | some text =>
    cases hname : ofName? text with
    | none =>
      have hnone (other : Level) : ¬other.GoesBy text := fun h => by
        rw [ofName?_eq_some_iff.2 h] at hname
        cases hname
      simp [ofVariable, hname, hnone, eq_comm]
    | some named =>
      have hnamed := ofName?_eq_some_iff.1 hname
      have hlevel : named = level ↔ level.GoesBy text :=
        ⟨fun h => h ▸ hnamed, fun h => hnamed.unique h⟩
      have hsome : ¬∀ other : Level, ¬other.GoesBy text := fun h => h named hnamed
      simp [ofVariable, hname, hlevel, hsome]

/-! ### Calls -/

/-- A call on the logging of a process whose environment has some setting. -/
inductive Call
  | init
  | initWith (level : Level)
  | enabled (level : Level)
  /-- Hands an entry to the installed logger. -/
  | log (time : String) (entry : Entry)
  /-- Hands an entry in where it is passed on to the installed logger, or not. -/
  | submit (time : String) (entry : Entry)
  deriving DecidableEq, Repr

inductive Answer
  | initialised (succeeded : Bool)
  | enabled (answer : Bool)
  | done
  | crashed
  deriving DecidableEq, Repr

namespace Call

/-- The level at which a call initialises. -/
def level? (setting : Option String) : Call → Option Level
  | .init => some (.ofVariable setting)
  | .initWith level => some level
  | .enabled _ | .log _ _ | .submit _ _ => none

/-- The line that a call writes when logging is initialised at a level. -/
def line? (max : Level) : Call → Option String
  | .log time entry | .submit time entry =>
    if entry.level.verbosity ≤ max.verbosity then some (entry.line time) else none
  | .init | .initWith _ | .enabled _ => none

/-- The answer to a call after the first initialisation was at this level, if there was one. -/
def answer (first : Option Level) : Call → Answer
  | .init | .initWith _ => .initialised true
  | .enabled level => .enabled (first.any fun max => level.verbosity ≤ max.verbosity)
  | .log _ _ | .submit _ _ => .done

/-- An initialisation writes nothing. -/
theorem line?_of_level? {setting : Option String} {call : Call} {level : Level}
    (h : call.level? setting = some level) (max : Level) : call.line? max = none := by
  cases call with
  | init | initWith _ => rfl
  | enabled _ | log _ _ | submit _ _ => cases h

end Call

/-- The level of the first initialisation among some calls. -/
def firstLevel? (setting : Option String) (calls : List Call) : Option Level :=
  calls.findSome? (Call.level? setting)

/-- The calls from the first initialisation on. -/
def fromFirst (setting : Option String) (calls : List Call) : List Call :=
  calls.dropWhile fun call => (call.level? setting).isNone

/-- The lines that some calls write. -/
def lines (setting : Option String) (calls : List Call) : List String :=
  match firstLevel? setting calls with
  | none => []
  | some max => (fromFirst setting calls).filterMap (Call.line? max)

/-! ### One call -/

namespace Logger

/-- The logging of a process whose first initialisation was at this level, if there was one. -/
def settled (first : Option Level) : Logger where
  installed := first
  maximum := first
  own := first

theorem tryInitWith_settled (first : Option Level) (level : Level) :
    (settled first).tryInitWith level = (true, settled (first.or (some level))) := by
  cases first <;> rfl

theorem enabled_settled (first : Option Level) (level : Level) :
    (settled first).enabled level = first.any fun max => level.verbosity ≤ max.verbosity := by
  cases first <;> rfl

theorem passes_settled (first : Option Level) (level : Level) :
    (settled first).passes level = first.any fun max => level.verbosity ≤ max.verbosity := by
  cases first <;> rfl

theorem shows_settled (first : Option Level) (level : Level) :
    (settled first).shows level = first.any fun max => level.verbosity ≤ max.verbosity := by
  rw [shows, passes_settled, enabled_settled, Bool.and_self]

end Logger

end Log

namespace Console

variable {σ : Type}

/-- Does something at a time. -/
def loggedAt (c : Console σ) (time : String) (action : Action σ Unit) : Log.Answer × Console σ :=
  match action { c with time } with
  | .ok () c => (.done, c)
  | .error _ c => (.crashed, c)

/-- The answer to a call, and the console after it. -/
def call (c : Console σ) (setting : Option String) : Log.Call → Log.Answer × Console σ
  | .init =>
    let (succeeded, logger) := c.logger.tryInit setting
    (.initialised succeeded, { c with logger })
  | .initWith level =>
    let (succeeded, logger) := c.logger.tryInitWith level
    (.initialised succeeded, { c with logger })
  | .enabled level => (.enabled (c.logger.enabled level), c)
  | .log time entry => c.loggedAt time (Action.log entry)
  | .submit time entry => c.loggedAt time (Action.submit entry)

/-- The console after some calls. -/
def calls (c : Console σ) (setting : Option String) (calls : List Log.Call) : Console σ :=
  calls.foldl (fun c call => (c.call setting call).2) c

variable {c : Console σ} {setting : Option String} {first : Option Log.Level}

/-- A settled logging passes an entry on exactly if the installed logger shows it. -/
theorem submit_eq_log (hlogger : c.logger = .settled first) (entry : Log.Entry) :
    Action.submit entry c = Action.log entry c := by
  rw [Action.submit, Action.log, hlogger, Log.Logger.passes_settled, Log.Logger.enabled_settled]
  split <;> rfl

theorem shown_settled (first : Option Log.Level) (time : String) (entry : Log.Entry) :
    (Log.Logger.settled first).shown time [entry] =
      String.join (first.bind fun max => Log.Call.line? max (.log time entry)).toList := by
  rw [Log.Logger.shown, List.filter_singleton, Log.Logger.shows_settled]
  cases first with
  | none => rfl
  | some max =>
    rw [Option.any_some, Option.bind_some, Log.Call.line?]
    by_cases hshown : entry.level.verbosity ≤ max.verbosity
    · simp [hshown]
    · simp [hshown]

theorem log_of_settled (hlogger : c.logger = .settled first) (hroom : c.err.room = none)
    (time : String) (entry : Log.Entry) :
    c.loggedAt time (Action.log entry) = (.done, { c with
      time
      err := c.err.took (encode (String.join
        (first.bind fun max => Log.Call.line? max (.log time entry)).toList)) }) := by
  have hadmits : ({ c with time } : Console σ).Admits entry.level := .inl hroom
  have hsubmit := submit_eq_log (c := { c with time }) hlogger entry
  rw [loggedAt, ← hsubmit, Action.submit_of_admits hadmits, heard, ← shown_settled, hlogger]

/-- What one call does: it answers by the first level, which only an initialisation can set, and
writes the line of an entry that this level shows. -/
theorem call_of_settled (setting : Option String) (hlogger : c.logger = .settled first)
    (hroom : c.err.room = none) (call : Log.Call) :
    (c.call setting call).1 = call.answer first ∧
      (c.call setting call).2.logger = .settled (first.or (call.level? setting)) ∧
      (c.call setting call).2.err =
        c.err.took (encode (String.join (first.bind fun max => call.line? max).toList)) := by
  have hsilent : c.err = c.err.took (encode (String.join
      (first.bind fun _ => (none : Option String)).toList)) := by
    rw [Option.bind_fun_none]
    exact (Sink.took_nil c.err).symm
  have hkept : Log.Logger.settled first = .settled (first.or none) := by rw [Option.or_none]
  cases call with
  | init =>
    rw [call, Log.Logger.tryInit, hlogger, Log.Logger.tryInitWith_settled]
    exact ⟨rfl, rfl, hsilent⟩
  | initWith level =>
    rw [call, hlogger, Log.Logger.tryInitWith_settled]
    exact ⟨rfl, rfl, hsilent⟩
  | enabled level =>
    rw [call, hlogger, Log.Logger.enabled_settled]
    exact ⟨rfl, hkept, hsilent⟩
  | log time entry =>
    rw [call, log_of_settled hlogger hroom]
    exact ⟨rfl, hlogger.trans hkept, rfl⟩
  | submit time entry =>
    have hsubmit := submit_eq_log (c := { c with time }) hlogger entry
    rw [call, loggedAt, hsubmit, ← loggedAt, log_of_settled hlogger hroom]
    exact ⟨rfl, hlogger.trans hkept, rfl⟩

/-! ### Any calls -/

/-- Once logging is initialised it stays as it is, and the calls write their lines in turn. -/
theorem calls_of_initialised {max : Log.Level} (hlogger : c.logger = .settled (some max))
    (hroom : c.err.room = none) (calls : List Log.Call) :
    (c.calls setting calls).logger = .settled (some max) ∧
      (c.calls setting calls).err =
        c.err.took (encode (String.join (calls.filterMap fun call => call.line? max))) := by
  induction calls generalizing c with
  | nil => exact ⟨hlogger, (Sink.took_nil c.err).symm⟩
  | cons call calls ih =>
    obtain ⟨-, hkept, herr⟩ := call_of_settled setting hlogger hroom call
    obtain ⟨hended, htook⟩ := ih hkept (by rw [herr]; exact Sink.room_took_eq_none hroom _)
    refine ⟨hended, htook.trans ?_⟩
    rw [herr, Sink.took_took, ← encode_append, ← String.join_append, Option.bind_some,
      List.filterMap_cons]
    cases call.line? max <;> rfl

/-- Up to the first initialisation nothing is written, and from it on its level decides. -/
theorem calls_of_fresh (hlogger : c.logger = .settled none) (hroom : c.err.room = none)
    (calls : List Log.Call) :
    (c.calls setting calls).logger = .settled (Log.firstLevel? setting calls) ∧
      (c.calls setting calls).err =
        c.err.took (encode (String.join (Log.lines setting calls))) := by
  induction calls generalizing c with
  | nil => exact ⟨hlogger, (Sink.took_nil c.err).symm⟩
  | cons call calls ih =>
    obtain ⟨-, hkept, herr⟩ := call_of_settled setting hlogger hroom call
    have hsilent : (c.call setting call).2.err = c.err := herr.trans (Sink.took_nil c.err)
    rw [Option.none_or] at hkept
    have hroom' : (c.call setting call).2.err.room = none := by rw [hsilent, hroom]
    cases hlevel : call.level? setting with
    | none =>
      rw [hlevel] at hkept
      have hfirst : Log.firstLevel? setting (call :: calls) = Log.firstLevel? setting calls := by
        rw [Log.firstLevel?, List.findSome?_cons, hlevel]
        rfl
      have hlines : Log.lines setting (call :: calls) = Log.lines setting calls := by
        rw [Log.lines, Log.lines, hfirst, Log.fromFirst, List.dropWhile_cons, hlevel]
        rfl
      rw [hfirst, hlines, ← hsilent]
      exact ih hkept hroom'
    | some max =>
      rw [hlevel] at hkept
      have hfirst : Log.firstLevel? setting (call :: calls) = some max := by
        rw [Log.firstLevel?, List.findSome?_cons, hlevel]
      have hlines : Log.lines setting (call :: calls) =
          calls.filterMap fun call => call.line? max := by
        rw [Log.lines, hfirst, Log.fromFirst, List.dropWhile_cons, hlevel]
        exact List.filterMap_cons_none (Log.Call.line?_of_level? hlevel max)
      rw [hfirst, hlines, ← hsilent]
      exact calls_of_initialised hkept hroom' calls

end Console

/-- The first initialisation fixes the level of a process in which no other logger is installed.
Before it nothing is enabled, nothing is passed on and nothing is written. From it on every
initialisation succeeds and changes nothing, entries are passed on to the installed logger exactly
if it shows them, and the error stream holds the lines of those that the first level shows, in the
order of the calls. Where the environment is to give the level, it does so by the name of a level,
and otherwise the level is that of warnings. -/
theorem first_initialisation_fixes_level {σ : Type} (setting : Option String)
    (calls : List Log.Call) {c : Console σ} (hlogger : c.logger = {}) (hroom : c.err.room = none) :
    let ended := c.calls setting calls
    let first := Log.firstLevel? setting calls
    ended.logger.installed = first ∧
      ended.logger.maximum = first ∧
      (∀ level, ended.logger.enabled level ↔
        ∃ max, first = some max ∧ level.verbosity ≤ max.verbosity) ∧
      (∀ level, ended.logger.passes level = ended.logger.enabled level) ∧
      (∀ call, (ended.call setting call).1 = call.answer first) ∧
      (∀ more, first ≠ none → (ended.calls setting more).logger = ended.logger) ∧
      ended.err.accepted.toList =
        c.err.accepted.toList ++ encode (String.join (Log.lines setting calls)) ∧
      ∀ level, Log.Level.ofVariable setting = level ↔
        (∃ text, setting = some text ∧ level.GoesBy text) ∨
          (level = .warn ∧
            ∀ text, setting = some text → ∀ other : Log.Level, ¬other.GoesBy text) := by
  intro ended first
  obtain ⟨hended, herr⟩ := Console.calls_of_fresh hlogger hroom calls
  have hroom' : ended.err.room = none := by rw [herr]; exact Sink.room_took_eq_none hroom _
  refine ⟨by rw [hended]; rfl, by rw [hended]; rfl, fun level => ?_, fun level => ?_,
    fun call => (Console.call_of_settled setting hended hroom' call).1, fun more hmore => ?_, ?_,
    fun level => Log.Level.ofVariable_eq_iff⟩
  · rw [hended, Log.Logger.enabled_settled, Option.any_eq_true]
    simp only [decide_eq_true_eq]
    rfl
  · rw [hended, Log.Logger.passes_settled, Log.Logger.enabled_settled]
  · obtain ⟨max, hmax⟩ := Option.ne_none_iff_exists'.1 hmore
    have hinitialised : ended.logger = .settled (some max) := hended.trans (congrArg _ hmax)
    rw [(Console.calls_of_initialised hinitialised hroom' more).1, hinitialised]
  · rw [herr, Sink.took_of_room_eq_none hroom]
    simp

/-- Entries before and after two initialisations, of which the environment gives the first its
level. -/
def Log.mixedCalls : List Log.Call :=
  [.submit "t0" ⟨.error, "m", "lost"⟩, .init, .log "t1" ⟨.info, "m", "kept"⟩, .initWith .trace,
    .log "t2" ⟨.debug, "m", "dropped"⟩]

theorem first_initialisation_fixes_level_info :
    (({ out := {}, err := {} } : Console Sink).calls (some "info")
        Log.mixedCalls).logger.installed = some .info ∧
      (({ out := {}, err := {} } : Console Sink).calls (some "info")
        Log.mixedCalls).err.accepted.toList = encode "t1 INFO [m] kept\n" := by
  have hinfo : Log.Level.info.GoesBy "info" := by
    apply String.toList_injective
    rw [String.toList_map, String.toList_map]
    decide
  obtain ⟨hinstalled, -, -, -, -, -, hwritten, hlevel⟩ :=
    @first_initialisation_fixes_level Sink (some "info") Log.mixedCalls { out := {}, err := {} }
      rfl rfl
  have hfirst : Log.firstLevel? (some "info") Log.mixedCalls = some .info :=
    congrArg some ((hlevel .info).2 (.inl ⟨"info", rfl, hinfo⟩))
  have hlines : Log.lines (some "info") Log.mixedCalls = ["t1 INFO [m] kept\n"] := by
    rw [Log.lines, hfirst]
    decide
  rw [hlines] at hwritten
  exact ⟨hinstalled.trans hfirst, hwritten⟩

end FileSelection
