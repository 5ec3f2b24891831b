import FileSelection.CommandFile.DirectiveLines
import FileSelection.CommandFile.Lines
import FileSelection.CommandFile.Section
import FileSelection.Log

/-! Reading the sections of a command file, one at a time. The reader takes a line only when it
needs one, so the first wrong line decides the error. An error or the end of the file finishes the
reader: from then on it reports the end and stays as it is. -/

namespace FileSelection

/-- A section of which the filter line has been read. -/
structure Draft where
  selector : Selector
  warnings : List Warning
  deriving DecidableEq, Repr

/-- Where a reader is in the command file. -/
inductive Phase
  /-- Between sections. -/
  | ready
  | awaitingFilterName
  | awaitingOrderHeader (draft : Draft)
  | awaitingOrderName (draft : Draft)
  /-- The file ended between sections. -/
  | exhausted
  /-- An error ended the reading. -/
  | fatal
  deriving DecidableEq, Repr

/-- What a line, or the end of the file, means where it is read. -/
inductive Move
  | enter (phase : Phase) (warnings : List Warning)
  | complete (s : Section) (warnings : List Warning)
  | finish
  | reject (fault : LayoutFault)
  deriving DecidableEq, Repr

namespace Phase

def filterHeader : String := "FILTER"

def orderHeader : String := "ORDER"

/-- The number of lines up to the end of the section that is being read. -/
def linesLeft : Phase → Nat
  | .ready => 4
  | .awaitingFilterName => 3
  | .awaitingOrderHeader _ => 2
  | .awaitingOrderName _ => 1
  | .exhausted | .fatal => 0

def isFinished (phase : Phase) : Bool := phase.linesLeft = 0

/-- The value of a directive, or the default and a warning. -/
def orDefault {α : Type} (default : α) (line : Nat) : Except Rejection α → α × List Warning
  | .ok value => (value, [])
  | .error rejection => (default, [{ line, rejection }])

/-- Reads line number `line`, whose text is `some text`, or the end of the file after it. A move
carries the warnings that this line gives. -/
def onLine (rule : BoundsRule) (line : Nat) : Phase → Option String → Move
  | .ready, none => .finish
  | .ready, some text =>
    if text = filterHeader then .enter .awaitingFilterName []
    else .reject (.missingFilterHeader text)
  | .awaitingFilterName, none => .reject .missingFilterDirective
  | .awaitingFilterName, some text =>
    let (selector, warnings) := orDefault Selector.all line (Selector.ofLine rule text)
    .enter (.awaitingOrderHeader { selector, warnings }) warnings
  | .awaitingOrderHeader draft, found =>
    if found = some orderHeader then .enter (.awaitingOrderName draft) []
    else .reject (.missingOrderHeader found)
  | .awaitingOrderName _, none => .reject .missingOrderDirective
  | .awaitingOrderName draft, some text =>
    let (ranking, warnings) := orDefault Ranking.ascendingPath line (Ranking.ofLine text)
    .complete { selector := draft.selector, ranking, warnings := draft.warnings ++ warnings }
      warnings
  | .exhausted, _ | .fatal, _ => .finish

/-- The end of the file completes nothing. -/
theorem onLine_none (rule : BoundsRule) (line : Nat) (phase : Phase) :
    phase.onLine rule line none = .finish ∨
      ∃ fault, phase.onLine rule line none = .reject fault := by
  cases phase <;> simp [onLine]

end Phase

structure CommandReader where
  input : ByteStream
  rule : BoundsRule
  /-- The number of lines read. -/
  line : Nat := 0
  phase : Phase := .ready
  deriving DecidableEq, Repr

/-- The outcome of a call: a section, the end or an error, the reader after it, and what the call
wrote to the log. -/
structure Reading where
  result : Except ReadError (Option Section)
  reader : CommandReader
  journal : List Log.Entry

namespace CommandReader

def isFinished (r : CommandReader) : Bool := r.phase.isFinished

def logEntry (message : String) : Log.Entry :=
  { level := .debug, target := "sieve_engine::section", message := "[section] " ++ message }

/-- The next line, and the reader after it; `none` at the end of the file. -/
def readLine (r : CommandReader) : Except IoError (Option String × CommandReader) :=
  r.input.nextLine.map fun
    | none => (none, r)
    | some (text, rest) => (some text, { r with input := rest, line := r.line + 1 })

def stop (r : CommandReader) (error : ReadError) : Reading where
  result := .error error
  reader := { r with phase := .fatal }
  journal := [logEntry s!"fatal at line {error.line}: {error.message}"]

/-- Reads at most that many lines, up to the end of a section. -/
def readLines : Nat → CommandReader → Reading
  | 0, r => { result := .ok none, reader := r, journal := [] }
  | n + 1, r =>
    match r.readLine with
    | .error cause => r.stop (.unreadable r.line cause)
    | .ok (found, r) =>
      match r.phase.onLine r.rule r.line found with
      | .enter phase warnings =>
        let entries := warnings.map fun w => logEntry s!"line {w.line}: filter falls back to all"
        let rest := readLines n { r with phase }
        { rest with journal := entries ++ rest.journal }
      | .complete s warnings =>
        let entries := warnings.map fun w => logEntry s!"line {w.line}: order falls back to abs"
        { result := .ok (some s), reader := { r with phase := .ready }, journal := entries }
      | .finish =>
        { result := .ok none, reader := { r with phase := .exhausted },
          journal := [logEntry s!"end of input after {r.line} lines"] }
      | .reject fault => r.stop (.layout r.line fault)

/-- The next section, or `none` at the end. -/
def next (r : CommandReader) : Reading := readLines r.phase.linesLeft r

theorem length_lt_of_readLine {r rest : CommandReader} {text : String}
    (h : r.readLine = .ok (some text, rest)) : rest.input.bytes.length < r.input.bytes.length := by
  unfold readLine at h
  cases hline : r.input.nextLine with
  | error _ => rw [hline] at h; cases h
  | ok line =>
    rw [hline] at h
    cases line with
    | none => cases h
    | some line => cases h; exact ByteStream.length_lt_of_nextLine hline

/-- A section takes up some of the input. -/
theorem length_lt_of_readLines {n : Nat} {r : CommandReader} {s : Section}
    (h : (readLines n r).result = .ok (some s)) :
    (readLines n r).reader.input.bytes.length < r.input.bytes.length := by
  induction n generalizing r with
  | zero => simp [readLines] at h
  | succ n ih =>
    cases hline : r.readLine with
    | error _ => simp [readLines, hline, stop] at h
    | ok read =>
      obtain ⟨found, rest⟩ := read
      cases found with
      | none =>
        rcases Phase.onLine_none rest.rule rest.line rest.phase with hm | ⟨_, hm⟩ <;>
          simp [readLines, hline, hm, stop] at h
      | some text =>
        have hlt := length_lt_of_readLine hline
        cases hm : rest.phase.onLine rest.rule rest.line (some text) with
        | enter phase _ =>
          simp only [readLines, hline, hm] at h ⊢
          exact Nat.lt_trans (ih h) hlt
        | complete _ _ => simpa only [readLines, hline, hm] using hlt
        | finish => simp [readLines, hline, hm] at h
        | reject _ => simp [readLines, hline, hm, stop] at h

/-- The calls up to the end or an error, in order. -/
def readAll (r : CommandReader) : List Reading :=
  let reading := r.next
  match _h : reading.result with
  | .ok (some _) => reading :: readAll reading.reader
  | _ => [reading]
termination_by r.input.bytes.length
decreasing_by exact length_lt_of_readLines _h

/-- The sections up to the end, or up to an error and the error. -/
def items (r : CommandReader) : List (Except ReadError Section) :=
  r.readAll.filterMap fun reading =>
    match reading.result with
    | .ok found => found.map .ok
    | .error error => some (.error error)

/-- The reader when nothing is left to read. -/
def drained (r : CommandReader) : CommandReader :=
  match r.readAll.getLast? with
  | some reading => reading.reader
  | none => r

end CommandReader

end FileSelection
