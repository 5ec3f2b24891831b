import FileSelection.CommandFile.Reader
import FileSelection.Proofs.CommandFile.LineReading

/-! Calls of a reader in terms of the lines that are left. A call takes one line after the other,
and each line moves the reader to its next phase; the lemmas here say what one line does to a call,
and what one call does to the calls after it. -/

namespace FileSelection.CommandReader

open ByteStream

variable {r : CommandReader} {n : ℕ} {text : String} {rest : List (Except IoError String)}

/-- The reader after one more line. -/
def advance (r : CommandReader) : CommandReader :=
  { r with input := r.input.afterLine, line := r.line + 1 }

@[simp] theorem advance_line (r : CommandReader) : r.advance.line = r.line + 1 := rfl

@[simp] theorem advance_rule (r : CommandReader) : r.advance.rule = r.rule := rfl

@[simp] theorem advance_phase (r : CommandReader) : r.advance.phase = r.phase := rfl

theorem reads_advance (h : r.input.reads = .ok text :: rest) : r.advance.input.reads = rest :=
  reads_afterLine h

theorem readLine_of_nil (h : r.input.reads = []) : r.readLine = .ok (none, r) := by
  rw [readLine, nextLine_eq, h]
  rfl

theorem readLine_of_ok (h : r.input.reads = .ok text :: rest) :
    r.readLine = .ok (some text, r.advance) := by
  rw [readLine, nextLine_eq, h]
  rfl

theorem readLine_of_error {cause : IoError} (h : r.input.reads = .error cause :: rest) :
    r.readLine = .error cause := by
  rw [readLine, nextLine_eq, h]
  rfl

/-! ### One line of a call -/

/-- A line in its place leads on to the next one. -/
theorem readLines_enter {phase : Phase} {warnings : List Warning}
    (h : r.input.reads = .ok text :: rest)
    (hm : r.phase.onLine r.rule (r.line + 1) (some text) = .enter phase warnings) :
    (readLines (n + 1) r).result = (readLines n { r.advance with phase }).result ∧
      (readLines (n + 1) r).reader = (readLines n { r.advance with phase }).reader := by
  simp only [readLines, readLine_of_ok h, advance_line, advance_rule, advance_phase, hm, and_self]

/-- The last line of a section completes it. -/
theorem readLines_complete {s : Section} {warnings : List Warning}
    (h : r.input.reads = .ok text :: rest)
    (hm : r.phase.onLine r.rule (r.line + 1) (some text) = .complete s warnings) :
    (readLines (n + 1) r).result = .ok (some s) ∧
      (readLines (n + 1) r).reader = { r.advance with phase := .ready } := by
  simp only [readLines, readLine_of_ok h, advance_line, advance_rule, advance_phase, hm, and_self]

/-- A line out of its place stops the reader, with its number. -/
theorem readLines_reject {fault : LayoutFault} (h : r.input.reads = .ok text :: rest)
    (hm : r.phase.onLine r.rule (r.line + 1) (some text) = .reject fault) :
    (readLines (n + 1) r).result = .error (.layout (r.line + 1) fault) ∧
      (readLines (n + 1) r).reader = { r.advance with phase := .fatal } := by
  simp only [readLines, readLine_of_ok h, advance_line, advance_rule, advance_phase, hm, stop,
    and_self]

/-- The end of the file inside a section stops the reader, with the number of lines. -/
theorem readLines_reject_end {fault : LayoutFault} (h : r.input.reads = [])
    (hm : r.phase.onLine r.rule r.line none = .reject fault) :
    (readLines (n + 1) r).result = .error (.layout r.line fault) ∧
      (readLines (n + 1) r).reader = { r with phase := .fatal } := by
  simp only [readLines, readLine_of_nil h, hm, stop, and_self]

/-- The end of the file between sections is the end of the reading. -/
theorem readLines_finish (h : r.input.reads = [])
    (hm : r.phase.onLine r.rule r.line none = .finish) :
    (readLines (n + 1) r).result = .ok none ∧
      (readLines (n + 1) r).reader = { r with phase := .exhausted } := by
  simp only [readLines, readLine_of_nil h, hm, and_self]

/-- A line that cannot be read stops the reader in any phase, with the number of lines before. -/
theorem readLines_unreadable {cause : IoError} (h : r.input.reads = .error cause :: rest) :
    (readLines (n + 1) r).result = .error (.unreadable r.line cause) ∧
      (readLines (n + 1) r).reader = { r with phase := .fatal } := by
  simp only [readLines, readLine_of_error h, stop, and_self]

/-- A call speaks to the log at the debug level only. -/
theorem level_of_mem_journal {entry : Log.Entry} (h : entry ∈ (readLines n r).journal) :
    entry.level = .debug := by
  induction n generalizing r with
  | zero => simp [readLines] at h
  | succ n ih =>
    unfold readLines at h
    split at h
    · rw [List.mem_singleton.1 h]
      rfl
    · next found r' _ =>
      split at h
      · rcases List.mem_append.1 h with hmem | hmem
        · obtain ⟨_, -, rfl⟩ := List.mem_map.1 hmem
          rfl
        · exact ih hmem
      · obtain ⟨_, -, rfl⟩ := List.mem_map.1 h
        rfl
      · rw [List.mem_singleton.1 h]
        rfl
      · rw [List.mem_singleton.1 h]
        rfl

/-! ### All calls -/

theorem exists_next_of_mem_readAll {reading : Reading} (h : reading ∈ r.readAll) :
    ∃ r' : CommandReader, reading = r'.next := by
  fun_induction readAll r with
  | case1 r current s _ ih =>
    rcases List.mem_cons.1 h with rfl | hmem
    · exact ⟨r, rfl⟩
    · exact ih hmem
  | case2 r current _ => exact ⟨r, List.mem_singleton.1 h⟩

theorem readAll_of_section {s : Section} (h : r.next.result = .ok (some s)) :
    r.readAll = r.next :: r.next.reader.readAll := by
  rw [readAll]
  split
  · rfl
  · next hother => exact absurd h (hother s)

theorem readAll_of_end (h : r.next.result = .ok none) : r.readAll = [r.next] := by
  rw [readAll]
  split
  · next heq => rw [h] at heq; cases heq
  · rfl

theorem readAll_of_error {error : ReadError} (h : r.next.result = .error error) :
    r.readAll = [r.next] := by
  rw [readAll]
  split
  · next heq => rw [h] at heq; cases heq
  · rfl

theorem readAll_ne_nil (r : CommandReader) : r.readAll ≠ [] := by
  rw [readAll]
  split <;> exact List.cons_ne_nil _ _

theorem items_of_section {s : Section} (h : r.next.result = .ok (some s)) :
    r.items = .ok s :: r.next.reader.items := by
  rw [items, readAll_of_section h, List.filterMap_cons, h]
  rfl

theorem items_of_end (h : r.next.result = .ok none) : r.items = [] := by
  rw [items, readAll_of_end h, List.filterMap_cons, h]
  rfl

theorem items_of_error {error : ReadError} (h : r.next.result = .error error) :
    r.items = [.error error] := by
  rw [items, readAll_of_error h, List.filterMap_cons, h]
  rfl

theorem drained_of_section {s : Section} (h : r.next.result = .ok (some s)) :
    r.drained = r.next.reader.drained := by
  obtain ⟨first, others, hall⟩ := List.exists_cons_of_ne_nil (readAll_ne_nil r.next.reader)
  rw [drained, readAll_of_section h, drained, hall, List.getLast?_cons_cons,
    List.getLast?_eq_some_getLast (List.cons_ne_nil first others)]

theorem drained_of_end (h : r.next.result = .ok none) : r.drained = r.next.reader := by
  rw [drained, readAll_of_end h]
  rfl

theorem drained_of_error {error : ReadError} (h : r.next.result = .error error) :
    r.drained = r.next.reader := by
  rw [drained, readAll_of_error h]
  rfl

end FileSelection.CommandReader
