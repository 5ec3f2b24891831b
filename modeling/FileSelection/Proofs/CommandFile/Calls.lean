import FileSelection.Proofs.CommandFile.Layout

/-! Calls on a reader, in any number and order. The sections of a file can be read one by one, as
results or as items of an iterator, or all that are left at once, and the reader can be looked at in
between. Every call comes to a number of readings of one section each, so what one reading keeps,
any calls keep; and each section takes four lines, so the readings come to an end. -/

namespace FileSelection.CommandReader

/-! ### Calls and answers -/

/-- A call on a reader. The last two only look at it. -/
inductive Call
  /-- Reads the next section. -/
  | nextSection
  /-- Reads the next section as an item of an iterator. -/
  | nextItem
  /-- Takes items until there are no more. -/
  | collect
  | line
  | phase
  deriving DecidableEq, Repr

inductive Answer
  | reading (result : Except ReadError (Option Section))
  | item (item : Option (Except ReadError Section))
  | collected (items : List (Except ReadError Section))
  | line (line : ℕ)
  | phase (phase : Phase)

/-- A result as an item of an iterator, which ends where there is no item. -/
def item? : Except ReadError (Option Section) → Option (Except ReadError Section)
  | .ok found => found.map .ok
  | .error error => some (.error error)

/-- The result that an item stands for. -/
def resultOf : Option (Except ReadError Section) → Except ReadError (Option Section)
  | none => .ok none
  | some (.ok s) => .ok (some s)
  | some (.error error) => .error error

namespace Answer

/-- The sections and errors in an answer. -/
def items : Answer → List (Except ReadError Section)
  | .reading result => (item? result).toList
  | .item found => found.toList
  | .collected items => items
  | .line _ | .phase _ => []

/-- What the last reading of a call came to, if the call read. Taking all items ends with an error
or with the end. -/
def outcome? : Answer → Option (Except ReadError (Option Section))
  | .reading result => some result
  | .item found => some (resultOf found)
  | .collected items =>
    match items.getLast? with
    | some (.error error) => some (.error error)
    | _ => some (.ok none)
  | .line _ | .phase _ => none

end Answer

/-- The answer to a call, and the reader after it. -/
def call (r : CommandReader) : Call → Answer × CommandReader
  | .nextSection => (.reading r.next.result, r.next.reader)
  | .nextItem => (.item (item? r.next.result), r.next.reader)
  | .collect => (.collected r.items, r.drained)
  | .line => (.line r.line, r)
  | .phase => (.phase r.phase, r)

/-- The answer of a reader that has finished. -/
def Call.atEnd (r : CommandReader) : Call → Answer
  | .nextSection => .reading (.ok none)
  | .nextItem => .item none
  | .collect => .collected []
  | .line => .line r.line
  | .phase => .phase r.phase

/-- The reader after some calls. -/
def after (r : CommandReader) : List Call → CommandReader
  | [] => r
  | call :: calls => (r.call call).2.after calls

/-- The sections and errors that some calls return, in order. -/
def returned (r : CommandReader) : List Call → List (Except ReadError Section)
  | [] => []
  | call :: calls => (r.call call).1.items ++ (r.call call).2.returned calls

variable {r : CommandReader} {before calls : List Call}

theorem after_append (r : CommandReader) (before calls : List Call) :
    r.after (before ++ calls) = (r.after before).after calls := by
  induction before generalizing r with
  | nil => rfl
  | cons call before ih => exact ih _

theorem returned_append (r : CommandReader) (before calls : List Call) :
    r.returned (before ++ calls) = r.returned before ++ (r.after before).returned calls := by
  induction before generalizing r with
  | nil => rfl
  | cons call before ih =>
    rw [List.cons_append, returned, returned, after, ih, List.append_assoc]

@[simp] theorem resultOf_item? (result : Except ReadError (Option Section)) :
    resultOf (item? result) = result := by
  match result with
  | .ok none | .ok (some _) | .error _ => rfl

/-! ### One reading -/

/-- The number of lines that are left and can be read. -/
def linesAhead (r : CommandReader) : ℕ := r.input.reads.countP (·.isOk)

theorem isFinished_iff : r.isFinished ↔ r.phase = .exhausted ∨ r.phase = .fatal := by
  cases hphase : r.phase <;> simp [isFinished, Phase.isFinished, Phase.linesLeft, hphase]

theorem next_of_isFinished (h : r.isFinished) :
    r.next = { result := .ok none, reader := r, journal := [] } := by
  have hleft : r.phase.linesLeft = 0 := by simpa [isFinished, Phase.isFinished] using h
  rw [next, hleft, readLines]

theorem FirstFault.le_line {before : ℕ} {lines : List (Except IoError String)} {error : ReadError}
    (h : FirstFault before lines error) : before ≤ error.line := by
  cases h <;> simp [ReadError.line]

/-- Reading from between two sections takes the four lines of a section, or ends. -/
theorem next_of_ready (h : r.phase = .ready) :
    (∃ s, r.next.result = .ok (some s) ∧ r.next.reader.phase = .ready ∧
        r.next.reader.line = r.line + 4 ∧ r.linesAhead = r.next.reader.linesAhead + 4) ∨
      (r.next.result = .ok none ∧ r.next.reader = { r with phase := .exhausted }) ∨
      ∃ error, r.next.result = .error error ∧ r.next.reader.phase = .fatal ∧
        r.line ≤ r.next.reader.line := by
  rcases nil_or_fault_or_group r.line r.input.reads with
    hnil | ⟨error, hfault⟩ | ⟨f, o, rest, hgroup⟩
  · exact .inr (.inl (next_of_nil h hnil))
  · obtain ⟨hresult, hline, hphase⟩ := stopsWith_of_fault h hfault
    exact .inr (.inr ⟨error, hresult, hphase, hline ▸ FirstFault.le_line hfault⟩)
  · obtain ⟨hresult, hreads, -, hline, hphase⟩ := next_of_group h hgroup
    refine .inl ⟨_, hresult, hphase, hline, ?_⟩
    rw [linesAhead, linesAhead, hreads, hgroup]
    simp [Except.isOk, Except.toBool]

/-! ### Finished readers -/

theorem items_of_isFinished (h : r.isFinished) : r.items = [] :=
  items_of_end (by rw [next_of_isFinished h])

theorem drained_of_isFinished (h : r.isFinished) : r.drained = r := by
  rw [drained_of_end (by rw [next_of_isFinished h]), next_of_isFinished h]

/-- A call on a finished reader gets the end and changes nothing. -/
theorem call_of_isFinished (h : r.isFinished) (call : Call) : r.call call = (call.atEnd r, r) := by
  cases call with
  | nextSection => rw [CommandReader.call, next_of_isFinished h]; rfl
  | nextItem => rw [CommandReader.call, next_of_isFinished h]; rfl
  | collect => rw [CommandReader.call, items_of_isFinished h, drained_of_isFinished h]; rfl
  | line | phase => rfl

theorem items_atEnd (call : Call) (r : CommandReader) : (call.atEnd r).items = [] := by
  cases call <;> rfl

theorem after_of_isFinished (h : r.isFinished) (calls : List Call) :
    r.after calls = r ∧ r.returned calls = [] := by
  induction calls with
  | nil => exact ⟨rfl, rfl⟩
  | cons call calls ih =>
    rw [after, returned, call_of_isFinished h, items_atEnd]
    exact ih

/-! ### Runs of single readings -/

/-- Not inside a section. -/
def AtRest (r : CommandReader) : Prop := r.phase = .ready ∨ r.isFinished

/-- The outcomes of one reading. -/
theorem AtRest.next_cases (h : r.AtRest) :
    (∃ s, r.next.result = .ok (some s) ∧ r.next.reader.phase = .ready ∧
        r.line ≤ r.next.reader.line ∧ r.linesAhead = r.next.reader.linesAhead + 4) ∨
      (r.next.result = .ok none ∧ r.next.reader.isFinished ∧ r.line ≤ r.next.reader.line) ∨
      ∃ error, r.next.result = .error error ∧ r.next.reader.isFinished ∧
        r.line ≤ r.next.reader.line := by
  rcases h with hready | hfinished
  · rcases next_of_ready hready with ⟨s, hresult, hphase, hline, hlines⟩ | ⟨hresult, hreader⟩ |
      ⟨error, hresult, hphase, hline⟩
    · exact .inl ⟨s, hresult, hphase, by omega, hlines⟩
    · refine .inr (.inl ⟨hresult, ?_⟩)
      rw [hreader]
      exact ⟨isFinished_iff.2 (.inl rfl), Nat.le_refl _⟩
    · exact .inr (.inr ⟨error, hresult, isFinished_iff.2 (.inr hphase), hline⟩)
  · rw [next_of_isFinished hfinished]
    exact .inr (.inl ⟨rfl, hfinished, Nat.le_refl _⟩)

theorem AtRest.next (h : r.AtRest) : r.next.reader.AtRest := by
  rcases h.next_cases with ⟨_, -, hphase, -⟩ | ⟨-, hfinished, -⟩ | ⟨_, -, hfinished, -⟩
  · exact .inl hphase
  · exact .inr hfinished
  · exact .inr hfinished

/-- A reading that is no section leaves the reader finished. -/
theorem isFinished_next (h : r.AtRest) (hresult : ∀ s, r.next.result ≠ .ok (some s)) :
    r.next.reader.isFinished := by
  rcases h.next_cases with ⟨s, hsection, -⟩ | ⟨-, hfinished, -⟩ | ⟨_, -, hfinished, -⟩
  · exact absurd hsection (hresult s)
  · exact hfinished
  · exact hfinished

theorem line_le_next (h : r.AtRest) : r.line ≤ r.next.reader.line := by
  rcases h.next_cases with ⟨_, -, -, hline, -⟩ | ⟨-, -, hline⟩ | ⟨_, -, -, hline⟩ <;> exact hline

/-- A reading that gives a section leaves the reader ready. -/
theorem phase_of_section (h : r.AtRest) {s : Section} (hresult : r.next.result = .ok (some s)) :
    r.next.reader.phase = .ready := by
  rcases h.next_cases with ⟨_, -, hphase, -⟩ | ⟨hend, -⟩ | ⟨_, herror, -⟩
  · exact hphase
  · rw [hend] at hresult; cases hresult
  · rw [herror] at hresult; cases hresult

/-- The calls that read one section. -/
def Call.IsSingle (call : Call) : Prop := call = .nextSection ∨ call = .nextItem

theorem call_of_isSingle {call : Call} (h : call.IsSingle) (r : CommandReader) :
    (r.call call).1.items = (item? r.next.result).toList ∧ (r.call call).2 = r.next.reader := by
  rcases h with rfl | rfl <;> exact ⟨rfl, rfl⟩

/-- Single readings up to the end return all items, and leave the reader drained. -/
theorem drained_of_singles (h : r.AtRest) (hcalls : ∀ call ∈ calls, call.IsSingle)
    (hend : (r.after calls).isFinished) :
    r.returned calls = r.items ∧ r.after calls = r.drained := by
  induction calls generalizing r with
  | nil => exact ⟨(items_of_isFinished hend).symm, (drained_of_isFinished hend).symm⟩
  | cons call calls ih =>
    obtain ⟨hcall, hrest⟩ := List.forall_mem_cons.1 hcalls
    obtain ⟨hitems, hreader⟩ := call_of_isSingle hcall r
    rw [after, hreader] at hend
    rw [after, returned, hitems, hreader]
    match hresult : r.next.result with
    | .ok (some s) =>
      obtain ⟨hreturned, hafter⟩ := ih h.next hrest hend
      rw [items_of_section hresult, drained_of_section hresult, hreturned, hafter]
      exact ⟨rfl, rfl⟩
    | .ok none =>
      have hfinished := isFinished_next h (by simp [hresult])
      obtain ⟨hafter, hreturned⟩ := after_of_isFinished hfinished calls
      rw [items_of_end hresult, drained_of_end hresult, hreturned, hafter]
      exact ⟨rfl, rfl⟩
    | .error error =>
      have hfinished := isFinished_next h (by simp [hresult])
      obtain ⟨hafter, hreturned⟩ := after_of_isFinished hfinished calls
      rw [items_of_error hresult, drained_of_error hresult, hreturned, hafter]
      exact ⟨rfl, rfl⟩

/-- Each section takes four lines, so reading comes to an end. -/
theorem isFinished_after_replicate {n : ℕ} (h : r.AtRest) (hn : r.linesAhead < 4 * n) :
    (r.after (List.replicate n .nextItem)).isFinished := by
  induction n generalizing r with
  | zero => exact absurd hn (Nat.not_lt_zero _)
  | succ n ih =>
    rw [List.replicate_succ, after, (call_of_isSingle (.inr rfl) r).2]
    rcases h.next_cases with ⟨_, -, -, -, hlines⟩ | ⟨-, hfinished, -⟩ | ⟨_, -, hfinished, -⟩
    · exact ih h.next (by omega)
    · rwa [(after_of_isFinished hfinished _).1]
    · rwa [(after_of_isFinished hfinished _).1]

theorem isSingle_of_mem_replicate {n : ℕ} {call : Call}
    (h : call ∈ List.replicate n Call.nextItem) : call.IsSingle :=
  .inr (List.eq_of_mem_replicate h)

/-- Taking all items is a run of single readings up to the end. -/
theorem exists_drain (h : r.AtRest) :
    ∃ n, r.returned (List.replicate n .nextItem) = r.items ∧
      r.after (List.replicate n .nextItem) = r.drained ∧ r.drained.isFinished := by
  have hend := isFinished_after_replicate (n := r.linesAhead / 4 + 1) h (by omega)
  obtain ⟨hreturned, hafter⟩ :=
    drained_of_singles h (fun _ hmem => isSingle_of_mem_replicate hmem) hend
  exact ⟨_, hreturned, hafter, hafter ▸ hend⟩

/-- Every call is a run of single readings. -/
theorem exists_run (h : r.AtRest) (call : Call) :
    ∃ n, (r.call call).1.items = r.returned (List.replicate n .nextItem) ∧
      (r.call call).2 = r.after (List.replicate n .nextItem) := by
  cases call with
  | nextSection | nextItem => exact ⟨1, (List.append_nil _).symm, rfl⟩
  | collect =>
    obtain ⟨n, hreturned, hafter, -⟩ := exists_drain h
    exact ⟨n, hreturned.symm, hafter.symm⟩
  | line | phase => exact ⟨0, rfl, rfl⟩

/-! ### What any calls keep -/

section Keeps

variable {P : List (Except ReadError Section) → CommandReader → Prop}
  {items : List (Except ReadError Section)}

/-- What one reading keeps of the items so far and the reader, every call keeps. -/
theorem keeps_call (hrest : ∀ items r, P items r → r.AtRest)
    (hnext : ∀ items r, P items r → P (items ++ (item? r.next.result).toList) r.next.reader)
    (h : P items r) (call : Call) : P (items ++ (r.call call).1.items) (r.call call).2 := by
  obtain ⟨n, hitems, hreader⟩ := exists_run (hrest _ _ h) call
  rw [hitems, hreader]
  clear hitems hreader
  induction n generalizing items r with
  | zero => exact (List.append_nil items).symm ▸ h
  | succ n ih =>
    rw [List.replicate_succ, after, returned, ← List.append_assoc]
    exact ih (hnext _ _ h)

theorem keeps_after (hrest : ∀ items r, P items r → r.AtRest)
    (hnext : ∀ items r, P items r → P (items ++ (item? r.next.result).toList) r.next.reader)
    (h : P items r) (calls : List Call) : P (items ++ r.returned calls) (r.after calls) := by
  induction calls generalizing items r with
  | nil => exact (List.append_nil items).symm ▸ h
  | cons call calls ih =>
    rw [after, returned, ← List.append_assoc]
    exact ih (keeps_call hrest hnext h call)

end Keeps

theorem line_le_call (h : r.AtRest) (call : Call) : r.line ≤ (r.call call).2.line := by
  obtain ⟨n, -, hreader⟩ := exists_run h call
  rw [hreader]
  clear hreader
  induction n generalizing r with
  | zero => exact Nat.le_refl _
  | succ n ih => exact (line_le_next h).trans (ih h.next)

end FileSelection.CommandReader
