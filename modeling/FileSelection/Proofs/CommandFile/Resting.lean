import FileSelection.Proofs.CommandFile.Calls

/-! Where a reader rests. Between two calls it is never inside a section: it is ready, with four
lines behind it for each section that it has returned, or it has finished and changes no more. The
main statement says so of any calls on any stream, and bounds the number of items by the number of
lines. -/

namespace FileSelection.CommandReader

open ByteStream

variable {r : CommandReader}

def sectionCount (items : List (Except ReadError Section)) : ℕ := items.countP (·.isOk)

def errorCount (items : List (Except ReadError Section)) : ℕ := items.countP (!·.isOk)

/-! ### Resting places -/

/-- Where a reader can be when it has returned some items, out of `total` lines that can be read.
An error is the last of them. -/
inductive Rests (total : ℕ) : List (Except ReadError Section) → CommandReader → Prop
  | ready {sections : List Section} {r : CommandReader} (phase : r.phase = .ready)
    (line : r.line = 4 * sections.length) (lines : 4 * sections.length + r.linesAhead ≤ total) :
    Rests total (sections.map .ok) r
  | exhausted {sections : List Section} {r : CommandReader} (phase : r.phase = .exhausted)
    (line : r.line = 4 * sections.length) (lines : 4 * sections.length ≤ total) :
    Rests total (sections.map .ok) r
  | fatal {sections : List Section} {error : ReadError} {r : CommandReader}
    (phase : r.phase = .fatal) (lines : 4 * sections.length ≤ total) :
    Rests total (sections.map .ok ++ [.error error]) r

variable {total : ℕ} {items : List (Except ReadError Section)}

theorem Rests.atRest (h : Rests total items r) : r.AtRest := by
  cases h with
  | ready phase => exact .inl phase
  | exhausted phase => exact .inr (isFinished_iff.2 (.inl phase))
  | fatal phase => exact .inr (isFinished_iff.2 (.inr phase))

theorem Rests.next_of_isFinished (h : Rests total items r) (hfinished : r.isFinished) :
    Rests total (items ++ (item? r.next.result).toList) r.next.reader := by
  rw [CommandReader.next_of_isFinished hfinished]
  exact (List.append_nil items).symm ▸ h

theorem Rests.next (h : Rests total items r) :
    Rests total (items ++ (item? r.next.result).toList) r.next.reader := by
  have hall := h
  cases h with
  | exhausted phase => exact hall.next_of_isFinished (isFinished_iff.2 (.inl phase))
  | fatal phase => exact hall.next_of_isFinished (isFinished_iff.2 (.inr phase))
  | @ready sections _ phase line lines =>
    rcases next_of_ready phase with ⟨s, hresult, hphase, hline, hlines⟩ | ⟨hresult, hreader⟩ |
      ⟨error, hresult, hphase, -⟩
    · have hsections : sections.map .ok ++ (item? r.next.result).toList =
          (sections ++ [s]).map (.ok : Section → Except ReadError Section) := by
        rw [hresult, List.map_append]
        rfl
      rw [hsections]
      refine .ready hphase ?_ ?_ <;> rw [List.length_append, List.length_singleton] <;> omega
    · rw [hresult, hreader]
      refine (List.append_nil _).symm ▸ .exhausted rfl line (by omega)
    · rw [hresult]
      exact .fatal hphase (by omega)

theorem Rests.call (h : Rests total items r) (call : Call) :
    Rests total (items ++ (r.call call).1.items) (r.call call).2 :=
  keeps_call (P := Rests total) (fun _ _ => Rests.atRest) (fun _ _ => Rests.next) h call

theorem rests_start (rule : BoundsRule) (input : ByteStream) :
    Rests (lines input.bytes).length [] { input, rule } := by
  have hlines : linesAhead { input, rule } ≤ (lines input.bytes).length := by
    have hterminated : (terminated input.bytes).length ≤ (lines input.bytes).length := by
      rw [lines, List.length_append, List.length_map]
      exact Nat.le_add_right _ _
    rw [linesAhead, reads]
    split
    · exact List.countP_le_length.trans_eq (List.length_map _)
    · rw [List.countP_append]
      refine Nat.le_trans ?_ hterminated
      exact List.countP_le_length.trans_eq (by rw [List.length_map, List.length_map])
  have hready : Rests (lines input.bytes).length (([] : List Section).map .ok) { input, rule } :=
    .ready rfl rfl (by simpa using hlines)
  exact hready

theorem rests_after (rule : BoundsRule) (input : ByteStream) (calls : List Call) :
    Rests (lines input.bytes).length (({ input, rule } : CommandReader).returned calls)
      (({ input, rule } : CommandReader).after calls) :=
  keeps_after (P := Rests _) (fun _ _ => Rests.atRest) (fun _ _ => Rests.next)
    (rests_start rule input) calls

/-! ### What is returned -/

theorem sectionCount_map_ok (sections : List Section) :
    sectionCount (sections.map .ok) = sections.length := by
  rw [sectionCount, List.countP_map]
  exact List.countP_eq_length.2 fun _ _ => rfl

theorem errorCount_map_ok (sections : List Section) : errorCount (sections.map .ok) = 0 := by
  rw [errorCount, List.countP_map]
  exact List.countP_eq_zero.2 fun _ _ => Bool.false_ne_true

theorem Rests.line_of_ready (h : Rests total items r) (hready : r.phase = .ready) :
    r.line = 4 * sectionCount items := by
  cases h with
  | ready phase line => rw [sectionCount_map_ok, line]
  | exhausted phase line => rw [sectionCount_map_ok, line]
  | fatal phase => rw [phase] at hready; cases hready

theorem Rests.linesAhead_le (h : Rests total items r) (hready : r.phase = .ready) :
    r.linesAhead ≤ total := by
  cases h with
  | ready _ _ lines => omega
  | exhausted phase | fatal phase => rw [phase] at hready; cases hready

theorem Rests.errorCount_le (h : Rests total items r) : errorCount items ≤ 1 := by
  cases h with
  | ready | exhausted => rw [errorCount_map_ok]; exact Nat.zero_le 1
  | fatal =>
    rw [errorCount, List.countP_append, ← errorCount, errorCount_map_ok, Nat.zero_add]
    exact List.countP_le_length

theorem Rests.length_le (h : Rests total items r) : items.length ≤ total / 4 + 1 := by
  cases h with
  | ready _ _ lines => rw [List.length_map]; omega
  | exhausted _ _ lines => rw [List.length_map]; omega
  | fatal _ lines => rw [List.length_append, List.length_map, List.length_singleton]; omega

/-! ### How a call leaves the reader -/

theorem Answer.getLast?_items_of_error {answer : Answer} {error : ReadError}
    (h : answer.outcome? = some (.error error)) :
    answer.items.getLast? = some (.error error) := by
  cases answer with
  | reading result =>
    cases Option.some.inj h
    rfl
  | item found =>
    match found with
    | none | some (.ok _) => cases h
    | some (.error _) => cases h; rfl
  | collected items =>
    rw [outcome?] at h
    split at h
    · next hlast => cases h; exact hlast
    · cases h
  | line | phase => cases h

theorem Answer.getLast?_items_ne_error {answer : Answer} (h : answer.outcome? = some (.ok none))
    (error : ReadError) : answer.items.getLast? ≠ some (.error error) := by
  cases answer with
  | reading result =>
    cases Option.some.inj h
    nofun
  | item found =>
    match found with
    | none => nofun
    | some (.ok _) | some (.error _) => cases h
  | collected items =>
    rw [outcome?] at h
    split at h
    · cases h
    · next hlast => exact hlast error
  | line | phase => cases h

theorem Rests.getLast?_ne_error_iff (h : Rests total items r) :
    (∀ error, items.getLast? ≠ some (.error error)) ↔ r.phase ≠ .fatal := by
  cases h with
  | ready phase => simp [phase]
  | exhausted phase => simp [phase]
  | fatal phase => simp [phase]

theorem ready_of_outcome (h : r.AtRest) {call : Call} {s : Section}
    (houtcome : (r.call call).1.outcome? = some (.ok (some s))) :
    (r.call call).2.phase = .ready := by
  cases call with
  | nextSection => exact phase_of_section h (Option.some.inj houtcome)
  | nextItem =>
    rw [CommandReader.call, Answer.outcome?, resultOf_item?] at houtcome
    exact phase_of_section h (Option.some.inj houtcome)
  | collect =>
    rw [CommandReader.call, Answer.outcome?] at houtcome
    split at houtcome <;> cases houtcome
  | line | phase => cases houtcome

theorem Rests.fatal_of_outcome (h : Rests total items r) {call : Call} {error : ReadError}
    (houtcome : (r.call call).1.outcome? = some (.error error)) :
    (r.call call).2.phase = .fatal := by
  have hlast := Answer.getLast?_items_of_error houtcome
  by_contra hphase
  refine (h.call call).getLast?_ne_error_iff.2 hphase error ?_
  rw [List.getLast?_append, hlast, Option.some_or]

theorem isFinished_of_outcome (h : r.AtRest) {call : Call}
    (houtcome : (r.call call).1.outcome? = some (.ok none)) : (r.call call).2.isFinished := by
  cases call with
  | nextSection =>
    have hresult : r.next.result = .ok none := Option.some.inj houtcome
    exact isFinished_next h (by simp [hresult])
  | nextItem =>
    rw [CommandReader.call, Answer.outcome?, resultOf_item?] at houtcome
    exact isFinished_next h (by simp [Option.some.inj houtcome])
  | collect =>
    obtain ⟨_, -, -, hdrained⟩ := exists_drain h
    exact hdrained
  | line | phase => cases houtcome

/-- The first end that is returned exhausts the reader. -/
theorem Rests.exhausted_of_outcome (h : Rests total items r) (hready : r.phase = .ready)
    {call : Call} (houtcome : (r.call call).1.outcome? = some (.ok none)) :
    (r.call call).2.phase = .exhausted ∧
      (r.call call).2.line = 4 * sectionCount (items ++ (r.call call).1.items) := by
  have hcall := h.call call
  have hfatal : (r.call call).2.phase ≠ .fatal := by
    rw [← hcall.getLast?_ne_error_iff]
    intro error hlast
    rw [List.getLast?_append, Option.or_eq_some_iff] at hlast
    rcases hlast with hnew | ⟨-, hold⟩
    · exact Answer.getLast?_items_ne_error houtcome error hnew
    · exact h.getLast?_ne_error_iff.2 (by simp [hready]) error hold
  have hphase : (r.call call).2.phase = .exhausted :=
    (isFinished_iff.1 (isFinished_of_outcome h.atRest houtcome)).resolve_right hfatal
  refine ⟨hphase, ?_⟩
  generalize items ++ (r.call call).1.items = all at hcall
  cases hcall with
  | ready _ line | exhausted _ line => rw [sectionCount_map_ok, line]
  | fatal phase => exact absurd phase hfatal

/-! ### Any calls on any stream -/

/-- Between two calls a reader is ready, with four lines for each section that it has returned, or
it has finished. A section leaves it ready, an error makes it fatal, and the end that it reaches
from a section exhausts it, after which a call changes nothing. It returns one error at most and
goes through its lines once, so that it finishes after as many readings as there are groups of
four lines, and one more. Reading the sections one by one, in either way, or all at once gives the
same items. -/
theorem calls_rest_between_sections (rule : BoundsRule) (input : ByteStream) (before : List Call)
    (call : Call) :
    let start : CommandReader := { input, rule }
    let r := start.after before
    let r' := start.after (before ++ [call])
    let outcome? := (r.call call).1.outcome?
    let bound := (lines input.bytes).length / 4 + 1
    (r.phase = .ready ∨ r.phase = .exhausted ∨ r.phase = .fatal) ∧
    (r.phase = .ready → r.line = 4 * sectionCount (start.returned before)) ∧
    (∀ s, outcome? = some (.ok (some s)) → r'.phase = .ready) ∧
    (∀ error, outcome? = some (.error error) → r'.phase = .fatal) ∧
    (r.phase = .ready → outcome? = some (.ok none) →
      r'.phase = .exhausted ∧ r'.line = 4 * sectionCount (start.returned (before ++ [call]))) ∧
    r.line ≤ r'.line ∧
    errorCount (start.returned before) ≤ 1 ∧
    (r.isFinished → r.call call = (call.atEnd r, r)) ∧
    (∀ later : List Call,
      start.returned (before ++ .nextItem :: later) =
          start.returned (before ++ .nextSection :: later) ∧
        start.after (before ++ .nextItem :: later) =
          start.after (before ++ .nextSection :: later)) ∧
    (∀ singles later : List Call, (∀ c ∈ singles, c = .nextSection ∨ c = .nextItem) →
      (r.after singles).isFinished →
        start.returned (before ++ singles ++ later) =
            start.returned (before ++ .collect :: later) ∧
          start.after (before ++ singles ++ later) =
            start.after (before ++ .collect :: later)) ∧
    (r.after (List.replicate bound .nextItem)).isFinished ∧
    (start.returned before).length ≤ bound := by
  intro start r r' outcome? bound
  have h : Rests (lines input.bytes).length (start.returned before) r :=
    rests_after rule input before
  have hr' : r' = (r.call call).2 := after_append start before [call]
  have hreturned : start.returned (before ++ [call]) =
      start.returned before ++ (r.call call).1.items := by
    rw [returned_append, returned, returned, List.append_nil]
  rw [hr', hreturned]
  refine ⟨h.atRest.imp_right isFinished_iff.1, h.line_of_ready, fun _ => ready_of_outcome h.atRest,
    fun _ => h.fatal_of_outcome, fun hready => h.exhausted_of_outcome hready,
    line_le_call h.atRest call, h.errorCount_le,
    fun hfinished => call_of_isFinished hfinished call, fun later => ?_,
    fun singles later hsingles hend => ?_, ?_, h.length_le⟩
  · rw [returned_append, returned_append, after_append, after_append]
    exact ⟨rfl, rfl⟩
  · obtain ⟨hitems, hdrained⟩ := drained_of_singles h.atRest hsingles hend
    rw [List.append_assoc, returned_append, returned_append, returned_append, after_append,
      after_append, after_append]
    rw [hitems, hdrained]
    exact ⟨rfl, rfl⟩
  · rcases h.atRest with hready | hfinished
    · exact isFinished_after_replicate (.inl hready)
        (by have := h.linesAhead_le hready; simp only [bound]; omega)
    · rwa [(after_of_isFinished hfinished _).1]

end FileSelection.CommandReader
