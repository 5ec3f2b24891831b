import FileSelection.Proofs.CommandFile.Calls

/-! Reading from a stream that fails after some bytes, next to reading the whole file. The lines
that end within those bytes are read alike, and the failure stands in place of the next one. So the
sections are among the first of the whole file, and the reading ends with one error: that of the
whole file, where a line within those bytes is at fault, or else the failure. Bytes after the last
newline count for nothing. -/

namespace FileSelection

open ByteStream

/-! ### Faults and where they lie -/

/-- Whether a fault is that the file ends too early. -/
def LayoutFault.isTruncation : LayoutFault → Bool
  | .missingFilterDirective | .missingOrderHeader none | .missingOrderDirective => true
  | .missingFilterHeader _ | .missingOrderHeader (some _) => false

namespace ReadError

def isTruncation : ReadError → Bool
  | .layout _ fault => fault.isTruncation
  | .unreadable _ _ => false

/-- The number of the line at fault. A line that cannot be read comes after those counted. -/
def faultyLine : ReadError → ℕ
  | .layout line _ => line
  | .unreadable line _ => line + 1

end ReadError

variable {read rest : List (Except IoError String)} {cause : IoError} {error : ReadError}

/-- Good lines in front of a failure are all in front of it. -/
theorem exists_read_of_append (good : List String)
    (h : read ++ [.error cause] = good.map .ok ++ rest) :
    ∃ read', read = good.map .ok ++ read' ∧ rest = read' ++ [.error cause] := by
  induction good generalizing read with
  | nil => exact ⟨read, rfl, h.symm⟩
  | cons text good ih =>
    cases read with
    | nil => cases (List.cons.inj h).1
    | cons line read =>
      obtain ⟨rfl, htail⟩ := List.cons.inj h
      obtain ⟨read', rfl, hrest⟩ := ih htail
      exact ⟨read', rfl, hrest⟩

/-- The first fault of lines that end with a failure is the failure, or it is there before the
failure and stays whatever comes in its place. -/
theorem FirstFault.of_failing {before : ℕ}
    (h : FirstFault before (read ++ [.error cause]) error) :
    error = .unreadable (before + read.length) cause ∨
      error.isTruncation = false ∧ error.faultyLine ≤ before + read.length ∧
        ∀ rest, FirstFault before (read ++ rest) error := by
  generalize hlines : read ++ [.error cause] = lines at h
  cases h with
  | @filterHeader found _ hne =>
    obtain ⟨read', rfl, -⟩ := exists_read_of_append [found] hlines
    exact .inr ⟨rfl, by simp [ReadError.faultyLine], fun _ => .filterHeader hne⟩
  | noFilterLine =>
    obtain ⟨read', -, hnil⟩ := exists_read_of_append ["FILTER"] hlines
    simp at hnil
  | @orderHeader filterLine found _ hne =>
    obtain ⟨read', rfl, -⟩ := exists_read_of_append ["FILTER", filterLine, found] hlines
    exact .inr ⟨rfl, by simp [ReadError.faultyLine], fun _ => .orderHeader hne⟩
  | @noOrderHeader filterLine =>
    obtain ⟨read', -, hnil⟩ := exists_read_of_append ["FILTER", filterLine] hlines
    simp at hnil
  | @noOrderLine filterLine =>
    obtain ⟨read', -, hnil⟩ := exists_read_of_append ["FILTER", filterLine, "ORDER"] hlines
    simp at hnil
  | @unreadable good cause' _ hopening =>
    obtain ⟨read', rfl, hrest⟩ := exists_read_of_append good hlines
    cases read' with
    | nil =>
      obtain ⟨hcause, -⟩ := List.cons.inj hrest
      cases hcause
      left
      rw [List.append_nil, List.length_map]
    | cons line read' =>
      obtain ⟨rfl, -⟩ := List.cons.inj hrest
      refine .inr ⟨rfl, ?_, fun rest => ?_⟩
      · simp only [ReadError.faultyLine, List.length_append, List.length_map, List.length_cons]
        omega
      · rw [List.append_assoc]
        exact .unreadable hopening

/-- What the lines in front of a failure hold, next to the same lines with others after them. -/
theorem Layout.of_failing {rule : BoundsRule} {index : ℕ} {sections : List Section}
    {ending : Option ReadError} (h : Layout rule index (read ++ [.error cause]) sections ending)
    (rest : List (Except IoError String)) :
    ∃ error sections' ending', ending = some error ∧
      Layout rule index (read ++ rest) sections' ending' ∧ sections <+: sections' ∧
      error.isTruncation = false ∧
      (error = .unreadable (4 * index + read.length) cause ∨
        error.faultyLine ≤ 4 * index + read.length ∧ sections' = sections ∧
          ending' = some error) := by
  generalize hlines : read ++ [.error cause] = lines at h
  induction h generalizing read with
  | ends => simp at hlines
  | @breaks index _ error hfault =>
    subst hlines
    obtain ⟨sections', ending', hlayout⟩ := exists_layout rule index (read ++ rest)
    rcases hfault.of_failing with rfl | ⟨htruncation, hline, hsame⟩
    · exact ⟨_, sections', ending', rfl, hlayout, List.nil_prefix, rfl, .inl rfl⟩
    · exact ⟨error, [], some error, rfl, .breaks (hsame rest), List.prefix_refl _, htruncation,
        .inr ⟨hline, rfl, rfl⟩⟩
  | @group index filterLine orderLine _ _ _ _ ih =>
    obtain ⟨read', rfl, hrest⟩ :=
      exists_read_of_append ["FILTER", filterLine, "ORDER", orderLine] hlines
    obtain ⟨error, sections', ending', hending, hlayout, hbegins, htruncation, hcases⟩ :=
      ih hrest.symm
    refine ⟨error, _ :: sections', ending', hending, .group hlayout,
      List.cons_prefix_cons.2 ⟨rfl, hbegins⟩, htruncation, ?_⟩
    have hcount : 4 * index + (read'.length + 4) = 4 * (index + 1) + read'.length := by omega
    rw [List.length_append, List.length_map, Nat.add_comm _ read'.length, List.length_cons,
      List.length_cons, List.length_cons, List.length_singleton, hcount]
    exact hcases.imp_right fun ⟨hline, hsections, hend⟩ => ⟨hline, by rw [hsections], hend⟩

/-! ### The two readers -/

namespace ByteStream

/-- What the lines that end with a newline hold. -/
def completeReads (bytes : Bytes) : List (Except IoError String) :=
  ((terminated bytes).map withoutReturn).map decodeLine

theorem length_completeReads (bytes : Bytes) :
    (completeReads bytes).length = bytes.count newline := by
  rw [completeReads, List.length_map, List.length_map, length_terminated]

theorem reads_of_failure (bytes : Bytes) (cause : IoError) :
    reads { bytes, failure := some cause } = completeReads bytes ++ [.error cause] := rfl

/-- The lines that are complete within the first bytes are the first lines of all. -/
theorem exists_reads_eq (bytes : Bytes) (n : ℕ) :
    ∃ rest, reads { bytes } = completeReads (bytes.take n) ++ rest := by
  have hbegins : terminated (bytes.take n) <+: terminated bytes := by
    have := terminated_prefix_append (bytes.take n) (bytes.drop n)
    rwa [List.take_append_drop] at this
  obtain ⟨more, hmore⟩ := (hbegins.map withoutReturn).map decodeLine
  let last := if unterminated bytes = [] then [] else [unterminated bytes]
  have hreads : reads { bytes } = completeReads bytes ++ last.map decodeLine := List.map_append
  refine ⟨more ++ last.map decodeLine, ?_⟩
  rw [hreads, completeReads, ← hmore, List.append_assoc]
  rfl

end ByteStream

namespace CommandReader

variable {r : CommandReader}

/-- A reader with a failure ahead of it, or past an error. -/
def Failing (cause : IoError) (r : CommandReader) : Prop :=
  r.phase = .fatal ∨ r.phase = .ready ∧ ∃ read, r.input.reads = read ++ [.error cause]

theorem Failing.atRest (h : Failing cause r) : r.AtRest :=
  h.elim (fun hphase => .inr (isFinished_iff.2 (.inr hphase))) fun hready => .inl hready.1

theorem Failing.next (h : Failing cause r) : Failing cause r.next.reader := by
  rcases h with hphase | ⟨hready, read, hreads⟩
  · rw [next_of_isFinished (isFinished_iff.2 (.inr hphase))]
    exact .inl hphase
  · rcases nil_or_fault_or_group r.line r.input.reads with
      hnil | ⟨error, hfault⟩ | ⟨filterLine, orderLine, rest, hgroup⟩
    · simp [hnil] at hreads
    · exact .inl (stopsWith_of_fault hready hfault).2.2
    · obtain ⟨-, hrest, -, -, hphase⟩ := next_of_group hready hgroup
      obtain ⟨read', -, htail⟩ := exists_read_of_append
        ["FILTER", filterLine, "ORDER", orderLine] (hreads.symm.trans hgroup)
      exact .inr ⟨hphase, read', hrest.trans htail⟩

theorem Failing.after (h : Failing cause r) (calls : List Call) : Failing cause (r.after calls) :=
  @keeps_after _ (fun _ => Failing cause) [] (fun _ _ => Failing.atRest) (fun _ _ => Failing.next)
    h calls

/-- A stream that fails after `n` bytes gives sections that the whole file begins with, and one
error: the error of the whole file, where the line at fault is complete within those bytes, or the
failure, after as many lines as the bytes have newlines. It is never taken for the end of the file,
and the bytes after the last newline, whatever they are, have no part in it. -/
theorem interrupted_reads_prefix (rule : BoundsRule) (bytes : Bytes) (n : ℕ) (cause : IoError) :
    let whole : CommandReader := { input := { bytes }, rule }
    let failing : CommandReader :=
      { input := { bytes := bytes.take n, failure := some cause }, rule }
    let newlines := (bytes.take n).count newline
    ∃ sections sections' error ending',
      failing.items = sections.map .ok ++ [.error error] ∧
      whole.items = sections'.map .ok ++ ending'.toList.map .error ∧
      sections <+: sections' ∧
      failing.drained.phase = .fatal ∧
      (∀ calls, (failing.after calls).phase ≠ .exhausted) ∧
      error.isTruncation = false ∧
      (error = .unreadable newlines cause ∨
        error.faultyLine ≤ newlines ∧ sections' = sections ∧ ending' = some error) ∧
      ∀ served, terminated served = terminated (bytes.take n) →
        ({ input := { bytes := served, failure := some cause }, rule } : CommandReader).items =
          failing.items := by
  intro whole failing newlines
  obtain ⟨sections, ending, hfailing⟩ :=
    exists_layout rule 0 (completeReads (bytes.take n) ++ [.error cause])
  obtain ⟨rest, hwhole⟩ := exists_reads_eq bytes n
  obtain ⟨error, sections', ending', rfl, hlayout, hbegins, htruncation, hcases⟩ :=
    hfailing.of_failing rest
  rw [← hwhole] at hlayout
  rw [length_completeReads, Nat.mul_zero, Nat.zero_add] at hcases
  obtain ⟨hitems, hfinished⟩ := read_layout hfailing
    (between_start rule { bytes := bytes.take n, failure := some cause })
  refine ⟨sections, sections', error, ending', hitems,
    (read_layout hlayout (between_start rule _)).1, hbegins, hfinished.2, fun calls => ?_,
    htruncation, hcases, fun served hserved => ?_⟩
  · have hstart : Failing cause failing := .inr ⟨rfl, _, reads_of_failure _ _⟩
    rcases hstart.after calls with hphase | ⟨hphase, -⟩ <;> simp [hphase]
  · have hreads : completeReads served = completeReads (bytes.take n) := by
      rw [completeReads, completeReads, hserved]
    have hsame := (read_layout (hreads.symm ▸ hfailing)
      (between_start rule { bytes := served, failure := some cause })).1
    exact hsame.trans hitems.symm

end CommandReader

end FileSelection
