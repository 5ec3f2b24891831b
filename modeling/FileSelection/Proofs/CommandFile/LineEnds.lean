import FileSelection.Proofs.CommandFile.Calls
import FileSelection.Run.Console

/-! Texts that differ only in how their lines end. A newline may have a carriage return put in front
of it, and a last line without an end may be given one, and the lines stay what they are as long as
no carriage return was there to be mistaken for a part of an end. A reader takes nothing but lines
from its stream, so two such texts are read alike at every step, and what is printed for them is the
same. -/

namespace FileSelection

open Text.Utf8

namespace ByteStream

/-! ### Other ends for the same lines -/

/-- No carriage return stands in front of a newline or at the end. -/
structure FreeOfReturns (text : Bytes) : Prop where
  not_infix : ¬[carriageReturn, newline] <:+: text
  getLast?_ne : text.getLast? ≠ some carriageReturn

/-- The second text is the first one with carriage returns in front of some of its newlines. -/
inductive WithReturns : Bytes → Bytes → Prop
  | nil : WithReturns [] []
  | keep (b : UInt8) {text text' : Bytes} (h : WithReturns text text') :
    WithReturns (b :: text) (b :: text')
  | insert {text text' : Bytes} (h : WithReturns text text') :
    WithReturns (newline :: text) (carriageReturn :: newline :: text')

/-- The second text is the first one with other line ends. Its last line may have been given an end
that it did not have. -/
inductive OtherEnds (text : Bytes) : Bytes → Prop
  | inside {text' : Bytes} (h : WithReturns text text') : OtherEnds text text'
  | last {text' : Bytes} (h : WithReturns text text') (hne : text ≠ [])
    (hlast : text.getLast? ≠ some newline) : OtherEnds text (text' ++ [newline])
  | lastWithReturn {text' : Bytes} (h : WithReturns text text') (hne : text ≠ [])
    (hlast : text.getLast? ≠ some newline) : OtherEnds text (text' ++ [carriageReturn, newline])

theorem withoutReturn_of_getLast?_ne {line : Bytes} (h : line.getLast? ≠ some carriageReturn) :
    withoutReturn line = line := if_neg h

theorem withoutReturn_concat (line : Bytes) : withoutReturn (line ++ [carriageReturn]) = line := by
  rw [withoutReturn, List.getLast?_concat, if_pos rfl, List.dropLast_concat]

variable {text text' line rest : Bytes}

/-- The line in front of a newline does not end with a carriage return, and neither does a line in
the rest. -/
theorem FreeOfReturns.of_append_cons (h : FreeOfReturns (line ++ newline :: rest)) :
    line.getLast? ≠ some carriageReturn ∧ FreeOfReturns rest := by
  refine ⟨fun hlast => h.not_infix ?_,
    ⟨fun hinfix => h.not_infix ?_, fun hlast => h.getLast?_ne ?_⟩⟩
  · obtain ⟨front, rfl⟩ := List.getLast?_eq_some_iff.1 hlast
    exact ⟨front, rest, by simp⟩
  · exact hinfix.trans ((List.suffix_cons newline rest).trans (List.suffix_append line _)).isInfix
  · obtain ⟨front, rfl⟩ := List.getLast?_eq_some_iff.1 hlast
    rw [← List.cons_append, ← List.append_assoc, List.getLast?_concat]

theorem WithReturns.of_not_mem (h : WithReturns text text') (hline : newline ∉ text) :
    text' = text := by
  induction h with
  | nil => rfl
  | keep b _ ih => rw [ih (List.not_mem_of_not_mem_cons hline)]
  | insert _ _ => exact absurd List.mem_cons_self hline

/-- The first line stays, and its newline gets a carriage return or gets none. -/
theorem WithReturns.of_append_cons (h : WithReturns (line ++ newline :: rest) text')
    (hline : newline ∉ line) :
    ∃ rest', WithReturns rest rest' ∧
      (text' = line ++ newline :: rest' ∨
        text' = (line ++ [carriageReturn]) ++ newline :: rest') := by
  induction line generalizing text' with
  | nil =>
    cases h with
    | keep _ h => exact ⟨_, h, .inl rfl⟩
    | insert h => exact ⟨_, h, .inr rfl⟩
  | cons b line ih =>
    rw [List.mem_cons, not_or] at hline
    generalize htext : b :: line ++ newline :: rest = text at h
    cases h with
    | nil => cases htext
    | keep _ h =>
      obtain ⟨rfl, rfl⟩ := List.cons.inj htext
      obtain ⟨rest', hrest, htext' | htext'⟩ := ih h hline.2
      · exact ⟨rest', hrest, .inl (by rw [htext']; rfl)⟩
      · exact ⟨rest', hrest, .inr (by rw [htext']; rfl)⟩
    | insert h => exact absurd (List.cons.inj htext).1.symm hline.1

/-- Carriage returns in front of newlines are no part of the lines. -/
theorem WithReturns.lines_eq (h : WithReturns text text') (hfree : FreeOfReturns text) :
    lines text' = lines text ∧ unterminated text' = unterminated text := by
  induction text using induction_on_lines generalizing text' with
  | last text hline => rw [h.of_not_mem hline]; exact ⟨rfl, rfl⟩
  | line line rest hline ih =>
    obtain ⟨hlast, hrest⟩ := hfree.of_append_cons
    obtain ⟨rest', h', rfl | rfl⟩ := h.of_append_cons hline
    · obtain ⟨hlines, hunterminated⟩ := ih h' hrest
      rw [lines_append_cons hline, lines_append_cons hline, unterminated_append_newline,
        unterminated_append_newline, hlines, hunterminated]
      exact ⟨rfl, rfl⟩
    · obtain ⟨hlines, hunterminated⟩ := ih h' hrest
      have hreturn : newline ∉ line ++ [carriageReturn] := by
        rw [List.mem_append, not_or]
        exact ⟨hline, by decide⟩
      rw [lines_append_cons hline, lines_append_cons hreturn, unterminated_append_newline,
        unterminated_append_newline, withoutReturn_concat, withoutReturn_of_getLast?_ne hlast,
        hlines, hunterminated]
      exact ⟨rfl, rfl⟩

/-- The last line is what it is with an end as without one. -/
theorem lines_append_end {bytes : Bytes} (ending : Bytes) (hending : newline ∉ ending)
    (hne : unterminated bytes ≠ [])
    (h : withoutReturn (unterminated bytes ++ ending) = unterminated bytes) :
    lines (bytes ++ (ending ++ [newline])) = lines bytes := by
  induction bytes using induction_on_lines with
  | last bytes hline =>
    rw [unterminated_of_not_mem hline] at hne h
    have hall : newline ∉ bytes ++ ending := by
      rw [List.mem_append, not_or]
      exact ⟨hline, hending⟩
    rw [← List.append_assoc, lines_append_cons hall, h, lines_of_not_mem hline, if_neg hne]
    rfl
  | line line rest hline ih =>
    rw [unterminated_append_newline] at hne h
    rw [List.append_assoc, List.cons_append, lines_append_cons hline, lines_append_cons hline,
      ih hne h]

/-- What stands after the last newline is the end of the text, if there is anything. -/
theorem getLast?_unterminated {bytes : Bytes} (hne : bytes ≠ [])
    (hlast : bytes.getLast? ≠ some newline) :
    unterminated bytes ≠ [] ∧ (unterminated bytes).getLast? = bytes.getLast? := by
  induction bytes using induction_on_lines with
  | last bytes hline =>
    rw [unterminated_of_not_mem hline]
    exact ⟨hne, rfl⟩
  | line line rest hline ih =>
    rw [unterminated_append_newline]
    have hrest : rest ≠ [] := by
      rintro rfl
      exact hlast List.getLast?_concat
    have hend : (line ++ newline :: rest).getLast? = rest.getLast? := by
      rw [List.getLast?_append_cons, List.getLast?_cons_of_ne_nil hrest]
    rw [hend] at hlast ⊢
    exact ih hrest hlast

/-- Other line ends leave the lines as they are. -/
theorem OtherEnds.lines_eq (h : OtherEnds text text') (hfree : FreeOfReturns text) :
    lines text' = lines text := by
  cases h with
  | inside h => exact (h.lines_eq hfree).1
  | last h hne hlast =>
    obtain ⟨hlines, hunterminated⟩ := h.lines_eq hfree
    obtain ⟨hne', hend⟩ := getLast?_unterminated hne hlast
    rw [← hlines, ← List.nil_append [newline]]
    refine lines_append_end [] List.not_mem_nil (hunterminated ▸ hne') ?_
    rw [List.append_nil, hunterminated]
    exact withoutReturn_of_getLast?_ne (hend ▸ hfree.getLast?_ne)
  | lastWithReturn h hne hlast =>
    obtain ⟨hlines, hunterminated⟩ := h.lines_eq hfree
    obtain ⟨hne', -⟩ := getLast?_unterminated hne hlast
    rw [← hlines]
    exact lines_append_end [carriageReturn] (by decide) (hunterminated ▸ hne')
      (withoutReturn_concat _)

end ByteStream

/-! ### Readers in front of the same lines -/

namespace CommandReader

/-- Two readers that differ in nothing but the bytes of the lines in front of them. -/
structure Alike (r r' : CommandReader) : Prop where
  reads : r.input.reads = r'.input.reads
  rule : r.rule = r'.rule
  line : r.line = r'.line
  phase : r.phase = r'.phase

/-- Two readings that came to the same and left readers that are alike. -/
structure Matches (reading reading' : Reading) : Prop where
  result : reading.result = reading'.result
  journal : reading.journal = reading'.journal
  reader : reading.reader.Alike reading'.reader

variable {r r' : CommandReader}

theorem Alike.withPhase (h : r.Alike r') (phase : Phase) :
    ({ r with phase } : CommandReader).Alike { r' with phase } :=
  ⟨h.reads, h.rule, h.line, rfl⟩

theorem Alike.stop (h : r.Alike r') (error : ReadError) : Matches (r.stop error) (r'.stop error) :=
  ⟨rfl, rfl, h.withPhase .fatal⟩

theorem Alike.readLine (h : r.Alike r') :
    (∃ cause, r.readLine = .error cause ∧ r'.readLine = .error cause) ∨
      ∃ found s s', r.readLine = .ok (found, s) ∧ r'.readLine = .ok (found, s') ∧ s.Alike s' := by
  cases hreads : r.input.reads with
  | nil =>
    exact .inr ⟨none, r, r', readLine_of_nil hreads, readLine_of_nil (h.reads ▸ hreads), h⟩
  | cons first rest =>
    have hreads' := h.reads ▸ hreads
    cases first with
    | error cause => exact .inl ⟨cause, readLine_of_error hreads, readLine_of_error hreads'⟩
    | ok text =>
      exact .inr ⟨some text, _, _, readLine_of_ok hreads, readLine_of_ok hreads',
        (reads_advance hreads).trans (reads_advance hreads').symm, h.rule,
        congrArg (· + 1) h.line, h.phase⟩

/-- The lines in front of a reader decide what it reads. The induction is over the number of lines
to the end of the section. -/
theorem Alike.readLines (h : r.Alike r') (n : ℕ) :
    Matches (CommandReader.readLines n r) (CommandReader.readLines n r') := by
  induction n generalizing r r' with
  | zero => exact ⟨rfl, rfl, h⟩
  | succ n ih =>
    unfold CommandReader.readLines
    rcases h.readLine with ⟨cause, hline, hline'⟩ | ⟨found, s, s', hline, hline', hs⟩
    · simp only [hline, hline', h.line]
      exact h.stop _
    · obtain ⟨input, rule, line, phase⟩ := s
      obtain ⟨input', rule', line', phase'⟩ := s'
      obtain ⟨hreads, rfl, rfl, rfl⟩ := id hs
      simp only [hline, hline']
      cases phase.onLine rule line found with
      | enter next warnings =>
        have hrest := ih (hs.withPhase next)
        exact ⟨hrest.result, congrArg (_ ++ ·) hrest.journal, hrest.reader⟩
      | complete _ _ => exact ⟨rfl, rfl, hs.withPhase .ready⟩
      | finish => exact ⟨rfl, rfl, hs.withPhase .exhausted⟩
      | reject fault => exact hs.stop _

theorem Alike.next (h : r.Alike r') : Matches r.next r'.next := by
  rw [CommandReader.next, CommandReader.next, h.phase]
  exact h.readLines _

/-- Readers that are alike go on alike to the end. -/
theorem Alike.readAll {r r' : CommandReader} (h : r.Alike r') :
    List.Forall₂ Matches r.readAll r'.readAll ∧ r.items = r'.items ∧ r.drained.Alike r'.drained := by
  have hnext := h.next
  match hresult : r.next.result with
  | .ok (some s) =>
    have hresult' := hnext.result ▸ hresult
    obtain ⟨hall, hitems, hdrained⟩ := Alike.readAll hnext.reader
    rw [readAll_of_section hresult, readAll_of_section hresult', items_of_section hresult,
      items_of_section hresult', drained_of_section hresult, drained_of_section hresult', hitems]
    exact ⟨.cons hnext hall, rfl, hdrained⟩
  | .ok none =>
    have hresult' := hnext.result ▸ hresult
    rw [readAll_of_end hresult, readAll_of_end hresult', items_of_end hresult,
      items_of_end hresult', drained_of_end hresult, drained_of_end hresult']
    exact ⟨.cons hnext .nil, rfl, hnext.reader⟩
  | .error error =>
    have hresult' := hnext.result ▸ hresult
    rw [readAll_of_error hresult, readAll_of_error hresult', items_of_error hresult,
      items_of_error hresult', drained_of_error hresult, drained_of_error hresult']
    exact ⟨.cons hnext .nil, rfl, hnext.reader⟩
termination_by r.input.bytes.length
decreasing_by exact length_lt_of_readLines hresult

/-- A call gets the same answer from readers that are alike, and leaves them so. -/
theorem Alike.call (h : r.Alike r') (call : Call) :
    (r.call call).1 = (r'.call call).1 ∧ (r.call call).2.Alike (r'.call call).2 := by
  cases call with
  | nextSection => exact ⟨congrArg Answer.reading h.next.result, h.next.reader⟩
  | nextItem => exact ⟨congrArg (Answer.item ∘ item?) h.next.result, h.next.reader⟩
  | collect => exact ⟨congrArg Answer.collected h.readAll.2.1, h.readAll.2.2⟩
  | line => exact ⟨congrArg Answer.line h.line, h⟩
  | phase => exact ⟨congrArg Answer.phase h.phase, h⟩

theorem Alike.after (h : r.Alike r') (calls : List Call) :
    (r.after calls).Alike (r'.after calls) := by
  induction calls generalizing r r' with
  | nil => exact h
  | cons call calls ih => exact ih (h.call call).2

end CommandReader

/-- A plan is made from the results of the readings and from what they log. -/
theorem Plan.ofReadings_of_matches (files : List FileInfo) (index : ℕ)
    {readings readings' : List Reading}
    (h : List.Forall₂ CommandReader.Matches readings readings') :
    ofReadings files index readings = ofReadings files index readings' := by
  induction h generalizing index with
  | nil => rfl
  | cons hmatches _ ih =>
    unfold ofReadings
    rw [hmatches.result, hmatches.journal]
    split
    · rfl
    · rfl
    · rw [ih]

/-! ### Reading and printing -/

/-- Other line ends change nothing that a reader reads: any calls on it get the same answers, with
the same items, lines and phases, and a run over the same files prints the same and ends in the same
way, in either format and whatever its streams do with the bytes. -/
theorem line_ends_do_not_matter (rule : BoundsRule) {text text' : Bytes}
    (hfree : ByteStream.FreeOfReturns text) (h : ByteStream.OtherEnds text text') :
    let reader : CommandReader := { input := { bytes := text }, rule }
    let reader' : CommandReader := { input := { bytes := text' }, rule }
    reader.items = reader'.items ∧
      (∀ calls call,
        ((reader.after calls).call call).1 = ((reader'.after calls).call call).1) ∧
      ∀ (σ : Type) [Destination σ] (format : Format) (files : List FileInfo) (console : Console σ),
        Action.sections format files reader console =
          Action.sections format files reader' console := by
  intro reader reader'
  have halike : reader.Alike reader' :=
    ⟨congrArg (List.map ByteStream.decodeLine) (h.lines_eq hfree).symm, rfl, rfl, rfl⟩
  obtain ⟨hall, hitems, -⟩ := halike.readAll
  refine ⟨hitems, fun calls call => ((halike.after calls).call call).1,
    fun σ _ format files console => ?_⟩
  unfold Action.sections
  rw [Plan.ofReader, Plan.ofReader, Plan.ofReadings_of_matches files 0 hall]

/-- The first header and the last line get a carriage return with their newline. The carriage return
inside the wrong header stays a part of it, and so does the byte that is no character. -/
theorem line_ends_do_not_matter_mixed :
    let text : Bytes := encode "FILTER\nbig\nOR\rDER" ++ [0xFF]
    let text' : Bytes := encode "FILTER\r\nbig\nOR\rDER" ++ [0xFF] ++ [0x0D, 0x0A]
    ({ input := { bytes := text }, rule := .strict } : CommandReader).items =
        ({ input := { bytes := text' }, rule := .strict } : CommandReader).items ∧
      ∀ console : Console Sink,
        Action.sections .json [] { input := { bytes := text }, rule := .strict } console =
          Action.sections .json [] { input := { bytes := text' }, rule := .strict } console := by
  intro text text'
  have htext : text = [0x46, 0x49, 0x4C, 0x54, 0x45, 0x52, 0x0A, 0x62, 0x69, 0x67, 0x0A, 0x4F, 0x52,
      0x0D, 0x44, 0x45, 0x52, 0xFF] := by
    decide
  have hreturned : encode "FILTER\r\nbig\nOR\rDER" ++ [0xFF] = [0x46, 0x49, 0x4C, 0x54, 0x45, 0x52,
      0x0D, 0x0A, 0x62, 0x69, 0x67, 0x0A, 0x4F, 0x52, 0x0D, 0x44, 0x45, 0x52, 0xFF] := by
    decide
  have hfree : ByteStream.FreeOfReturns text := by
    rw [htext]
    exact ⟨by decide, by decide⟩
  have hends : ByteStream.OtherEnds text text' := by
    refine .lastWithReturn ?_ (by rw [htext]; decide) (by rw [htext]; decide)
    rw [htext, hreturned]
    repeat constructor
  obtain ⟨hitems, -, hrun⟩ := line_ends_do_not_matter .strict hfree hends
  exact ⟨hitems, hrun Sink .json []⟩

end FileSelection
