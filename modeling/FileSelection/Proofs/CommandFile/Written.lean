import FileSelection.Proofs.CommandFile.Accepted
import FileSelection.Proofs.CommandFile.Layout

/-! Writing sections, and which of them can be written. A written directive has one separator at its
end, which keeps a carriage return or an empty parameter from being lost with the line's end. What
no line can say is a second negation or reversal, a text with a separator or a newline in it, the
text `NOT`, an empty text without a negation after it, and bounds out of order under the strict
rule. The main statement is that these are the only limits: sections within them are read back from
what is written, and sections that are read without a warning are within them. -/

namespace FileSelection

open Text.Utf8 ByteStream

/-! ### What is written -/

/-- The line of a directive, with one separator at its end. -/
def Directive.written (modifier : Modifier) (d : Directive) : String :=
  joined (d.allTokens modifier) ++ separators 1

def Selector.directive (s : Selector) : Directive where
  name := s.base.filterName.word
  params := s.base.params
  modifiers := s.negations

def Ranking.directive (r : Ranking) : Directive where
  name := r.base.word
  params := []
  modifiers := r.reversals

/-- The four lines of a section. -/
def Section.texts (s : Section) : List String :=
  ["FILTER", s.selector.directive.written .not, "ORDER", s.ranking.directive.written .reverse]

/-- The command file of some sections, each line with a newline at its end. -/
def Section.written (sections : List Section) : String :=
  String.join ((sections.flatMap Section.texts).map (· ++ "\n"))

/-! ### What can be written -/

/-- Texts that a filter line can hold for a selector. -/
structure Selector.Spells (s : Selector) (text : String) : Prop where
  apart : '#' ∉ text.toList
  one_line : '\n' ∉ text.toList
  ne_word : text ≠ "NOT"
  ne_empty : s.negations = 0 → text ≠ ""

structure Selector.Expressible (rule : BoundsRule) (s : Selector) : Prop where
  negations_le : s.negations ≤ 1
  ordered : s.base.Ordered rule
  spells : ∀ text, s.base.text? = some text → s.Spells text

structure Section.Expressible (rule : BoundsRule) (s : Section) : Prop where
  selector : s.selector.Expressible rule
  reversals_le : s.ranking.reversals ≤ 1
  no_warnings : s.warnings = []

/-! ### Lines of written text -/

/-- Texts that a newline ends without a change. -/
structure Line (text : String) : Prop where
  one_line : '\n' ∉ text.toList
  last_ne_return : text.toList.getLast? ≠ some '\r'

theorem Line.newline_not_mem {text : String} (h : Line text) : newline ∉ encode text := by
  intro hmem
  exact h.one_line ((mem_encode_iff (by decide)).1 hmem)

theorem Line.withoutReturn_encode {text : String} (h : Line text) :
    withoutReturn (encode text) = encode text := by
  rw [withoutReturn, if_neg]
  intro hlast
  obtain ⟨bytes, hbytes⟩ := List.getLast?_eq_some_iff.1 hlast
  obtain ⟨front, rfl, -⟩ := eq_push_of_encode_eq (by decide) hbytes
  apply h.last_ne_return
  rw [String.toList_push, List.getLast?_concat]
  rfl

theorem reads_written {texts : List String} (h : ∀ text ∈ texts, Line text) :
    reads { bytes := encode (String.join (texts.map (· ++ "\n"))) } = texts.map .ok := by
  induction texts with
  | nil => rfl
  | cons text texts ih =>
    obtain ⟨hline, hrest⟩ := List.forall_mem_cons.1 h
    have hnewline : encode "\n" = [newline] := rfl
    have hdecode : decodeLine (encode text) = .ok text := by rw [decodeLine, decode?_encode]
    rw [List.map_cons, String.join_cons, encode_append, encode_append, hnewline,
      List.append_assoc, List.singleton_append, reads_append_cons hline.newline_not_mem,
      hline.withoutReturn_encode, hdecode, ih hrest, List.map_cons]

/-! ### Selectors -/

/-- What a filter line can hold whatever stands around it. -/
structure Plain (token : String) : Prop where
  apart : '#' ∉ token.toList
  one_line : '\n' ∉ token.toList
  ne_word : token ≠ "NOT"
  ne_empty : token ≠ ""

theorem Plain.spells {token : String} (h : Plain token) (s : Selector) : s.Spells token :=
  ⟨h.apart, h.one_line, h.ne_word, fun _ => h.ne_empty⟩

theorem plain_write (n : ℕ) : Plain (Text.Decimal.write n) := by
  have hdigits {c : Char} (hc : c.isDigit = false) : c ∉ (Text.Decimal.write n).toList := by
    intro hmem
    have := Text.Decimal.isDigit_of_mem_write hmem
    rw [hc] at this
    cases this
  constructor
  · exact hdigits rfl
  · exact hdigits rfl
  · intro hword
    have hmem : 'N' ∉ (Text.Decimal.write n).toList := hdigits rfl
    rw [hword] at hmem
    exact hmem (by decide)
  · exact Text.Decimal.write_ne_empty n

theorem plain_answer (wanted : Bool) : Plain (if wanted then "YES" else "NO") := by
  constructor <;> cases wanted <;> decide

theorem Filter.plain_or_text {f : Filter} {token : String} (h : token ∈ f.params) :
    Plain token ∨ f.text? = some token := by
  cases f with
  | greaterThan n | smallerThan n =>
    obtain rfl := List.mem_singleton.1 h
    exact .inl (plain_write _)
  | between min max =>
    rcases List.mem_pair.1 h with rfl | rfl
    · exact .inl (plain_write _)
    · exact .inl (plain_write _)
  | file text | contains text | startsWith text | endsWith text =>
    obtain rfl := List.mem_singleton.1 h
    exact .inr rfl
  | writable wanted | executable wanted | hidden wanted =>
    obtain rfl := List.mem_singleton.1 h
    exact .inl (plain_answer _)
  | all => cases h

theorem FilterName.word_plain (name : FilterName) : Plain name.word := by
  constructor <;> cases name <;> decide

theorem SortKey.word_plain (k : SortKey) : Plain k.word := by
  constructor <;> cases k <;> decide

theorem Selector.Expressible.spells_of_mem {rule : BoundsRule} {s : Selector}
    (h : s.Expressible rule) {token : String} (htoken : token ∈ s.base.params) :
    s.Spells token := by
  rcases Filter.plain_or_text htoken with hplain | htext
  · exact hplain.spells s
  · exact h.spells token htext

/-- The line that is written for a selector has no other form. -/
theorem Selector.Expressible.decomposes {rule : BoundsRule} {s : Selector}
    (h : s.Expressible rule) : s.directive.Decomposes .not (s.directive.written .not) := by
  constructor
  · intro token htoken
    rcases List.mem_cons.1 htoken with rfl | hparam
    · exact (FilterName.word_plain _).apart
    · exact (h.spells_of_mem hparam).apart
  · intro hlast
    have hparam : "NOT" ∈ s.base.params := List.mem_of_getLast? hlast
    exact (h.spells_of_mem hparam).ne_word rfl
  · intro hm hlast
    have hparam : "" ∈ s.base.params := List.mem_of_getLast? hlast
    exact (h.spells_of_mem hparam).ne_empty hm rfl
  · exact ⟨1, rfl⟩

theorem Selector.ofLine_written {rule : BoundsRule} {s : Selector} (h : s.Expressible rule) :
    ofLine rule (s.directive.written .not) = .ok s :=
  ofLine_eq_ok_iff.2
    ⟨h.negations_le, h.ordered, s.base.params, s.base.reads_params, h.decomposes⟩

/-- Every selector that a line is accepted for can be written. -/
theorem Selector.expressible_of_ofLine {rule : BoundsRule} {line : String} {s : Selector}
    (hline : '\n' ∉ line.toList) (h : ofLine rule line = .ok s) : s.Expressible rule := by
  obtain ⟨hcount, hordered, params, hreads, hform⟩ := ofLine_eq_ok_iff.1 h
  refine ⟨hcount, hordered, fun text hsome => ?_⟩
  obtain rfl := hreads.params_of_text hsome
  have hmem : text ∈ [s.base.filterName.word, text] := List.mem_cons_of_mem _ List.mem_cons_self
  constructor
  · exact hform.apart text hmem
  · intro hnewline
    exact hline (hform.mem_line (List.mem_append_left _ hmem) hnewline)
  · rintro rfl
    exact hform.last_ne_word rfl
  · rintro hm rfl
    exact hform.last_ne_empty hm rfl

/-! ### Rankings -/

theorem Ranking.decomposes (r : Ranking) :
    r.directive.Decomposes .reverse (r.directive.written .reverse) :=
  decomposes_iff.2 ⟨1, rfl⟩

theorem Ranking.ofLine_written {r : Ranking} (h : r.reversals ≤ 1) :
    ofLine (r.directive.written .reverse) = .ok r :=
  ofLine_eq_ok_iff.2 ⟨h, r.decomposes⟩

/-! ### Sections -/

theorem Directive.line_written {modifier : Modifier} {d : Directive}
    (h : ∀ token ∈ d.name :: d.params, '\n' ∉ token.toList) : Line (d.written modifier) := by
  constructor
  · intro hmem
    rw [written, String.toList_append] at hmem
    rcases List.mem_append.1 hmem with hjoined | hend
    · obtain ⟨token, htoken, hc⟩ := (mem_joined_iff (by decide)).1 hjoined
      rcases mem_allTokens htoken with hfront | rfl
      · exact h token hfront hc
      · revert hc
        cases modifier <;> decide
    · exact absurd hend (by decide)
  · rw [written, String.toList_append, separators, String.toList_ofList, List.replicate_one,
      List.getLast?_concat]
    decide

theorem Section.line_of_mem_texts {rule : BoundsRule} {s : Section} (h : s.Expressible rule)
    {text : String} (htext : text ∈ s.texts) : Line text := by
  rw [texts] at htext
  simp only [List.mem_cons, List.not_mem_nil, or_false] at htext
  rcases htext with rfl | rfl | rfl | rfl
  · constructor <;> decide
  · apply Directive.line_written
    intro token htoken
    rcases List.mem_cons.1 htoken with rfl | hparam
    · exact (FilterName.word_plain _).one_line
    · exact (h.selector.spells_of_mem hparam).one_line
  · constructor <;> decide
  · apply Directive.line_written
    intro token htoken
    obtain rfl := List.mem_singleton.1 htoken
    exact (SortKey.word_plain _).one_line

theorem Section.ofLines_written {rule : BoundsRule} {s : Section} (h : s.Expressible rule)
    (before : ℕ) :
    ofLines rule before (s.selector.directive.written .not)
      (s.ranking.directive.written .reverse) = s := by
  obtain ⟨selector, ranking, warnings⟩ := s
  obtain ⟨hselector, hranking, rfl⟩ := h
  rw [ofLines, Selector.ofLine_written hselector, Ranking.ofLine_written hranking]
  rfl

/-- The lines of sections that can be written are laid out as these sections. -/
theorem Section.layout_texts {rule : BoundsRule} {sections : List Section}
    (h : ∀ s ∈ sections, s.Expressible rule) (index : ℕ) :
    Layout rule index ((sections.flatMap texts).map .ok) sections none := by
  induction sections generalizing index with
  | nil => exact .ends
  | cons s sections ih =>
    obtain ⟨hs, hrest⟩ := List.forall_mem_cons.1 h
    have hgroup : Layout rule index (((s :: sections).flatMap texts).map .ok)
        (ofLines rule (4 * index) (s.selector.directive.written .not)
          (s.ranking.directive.written .reverse) :: sections) none :=
      .group (ih hrest (index + 1))
    rwa [ofLines_written hs] at hgroup

theorem Warning.ofDirective_eq_nil_iff {α : Type} {line : ℕ} {result : Except Rejection α} :
    ofDirective line result = [] ↔ ∃ a, result = .ok a := by
  cases result <;> simp [ofDirective]

theorem Section.expressible_of_ofLines {rule : BoundsRule} {before : ℕ}
    {filterLine orderLine : String} (hline : '\n' ∉ filterLine.toList)
    (h : (ofLines rule before filterLine orderLine).warnings = []) :
    (ofLines rule before filterLine orderLine).Expressible rule := by
  obtain ⟨hfilter, horder⟩ := List.append_eq_nil_iff.1 h
  obtain ⟨selector, hselector⟩ := Warning.ofDirective_eq_nil_iff.1 hfilter
  obtain ⟨ranking, hranking⟩ := Warning.ofDirective_eq_nil_iff.1 horder
  refine ⟨?_, ?_, h⟩
  · rw [ofLines, hselector]
    exact Selector.expressible_of_ofLine hline hselector
  · rw [ofLines, hranking]
    exact (Ranking.ofLine_eq_ok_iff.1 hranking).1

/-- Every section of a layout is read from two of its lines. -/
theorem Layout.exists_ofLines {rule : BoundsRule} {index : ℕ} {lines : List (Except IoError String)}
    {sections : List Section} {ending : Option ReadError}
    (h : Layout rule index lines sections ending) {s : Section} (hs : s ∈ sections) :
    ∃ before filterLine orderLine, .ok filterLine ∈ lines ∧
      s = Section.ofLines rule before filterLine orderLine := by
  induction h with
  | ends => cases hs
  | breaks _ => cases hs
  | @group index filterLine orderLine rest _ _ _ ih =>
    rcases List.mem_cons.1 hs with rfl | hmem
    · exact ⟨_, filterLine, orderLine, by simp, rfl⟩
    · obtain ⟨before, filterLine', orderLine', hline, rfl⟩ := ih hmem
      exact ⟨before, filterLine', orderLine', by simp [hline], rfl⟩

/-! ### Files -/

namespace CommandReader

/-- A reader of what is written for some sections. -/
def ofWritten (rule : BoundsRule) (sections : List Section) : CommandReader where
  input := { bytes := encode (Section.written sections) }
  rule

theorem read_written {rule : BoundsRule} {sections : List Section}
    (h : ∀ s ∈ sections, s.Expressible rule) :
    (ofWritten rule sections).items = sections.map .ok ∧
      Finished sections.length none (ofWritten rule sections).drained := by
  have hlines : ∀ text ∈ sections.flatMap Section.texts, Line text := by
    intro text htext
    obtain ⟨s, hs, hmem⟩ := List.mem_flatMap.1 htext
    exact Section.line_of_mem_texts (h s hs) hmem
  have hlayout := Section.layout_texts h 0
  rw [← reads_written hlines, ← Section.written] at hlayout
  obtain ⟨hitems, hfinished⟩ := read_layout hlayout (between_start rule _)
  rw [Nat.zero_add] at hfinished
  exact ⟨hitems.trans (List.append_nil _), hfinished⟩

theorem expressible_of_mem_items {rule : BoundsRule} {input : ByteStream} {s : Section}
    (h : .ok s ∈ ({ input, rule } : CommandReader).items) (hs : s.warnings = []) :
    s.Expressible rule := by
  obtain ⟨sections, ending, hlayout⟩ := exists_layout rule 0 input.reads
  rw [(read_layout hlayout (between_start rule input)).1] at h
  have hmem : s ∈ sections := by
    rcases List.mem_append.1 h with hsection | hend
    · obtain ⟨_, hmem, heq⟩ := List.mem_map.1 hsection
      exact Except.ok.inj heq ▸ hmem
    · obtain ⟨_, -, heq⟩ := List.mem_map.1 hend
      cases heq
  obtain ⟨before, filterLine, orderLine, hline, rfl⟩ := hlayout.exists_ofLines hmem
  exact Section.expressible_of_ofLines (newline_not_mem_of_mem_reads hline) hs

/-- The sections that are read without a warning. -/
def clean (r : CommandReader) : List Section :=
  (r.items.filterMap Except.toOption).filter (·.warnings.isEmpty)

/-- Sections that can be written are read back from what is written, up to the end of the file and
four lines for each. Sections that are read without a warning can be written, and are read back. -/
theorem reads_back_expressible (rule : BoundsRule) :
    (∀ sections : List Section, (∀ s ∈ sections, s.Expressible rule) →
      (ofWritten rule sections).items = sections.map .ok ∧
        (ofWritten rule sections).drained.phase = .exhausted ∧
        (ofWritten rule sections).drained.line = 4 * sections.length) ∧
    ∀ input : ByteStream,
      (∀ s, .ok s ∈ ({ input, rule } : CommandReader).items → s.warnings = [] →
        s.Expressible rule) ∧
      (ofWritten rule (clean { input, rule })).items = (clean { input, rule }).map .ok := by
  refine ⟨fun sections h => ?_, fun input => ⟨fun s => expressible_of_mem_items, ?_⟩⟩
  · obtain ⟨hitems, hline, hphase⟩ := read_written h
    exact ⟨hitems, hphase, hline⟩
  · have hclean : ∀ s ∈ clean { input, rule }, s.Expressible rule := by
      intro s hs
      obtain ⟨hmem, hwarnings⟩ := List.mem_filter.1 hs
      obtain ⟨item, hitem, hsome⟩ := List.mem_filterMap.1 hmem
      obtain rfl : item = .ok s := by
        cases item with
        | error _ => cases hsome
        | ok _ => exact congrArg _ (Option.some.inj hsome)
      exact expressible_of_mem_items hitem (List.isEmpty_iff.1 hwarnings)
    exact (read_written hclean).1

/-- A name may end with a carriage return, since the separator keeps it from the line's end. -/
theorem reads_back_carriage_return :
    ({ input := { bytes := encode "FILTER\nfile#a\r#\nORDER\nsize#REVERSE#\n" },
       rule := .strict } : CommandReader).items =
      [.ok { selector := .filter (.file "a\r"), ranking := .reverse (.key .size),
             warnings := [] }] := by
  have hwritten : "FILTER\nfile#a\r#\nORDER\nsize#REVERSE#\n" = Section.written
      [{ selector := .filter (.file "a\r"), ranking := .reverse (.key .size),
         warnings := [] }] := by
    decide
  rw [hwritten]
  refine ((reads_back_expressible .strict).1 _ (List.forall_mem_singleton.2 ?_)).1
  refine ⟨⟨by decide, fun _ => nofun, ?_⟩, by decide, rfl⟩
  rintro text ⟨⟩
  constructor <;> decide

end CommandReader

end FileSelection
