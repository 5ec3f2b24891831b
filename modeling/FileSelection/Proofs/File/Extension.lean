import FileSelection.File.Info
import Mathlib.Data.String.Basic

/-! The extension of a name. A name with a dot behind its first character is a stem, a dot and a
suffix without dots in exactly one way, and the suffix is the extension; other names have none. The
same text comes from a search for the last dot from the end, by offsets into the bytes of the name:
behind the dot that is found there is always a place between two characters. -/

namespace FileSelection

open String.Slice.Pattern

/-! ### The last character of a kind -/

namespace Text

variable {c : Char}

/-- Where a step of a search has found what is looked for. -/
def foundAt? {s : String.Slice} : SearchStep s → Option s.Pos
  | .matched start _ => some start
  | .rejected _ _ => none

theorem revFind?_eq_findSome? (s : String.Slice) (c : Char) :
    s.revFind? c = (ToBackwardSearcher.toSearcher c s).toList.findSome? foundAt? := by
  rw [String.Slice.revFind?, ← Std.Iter.findSome?_toList]
  refine congrArg (List.findSome? · _) (funext fun step => ?_)
  cases step <;> rfl

/-- The induction is on the steps of a search that goes on towards the front, where the character
does not stand behind the place that it has reached. -/
theorem findSome?_of_search {s : String.Slice} {reached : s.Pos} {steps : List (SearchStep s)}
    (h : Model.IsValidRevSearchFrom c reached steps) {before behind : String}
    (hsplits : reached.Splits before behind) (hbehind : c ∉ behind.toList) :
    (steps.findSome? foundAt? = none → c ∉ s.copy.toList) ∧
      ∀ found, steps.findSome? foundAt? = some found →
        ∃ front back, found.Splits front (String.singleton c ++ back) ∧ c ∉ back.toList := by
  induction h generalizing before behind with
  | startPos =>
    obtain ⟨-, rfl⟩ := String.Slice.splits_startPos_iff.1 hsplits
    refine ⟨fun _ => hbehind, fun found hfound => ?_⟩
    cases hfound
  | matched hmatch _ _ =>
    obtain ⟨hstart, rfl, rfl⟩ := Model.Char.isLongestRevMatchAt_iff.1 hmatch
    obtain ⟨front, rfl⟩ := hsplits.exists_eq_append_singleton_of_ne_startPos hstart
    refine ⟨fun hnone => ?_, fun found hfound => ?_⟩
    · cases hnone
    · cases hfound
      exact ⟨front, behind, hsplits.prev, hbehind⟩
  | @mismatched _ start reached _ hmismatch _ ih =>
    refine ih start.splits fun hmem => ?_
    obtain ⟨pos, hpos, hend, rfl⟩ := start.splits.mem_toList_right_iff.1 hmem
    have hreached : reached ≤ pos := by
      by_contra hnot
      refine hmismatch (pos.next hend) ?_ ?_ (Model.Char.revMatchesAt_iff.2 ⟨by simp, by simp⟩)
      · exact String.Slice.Pos.lt_next_iff_le.2 hpos
      · exact String.Slice.Pos.next_le_iff_lt.2 (Std.not_le.1 hnot)
    exact hbehind (hsplits.mem_toList_right_iff.2 ⟨pos, hreached, hend, rfl⟩)

theorem revFind?_slice (s : String.Slice) (c : Char) :
    (s.revFind? c = none → c ∉ s.copy.toList) ∧
      ∀ found, s.revFind? c = some found →
        ∃ front back, found.Splits front (String.singleton c ++ back) ∧ c ∉ back.toList := by
  rw [revFind?_eq_findSome?]
  exact findSome?_of_search (Model.LawfulToBackwardSearcherModel.isValidRevSearchFrom_toList s)
    s.splits_endPos List.not_mem_nil

variable {text : String}

theorem not_mem_of_revFind? (h : text.revFind? c = none) : c ∉ text.toList := by
  rw [String.revFind?, Option.map_eq_none_iff] at h
  rw [← String.copy_toSlice (s := text)]
  exact (revFind?_slice text.toSlice c).1 h

/-- What is found is the last of the characters. -/
theorem splits_of_revFind? {found : text.Pos} (h : text.revFind? c = some found) :
    ∃ front back, found.Splits front (String.singleton c ++ back) ∧ c ∉ back.toList := by
  rw [String.revFind?, Option.map_eq_some_iff] at h
  obtain ⟨pos, hpos, rfl⟩ := h
  obtain ⟨front, back, hsplits, hback⟩ := (revFind?_slice text.toSlice c).2 pos hpos
  exact ⟨front, back, String.Slice.Pos.splits_ofToSlice_iff.2 hsplits, hback⟩

/-- The text from an offset of its bytes on. There is none where the offset is out of range or
within a character. -/
def sliceFrom? (text : String) (offset : ℕ) : Option String :=
  if h : (String.Pos.Raw.mk offset).IsValid text then some (text.sliceFrom (text.pos _ h)).copy
  else none

theorem sliceFrom?_append (front back : String) :
    sliceFrom? (front ++ back) front.utf8ByteSize = some back := by
  have hvalid : (String.Pos.Raw.mk front.utf8ByteSize).IsValid (front ++ back) :=
    String.Pos.Raw.isValid_iff_exists_append.2 ⟨front, back, rfl, rfl⟩
  have hsplits : (String.pos (front ++ back) _ hvalid).Splits front back := ⟨rfl, rfl⟩
  rw [sliceFrom?, dif_pos hvalid, hsplits.copy_sliceFrom_eq]

end Text

namespace FileInfo

open Text

variable {name stem stem' suffix suffix' : String}

/-- A name written as a stem that is not empty, a dot, and a suffix without dots. -/
structure Dotted (name stem suffix : String) : Prop where
  eq_append : name = stem ++ "." ++ suffix
  stem_ne_empty : stem ≠ ""
  dot_not_mem : '.' ∉ suffix.toList

/-- The extension by offsets into the bytes of a name: what stands behind the last dot, unless that
dot is at offset zero. There is no answer where the offset behind the dot is out of range or within
a character. -/
def extensionByOffset? (name : String) : Option String :=
  match name.revFind? '.' with
  | none => some ""
  | some last =>
    if last.offset.byteIdx = 0 then some "" else sliceFrom? name (last.offset.byteIdx + 1)

/-! ### The part behind the last dot -/

theorem extension_of_not_mem (h : '.' ∉ name.toList) : extension name = "" := by
  rw [extension, cut_of_not_mem h]
  rfl

theorem extension_of_cut {pieces : List (List Char)} {last : List Char} (hpieces : pieces ≠ [])
    (h : cut '.' name.toList = pieces ++ [last]) :
    extension name = if pieces = [[]] then "" else String.ofList last := by
  obtain ⟨front, stem, rfl⟩ := (List.eq_nil_or_concat pieces).resolve_left hpieces
  rw [extension, h]
  simp [List.append_eq_cons_iff]

theorem extension_append_dot (h : '.' ∉ suffix.toList) :
    extension (stem ++ "." ++ suffix) = if stem = "" then "" else suffix := by
  have hcut : cut '.' (stem ++ "." ++ suffix).toList = cut '.' stem.toList ++ [suffix.toList] := by
    rw [String.append_assoc, String.toList_append, String.toList_append, ← cut_of_not_mem h]
    exact cut_append_separator '.' stem.toList suffix.toList
  rw [extension_of_cut (cut_ne_nil '.' stem.toList) hcut, String.ofList_toList]
  simp only [cut_eq_singleton_nil_iff, String.toList_eq_nil_iff]

/-! ### The only suffix -/

theorem Dotted.extension_eq (h : Dotted name stem suffix) : extension name = suffix := by
  rw [h.eq_append, extension_append_dot h.dot_not_mem, if_neg h.stem_ne_empty]

theorem Dotted.stem_eq (h : Dotted name stem suffix) (h' : Dotted name stem' suffix') :
    stem = stem' := by
  have hname := h.eq_append.symm.trans h'.eq_append
  rw [← h.extension_eq, ← h'.extension_eq] at hname
  simpa using hname

theorem Dotted.append (h : Dotted name stem suffix) (front : String) :
    Dotted (front ++ name) (front ++ stem) suffix where
  eq_append := by rw [h.eq_append, String.append_assoc, String.append_assoc, String.append_assoc]
  stem_ne_empty := fun hempty => h.stem_ne_empty (String.append_eq_empty_iff.1 hempty).2
  dot_not_mem := h.dot_not_mem

theorem Dotted.mem_tail (h : Dotted name stem suffix) : '.' ∈ name.toList.tail := by
  have hstem : stem.toList ≠ [] := fun hnil => h.stem_ne_empty (String.toList_eq_nil_iff.1 hnil)
  rw [h.eq_append, String.append_assoc, String.toList_append, String.toList_append,
    List.tail_append_of_ne_nil hstem]
  exact List.mem_append_right _ (List.mem_append_left _ List.mem_cons_self)

/-- A name with a dot has a last one, maybe at its front. -/
theorem exists_eq_append_dot (h : '.' ∈ name.toList) :
    ∃ stem suffix, name = stem ++ "." ++ suffix ∧ '.' ∉ suffix.toList := by
  cases hfind : name.revFind? '.' with
  | none => exact absurd h (not_mem_of_revFind? hfind)
  | some last =>
    obtain ⟨stem, suffix, hsplits, hsuffix⟩ := splits_of_revFind? hfind
    exact ⟨stem, suffix, hsplits.eq_append.trans String.append_assoc.symm, hsuffix⟩

theorem exists_dotted (h : '.' ∈ name.toList.tail) : ∃ stem, Dotted name stem (extension name) := by
  obtain ⟨stem, suffix, rfl, hsuffix⟩ := exists_eq_append_dot (List.mem_of_mem_tail h)
  have hstem : stem ≠ "" := by
    rintro rfl
    exact hsuffix (by simpa using h)
  have hdotted : Dotted (stem ++ "." ++ suffix) stem suffix := ⟨rfl, hstem, hsuffix⟩
  exact ⟨stem, by rwa [hdotted.extension_eq]⟩

theorem extension_of_not_mem_tail (h : '.' ∉ name.toList.tail) : extension name = "" := by
  by_cases hmem : '.' ∈ name.toList
  · obtain ⟨stem, suffix, hname, hsuffix⟩ := exists_eq_append_dot hmem
    have hstem : stem = "" := by
      by_contra hne
      exact h (Dotted.mem_tail ⟨hname, hne, hsuffix⟩)
    rw [hname, extension_append_dot hsuffix, if_pos hstem]
  · exact extension_of_not_mem hmem

theorem extension_append (front : String) (h : extension name ≠ "") :
    extension (front ++ name) = extension name := by
  have hmem : '.' ∈ name.toList.tail := by
    by_contra hnot
    exact h (extension_of_not_mem_tail hnot)
  obtain ⟨stem, hdotted⟩ := exists_dotted hmem
  exact (hdotted.append front).extension_eq

/-! ### The same by offsets -/

/-- The offset behind the last dot is always in range and between two characters. -/
theorem extensionByOffset?_eq (name : String) :
    extensionByOffset? name = some (extension name) := by
  rw [extensionByOffset?]
  cases hfind : name.revFind? '.' with
  | none => exact congrArg some (extension_of_not_mem (not_mem_of_revFind? hfind)).symm
  | some last =>
    obtain ⟨stem, suffix, hsplits, hsuffix⟩ := splits_of_revFind? hfind
    have hname : name = stem ++ "." ++ suffix := hsplits.eq_append.trans String.append_assoc.symm
    have hoffset : last.offset.byteIdx = stem.utf8ByteSize := by
      rw [hsplits.offset_eq_rawEndPos]
      rfl
    have hbehind : last.offset.byteIdx + 1 = (stem ++ ".").utf8ByteSize := by
      rw [hoffset, String.utf8ByteSize_append]
      rfl
    dsimp only
    rw [hbehind, hoffset, hname, sliceFrom?_append, extension_append_dot hsuffix]
    simp only [String.utf8ByteSize_eq_zero_iff]
    split_ifs <;> rfl

/-- A name with a dot behind its first character is a stem that is not empty, a dot and its
extension, and can be written as a stem, a dot and a suffix without dots in no other way; any other
name has an empty extension. Cutting the bytes of the name behind its last dot gives the extension
too and never fails. What is put in front of a name leaves an extension as it is. -/
theorem extension_unique_suffix (name : String) :
    ('.' ∈ name.toList.tail → ∃ stem, ∀ front suffix,
      Dotted name front suffix ↔ front = stem ∧ suffix = extension name) ∧
    ('.' ∉ name.toList.tail → extension name = "") ∧
    extensionByOffset? name = some (extension name) ∧
    ∀ front, extension name ≠ "" → extension (front ++ name) = extension name := by
  refine ⟨fun hmem => ?_, extension_of_not_mem_tail, extensionByOffset?_eq name, extension_append⟩
  obtain ⟨stem, hstem⟩ := exists_dotted hmem
  refine ⟨stem, fun front suffix => ⟨fun h => ⟨h.stem_eq hstem, h.extension_eq.symm⟩, ?_⟩⟩
  rintro ⟨rfl, rfl⟩
  exact hstem

/-- Two dots and characters of more than one byte; and a name whose only dot hides the file. -/
theorem extension_unique_suffix_accented :
    (∃ stem, ∀ front suffix, Dotted "é.tar.ê" front suffix ↔
      front = stem ∧ suffix = extension "é.tar.ê") ∧
    extension "é.tar.ê" = "ê" ∧
    extension ("v1." ++ "é.tar.ê") = "ê" ∧
    extension ".é" = "" := by
  obtain ⟨hsplit, -, -, happend⟩ := extension_unique_suffix "é.tar.ê"
  have hextension : extension "é.tar.ê" = "ê" := by decide
  refine ⟨hsplit (by decide), hextension, ?_, (extension_unique_suffix ".é").2.1 (by decide)⟩
  rw [happend "v1." (by decide), hextension]

end FileInfo

end FileSelection
