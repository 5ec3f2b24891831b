import FileSelection.Proofs.File.Paths

/-! Names and paths of files. The name of a file is the last component of its path, when separators
and single dots at the end of the path are left out; `EndsIn` says what that component is without
cutting the path into parts. Where the last component leads nowhere or goes up, the name is empty.
An entry of a directory keeps its own name, and different names give different paths, even where the
path of the directory is no text and many directories are shown alike. -/

namespace FileSelection

open Text

namespace Path

variable {path last last' tail : Bytes}

/-- What leads nowhere at the end of a path: separators, and single dots behind separators. -/
inductive Trailing : Bytes → Prop
  | nil : Trailing []
  | onSeparator {rest : Bytes} : Trailing rest → Trailing (separator :: rest)
  | onDot {rest : Bytes} : Trailing rest → Trailing (separator :: (dot ++ rest))

/-- The last component of a path, without what is trailing. At the front of the path it may be
empty, where the path has no component, and may be a single dot. Behind a separator it is neither:
both would be trailing themselves. -/
inductive EndsIn : Bytes → Bytes → Prop
  | alone {last tail : Bytes} :
    separator ∉ last → Trailing tail → EndsIn (last ++ tail) last
  | behind {front last tail : Bytes} :
    separator ∉ last → last ≠ [] → last ≠ dot → Trailing tail →
      EndsIn (front ++ separator :: (last ++ tail)) last

/-! ### There is a last component -/

theorem Trailing.append (h : Trailing tail) {more : Bytes} (hmore : Trailing more) :
    Trailing (tail ++ more) := by
  induction h with
  | nil => exact hmore
  | onSeparator _ ih => exact ih.onSeparator
  | onDot _ ih => exact ih.onDot

theorem EndsIn.append_trailing (h : EndsIn path last) (htail : Trailing tail) :
    EndsIn (path ++ tail) last := by
  cases h with
  | alone hlast hshort =>
    rw [List.append_assoc]
    exact .alone hlast (hshort.append htail)
  | behind hlast hne hdot hshort =>
    rw [List.append_assoc, List.cons_append, List.append_assoc]
    exact .behind hlast hne hdot (hshort.append htail)

/-- What stands behind the last separator. -/
theorem exists_eq_append_separator (h : separator ∈ path) :
    ∃ front part, path = front ++ separator :: part ∧ separator ∉ part := by
  obtain ⟨part, front, hpath, hpart⟩ := List.eq_append_cons_of_mem (List.mem_reverse.2 h)
  refine ⟨front.reverse, part.reverse, ?_, fun hmem => hpart (List.mem_reverse.1 hmem)⟩
  rw [← List.reverse_reverse path, hpath, List.reverse_append, List.reverse_cons,
    List.append_assoc, List.singleton_append]

/-- The recursion leaves out one trailing part after the other. -/
theorem exists_endsIn (path : Bytes) : ∃ last, EndsIn path last := by
  by_cases hsep : separator ∈ path
  · obtain ⟨front, part, hpath, hpart⟩ := exists_eq_append_separator hsep
    have hshorter : front.length < path.length := by
      rw [hpath, List.length_append, List.length_cons]
      omega
    by_cases hempty : part = []
    · obtain ⟨last, hlast⟩ := exists_endsIn front
      rw [hpath, hempty]
      exact ⟨last, hlast.append_trailing Trailing.nil.onSeparator⟩
    by_cases hdot : part = dot
    · obtain ⟨last, hlast⟩ := exists_endsIn front
      rw [hpath, hdot]
      exact ⟨last, hlast.append_trailing Trailing.nil.onDot⟩
    · rw [hpath, ← List.append_nil part]
      exact ⟨part, .behind hpart hempty hdot .nil⟩
  · rw [← List.append_nil path]
    exact ⟨path, .alone hsep .nil⟩
termination_by path.length

/-! ### The base name is the last component -/

theorem components_append_separator (path rest : Bytes) :
    components (path ++ separator :: rest) = components path ++ components rest := by
  rw [components, parts_append_separator, List.filter_append]
  rfl

/-- Nothing trailing is a component. -/
theorem Trailing.components_append (h : Trailing tail) (path : Bytes) :
    components (path ++ tail) = components path := by
  induction h generalizing path with
  | nil => rw [List.append_nil]
  | @onSeparator rest _ ih =>
    rw [List.append_cons, ih, components_append_separator]
    exact List.append_nil _
  | @onDot rest _ ih =>
    have hsplit : path ++ separator :: (dot ++ rest) = path ++ separator :: dot ++ rest := by
      rw [List.append_assoc, List.cons_append]
    rw [hsplit, ih, components_append_separator]
    exact List.append_nil _

theorem components_of_not_mem (h : separator ∉ last) :
    components last = if last = [] ∨ last = dot then [] else [last] := by
  rw [components, parts, cut_of_not_mem h]
  by_cases hempty : last = []
  · rw [if_pos (.inl hempty), hempty]
    rfl
  by_cases hdot : last = dot
  · rw [if_pos (.inr hdot), hdot]
    rfl
  · simp [hempty, hdot]

theorem EndsIn.getLast?_components (h : EndsIn path last) :
    (components path).getLast? = if last = [] ∨ last = dot then none else some last := by
  cases h with
  | alone hlast htail =>
    rw [htail.components_append, components_of_not_mem hlast]
    split_ifs <;> rfl
  | behind hlast hne hdot htail =>
    have hproper : ¬(last = [] ∨ last = dot) := not_or.2 ⟨hne, hdot⟩
    rw [components_append_separator, htail.components_append, components_of_not_mem hlast,
      if_neg hproper, List.getLast?_concat, if_neg hproper]

/-- Only at the front of a path is the last component empty or a single dot. -/
theorem EndsIn.exists_eq_append (h : EndsIn path last) (hlast : last = [] ∨ last = dot) :
    ∃ tail, Trailing tail ∧ path = last ++ tail := by
  cases h with
  | alone _ htail => exact ⟨_, htail, rfl⟩
  | behind _ hne hdot _ => exact absurd hlast (not_or.2 ⟨hne, hdot⟩)

theorem Trailing.ne_dot_append (h : Trailing tail) (rest : Bytes) : tail ≠ dot ++ rest := by
  rintro rfl
  cases h

theorem EndsIn.unique (h : EndsIn path last) (h' : EndsIn path last') : last = last' := by
  have hcomponent := h.getLast?_components.symm.trans h'.getLast?_components
  split_ifs at hcomponent with hlast hlast' hlast'
  · -- Neither is a component, so the bytes decide: nothing trailing begins with a dot.
    obtain ⟨tail, htail, hpath⟩ := h.exists_eq_append hlast
    obtain ⟨tail', htail', rfl⟩ := h'.exists_eq_append hlast'
    rcases hlast with rfl | rfl <;> rcases hlast' with rfl | rfl
    · rfl
    · exact absurd hpath.symm (htail.ne_dot_append tail')
    · exact absurd hpath (htail'.ne_dot_append tail)
    · rfl
  · exact Option.some.inj hcomponent

theorem EndsIn.baseName_eq (h : EndsIn path last) :
    baseName path = if last = dot ∨ last = dotDot then [] else last := by
  rw [baseName, h.getLast?_components]
  by_cases hempty : last = []
  · subst hempty
    rfl
  by_cases hdot : last = dot
  · rw [if_pos (.inr hdot), if_pos (.inl hdot)]
  · rw [if_neg (not_or.2 ⟨hempty, hdot⟩)]
    simp only [hdot, false_or]

end Path

namespace FileInfo

variable {path last : Bytes} {size : UInt64} {attributes : Attributes}

theorem name_ofPath (h : Path.EndsIn path last) :
    (ofPath path size attributes).name =
      if last = Path.dot ∨ last = Path.dotDot then "" else Utf8.lossy last := by
  change Utf8.lossy (Path.baseName path) = _
  rw [h.baseName_eq, apply_ite Utf8.lossy]
  rfl

theorem name_ofPath_eq_empty_iff (h : Path.EndsIn path last) :
    (ofPath path size attributes).name = "" ↔
      last = [] ∨ last = Path.dot ∨ last = Path.dotDot := by
  rw [name_ofPath h]
  split_ifs with hdots
  · exact iff_of_true rfl (.inr hdots)
  · rw [Utf8.lossy_eq_empty_iff, or_iff_left hdots]

/-- An entry of a directory keeps its own name. -/
theorem ofPath_entry {directory name : Bytes} {text : String} (hdirectory : directory ≠ [])
    (hname : Path.LeadsDown name) (htext : Utf8.decode? name = some text) (size : UInt64)
    (attributes : Attributes) :
    ofPath (Path.join directory name) size attributes = {
      name := text
      path := Utf8.lossy directory ++ (if Path.endsWithSeparator directory then "" else "/") ++ text
      size
      attributes } := by
  obtain rfl := Utf8.decode?_eq_some_iff.1 htext
  rw [ofPath_join hname]
  simp only [hdirectory, false_or]

/-- The name of a file is the text of the last component of its path, empty where the path has no
component or only a dot, and where it goes up at its end. The path is shown as a whole. An entry of
a directory keeps its name, and its path is that of the directory, a separator unless there is one,
and the name. So in one directory different entries have different names and different paths,
whatever bytes the path of the directory has. -/
theorem ofPath_faithful :
    (∀ (path : Bytes) (size : UInt64) (attributes : Attributes), ∃ last,
      (∀ other, Path.EndsIn path other ↔ other = last) ∧
      (ofPath path size attributes).name =
        (if last = Path.dot ∨ last = Path.dotDot then "" else Utf8.lossy last) ∧
      ((ofPath path size attributes).name = "" ↔
        last = [] ∨ last = Path.dot ∨ last = Path.dotDot) ∧
      (ofPath path size attributes).path = Utf8.lossy path) ∧
    ∀ directory name : Bytes, directory ≠ [] → Path.LeadsDown name →
      ∀ (text : String) (size : UInt64) (attributes : Attributes),
        Utf8.decode? name = some text →
          ofPath (Path.join directory name) size attributes = {
            name := text
            path := Utf8.lossy directory ++
              (if Path.endsWithSeparator directory then "" else "/") ++ text
            size
            attributes } ∧
          ∀ (name' : Bytes) (text' : String) (size' : UInt64) (attributes' : Attributes),
            Path.LeadsDown name' → Utf8.decode? name' = some text' → name ≠ name' →
              let file := ofPath (Path.join directory name) size attributes
              let file' := ofPath (Path.join directory name') size' attributes'
              file.name ≠ file'.name ∧ file.path ≠ file'.path := by
  constructor
  · intro path size attributes
    obtain ⟨last, hlast⟩ := Path.exists_endsIn path
    refine ⟨last, fun other => ⟨fun hother => hother.unique hlast, ?_⟩, name_ofPath hlast,
      name_ofPath_eq_empty_iff hlast, rfl⟩
    rintro rfl
    exact hlast
  · intro directory name hdirectory hname text size attributes htext
    refine ⟨ofPath_entry hdirectory hname htext size attributes, ?_⟩
    intro name' text' size' attributes' hname' htext' hne
    have htexts : text ≠ text' := by
      rintro rfl
      exact hne ((Utf8.decode?_eq_some_iff.1 htext).trans (Utf8.decode?_eq_some_iff.1 htext').symm)
    rw [ofPath_entry hdirectory hname htext, ofPath_entry hdirectory hname' htext']
    exact ⟨htexts, fun hpaths => htexts (by simpa using hpaths)⟩

/-- The directory's path ends within a character, and its text is that of many other paths. -/
theorem ofPath_faithful_within_character :
    ofPath (Path.join [0x2F, 0xE2, 0x82] [0xC3, 0xA9]) 1 {} =
      { name := "é", path := "/\uFFFD/é", size := 1, attributes := {} } ∧
    (ofPath (Path.join [0x2F, 0xE2, 0x82] [0xC3, 0xA9]) 1 {}).path ≠
      (ofPath (Path.join [0x2F, 0xE2, 0x82] [0x61]) 2 {}).path := by
  obtain ⟨hfile, happart⟩ := ofPath_faithful.2 [0x2F, 0xE2, 0x82] [0xC3, 0xA9] (by decide)
    ⟨by decide, by decide, by decide, by decide⟩ "é" 1 {} (by decide)
  refine ⟨hfile.trans (by decide), ?_⟩
  exact (happart [0x61] "a" 2 {} ⟨by decide, by decide, by decide, by decide⟩ (by decide)
    (by decide)).2

end FileInfo

end FileSelection
