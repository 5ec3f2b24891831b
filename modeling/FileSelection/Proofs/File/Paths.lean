import FileSelection.File.Info
import FileSelection.Proofs.Text.Lossy

/-! The path of an entry. It has one part more than the path of its directory, namely the name, and
that part is its last component. Its lossy text ends with the name, whatever bytes the directory's
path has. -/

namespace FileSelection

open Text

namespace Path

/-- What can be the name of an entry. -/
@[mk_iff] structure ProperName (name : Bytes) : Prop where
  ne_nil : name ≠ []
  ne_dot : name ≠ dot
  ne_dotDot : name ≠ dotDot
  separator_not_mem : separator ∉ name
  nul_not_mem : 0 ∉ name

instance : DecidablePred ProperName := fun name => decidable_of_iff _ (properName_iff name).symm

/-- A part that leads down, from a directory to one of its entries. -/
structure LeadsDown (part : Bytes) : Prop where
  ne_nil : part ≠ []
  ne_dot : part ≠ dot
  ne_dotDot : part ≠ dotDot
  separator_not_mem : separator ∉ part

theorem ProperName.leadsDown {name : Bytes} (h : ProperName name) : LeadsDown name where
  ne_nil := h.ne_nil
  ne_dot := h.ne_dot
  ne_dotDot := h.ne_dotDot
  separator_not_mem := h.separator_not_mem

/-- What stands between the path of a directory and the names of its entries. -/
def between (directory : Bytes) : Bytes :=
  if directory = [] ∨ endsWithSeparator directory then [] else [separator]

theorem join_eq (directory name : Bytes) :
    join directory name = directory ++ between directory ++ name := by
  unfold join between
  split_ifs
  · rw [List.append_nil]
  · rw [List.append_assoc, List.singleton_append]

/-- Before the name of an entry there is nothing or a separator. -/
theorem between_cases (directory : Bytes) :
    directory ++ between directory = [] ∨
      ∃ front, directory ++ between directory = front ++ [separator] := by
  unfold between
  split_ifs with hend
  · rw [List.append_nil]
    refine hend.imp id fun hlast => ?_
    exact List.getLast?_eq_some_iff.1 (of_decide_eq_true hlast)
  · exact .inr ⟨directory, rfl⟩

/-! ### Parts -/

theorem parts_append_separator (path rest : Bytes) :
    parts (path ++ separator :: rest) = parts path ++ parts rest := by
  rw [parts, cut_append_separator, List.filter_append]
  rfl

theorem parts_concat_separator (path : Bytes) : parts (path ++ [separator]) = parts path := by
  rw [parts_append_separator]
  exact List.append_nil _

theorem parts_between (directory : Bytes) :
    parts (directory ++ between directory) = parts directory := by
  unfold between
  split_ifs
  · rw [List.append_nil]
  · exact parts_concat_separator directory

theorem LeadsDown.parts_eq {part : Bytes} (h : LeadsDown part) : parts part = [part] := by
  rw [parts, cut_of_not_mem h.separator_not_mem, List.filter_singleton]
  simp [h.ne_nil]

variable {name : Bytes}

theorem parts_join (h : LeadsDown name) (directory : Bytes) :
    parts (join directory name) = parts directory ++ [name] := by
  rw [join_eq, ← parts_between directory]
  rcases between_cases directory with hnil | ⟨front, hfront⟩
  · rw [hnil, List.nil_append, h.parts_eq]
    rfl
  · rw [hfront, List.append_assoc, List.singleton_append, parts_append_separator, h.parts_eq,
      parts_concat_separator]

theorem baseName_join (h : LeadsDown name) (directory : Bytes) :
    baseName (join directory name) = name := by
  have hlast : (components (join directory name)).getLast? = some name := by
    have hname : [name].filter (· ≠ dot) = [name] := by simp [h.ne_dot]
    rw [components, parts_join h, List.filter_append, hname, List.getLast?_concat]
  rw [baseName, hlast]
  exact if_neg h.ne_dotDot

/-! ### Looking up -/

theorem lookups_eq (path : Bytes) :
    ∃ dots, (dots = [] ∨ dots = [dot]) ∧ lookups path = parts path ++ dots := by
  unfold lookups
  split_ifs
  · exact ⟨[dot], .inr rfl, rfl⟩
  · exact ⟨[], .inl rfl, (List.append_nil _).symm⟩

theorem lookups_join (h : ProperName name) (directory : Bytes) :
    lookups (join directory name) = parts directory ++ [name] := by
  have hend : ¬endsWithSeparator (join directory name) := by
    intro hend
    have hlast := of_decide_eq_true hend
    rw [join_eq, List.getLast?_append_of_ne_nil _ h.ne_nil] at hlast
    exact h.separator_not_mem (List.mem_of_getLast? hlast)
  rw [lookups, if_neg hend, parts_join h.leadsDown]

theorem isAbsolute_join {directory : Bytes} (h : directory ≠ []) (name : Bytes) :
    isAbsolute (join directory name) = isAbsolute directory := by
  rw [isAbsolute, isAbsolute, join_eq, List.append_assoc, List.head?_append_of_ne_nil _ h]

theorem nul_not_mem_join {directory : Bytes} (h : 0 ∉ directory) (hname : ProperName name) :
    0 ∉ join directory name := by
  have hbetween : 0 ∉ between directory := by
    unfold between
    split_ifs <;> decide
  rw [join_eq, List.mem_append, List.mem_append]
  exact fun hmem => hmem.elim (·.elim h hbetween) hname.nul_not_mem

theorem join_ne_nil (h : ProperName name) (directory : Bytes) : join directory name ≠ [] := by
  rw [join_eq]
  exact List.append_ne_nil_of_right_ne_nil _ h.ne_nil

/-! ### Lossy text -/

theorem lossy_between (directory : Bytes) :
    Utf8.lossy (directory ++ between directory) =
      Utf8.lossy directory ++ if directory = [] ∨ endsWithSeparator directory then "" else "/" := by
  unfold between
  split_ifs
  · rw [List.append_nil, String.append_empty]
  · apply String.toList_injective
    rw [Utf8.toList_lossy_append_ascii (by decide), String.toList_append]
    rfl

/-- The lossy text of an entry's path is that of the directory's path, a separator unless there is
one, and the name. -/
theorem lossy_join (directory : Bytes) (name : String) :
    Utf8.lossy (join directory (Utf8.encode name)) =
      Utf8.lossy directory ++
        (if directory = [] ∨ endsWithSeparator directory then "" else "/") ++ name := by
  rw [← lossy_between]
  apply String.toList_injective
  rw [join_eq, String.toList_append]
  rcases between_cases directory with hnil | ⟨front, hfront⟩
  · rw [hnil, List.nil_append, Utf8.lossy_encode]
    rfl
  · have hsep : separator.toNat < 0x80 := by decide
    rw [hfront, List.append_assoc, List.singleton_append, Utf8.toList_lossy_append_ascii hsep,
      Utf8.toList_lossy_append_ascii hsep, Utf8.lossy_encode, List.append_assoc]
    rfl

end Path

/-- The name and the path that a file has by its place in a directory. -/
theorem FileInfo.ofPath_join {name : String} (h : Path.LeadsDown (Utf8.encode name))
    (directory : Bytes) (size : UInt64) (attributes : Attributes) :
    ofPath (Path.join directory (Utf8.encode name)) size attributes = {
      name
      path := Utf8.lossy directory ++
        (if directory = [] ∨ Path.endsWithSeparator directory then "" else "/") ++ name
      size
      attributes } := by
  rw [ofPath, Path.baseName_join h, Utf8.lossy_encode, Path.lossy_join]

end FileSelection
