import FileSelection.Proofs.File.Lookup

/-! What the inventory of a directory holds. Each of its files stands for one entry whose path leads
to a regular file and whose name is text, and each such entry has a file. The name and the path are
those of the entry; the size and what is allowed are those of the file to which its path leads. The
entries are inspected one by one, so none of them has a say in what becomes of another, and only the
directory itself can make the inventory fail. -/

namespace FileSelection

open Text
open FileSelection.Path (ProperName)

/-! ### One entry at a time -/

namespace Inventory

theorem files_eq_filterMap (directory : Bytes) (entries : List DirectoryEntry) :
    (ofListing { directory, entries }).files =
      entries.filterMap fun entry => (inspect directory entry).toOption := by
  rw [ofListing, List.filterMap_map]
  refine List.filterMap_congr fun entry _ => ?_
  rw [Function.comp_apply]
  cases inspect directory entry <;> rfl

theorem toOption_eq_some_iff {directory : Bytes} {entry : DirectoryEntry} {file : FileInfo} :
    (inspect directory entry).toOption = some file ↔ inspect directory entry = .ok file := by
  cases inspect directory entry <;> simp [Except.toOption]

theorem mem_files_iff {directory : Bytes} {entries : List DirectoryEntry} {file : FileInfo} :
    file ∈ (ofListing { directory, entries }).files ↔
      ∃ entry ∈ entries, inspect directory entry = .ok file := by
  simp only [files_eq_filterMap, List.mem_filterMap, toOption_eq_some_iff]

/-- The files of a listing are those of its entries, each taken by itself. -/
theorem files_eq_flatMap (directory : Bytes) (entries : List DirectoryEntry) :
    (ofListing { directory, entries }).files =
      entries.flatMap fun entry => (ofListing { directory, entries := [entry] }).files := by
  induction entries with
  | nil => rfl
  | cons entry entries ih =>
    rw [List.flatMap_cons, ← ih]
    simp only [files_eq_filterMap, List.filterMap_cons, List.filterMap_nil]
    split <;> rfl

end Inventory

namespace FileTree

/-- A file of an inventory and the name of the entry for which it stands: the name is the entry's
own, and what else is known is known of the regular file to which the entry's path leads. -/
structure Lists (tree : FileTree) (directory name : Bytes) (file : FileInfo) : Prop where
  encode_name : Utf8.encode file.name = name
  path_eq : file.path =
    Utf8.lossy directory ++ (if Path.endsWithSeparator directory then "" else "/") ++ file.name
  target : ∃ text hole writable executable,
    tree.find (Path.join directory name) = .ok (.file text hole writable executable) ∧
      file.size = UInt64.ofNat (text.length + hole) ∧
      file.attributes =
        { writable, executable, hidden := file.name.toList.head? = some '.' }

variable {tree : FileTree} {path directory name : Bytes} {children : List (Bytes × Node)}
  {file : FileInfo}

/-- Only a path that leads to a regular file gives a file. -/
theorem exists_find_of_inspect
    (h : Inventory.inspect directory (tree.entry directory name) = .ok file) :
    ∃ text hole writable executable,
      tree.find (Path.join directory name) = .ok (.file text hole writable executable) := by
  cases hfind : tree.find (Path.join directory name) with
  | error cause =>
    rw [Inventory.inspect, entry, status, hfind] at h
    cases h
  | ok node =>
    cases node with
    | file text hole writable executable => exact ⟨text, hole, writable, executable, rfl⟩
    | _ =>
      rw [Inventory.inspect, entry, status, hfind] at h
      cases h

theorem inspect_of_find {text : Bytes} {hole : ℕ} {writable executable : Bool}
    (h : tree.find (Path.join directory name) = .ok (.file text hole writable executable)) :
    Inventory.inspect directory (tree.entry directory name) =
      match Utf8.decode? name with
      | none =>
        .error (Inventory.logEntry .warn ("skipping non UTF-8 name " ++ Quoted.quoteBytes name))
      | some own =>
        .ok (FileInfo.ofPath (Path.join directory name) (UInt64.ofNat (text.length + hole))
          { writable, executable, hidden := own.toList.head? = some '.' }) := by
  rw [Inventory.inspect, entry, status, h]
  rfl

theorem inspect_entry_eq_ok_iff (hdirectory : directory ≠ []) (hname : ProperName name) :
    Inventory.inspect directory (tree.entry directory name) = .ok file ↔
      tree.Lists directory name file := by
  constructor
  · intro h
    obtain ⟨text, hole, writable, executable, hfind⟩ := exists_find_of_inspect h
    rw [inspect_of_find hfind] at h
    cases hdecode : Utf8.decode? name with
    | none =>
      rw [hdecode] at h
      cases h
    | some own =>
      obtain rfl := Utf8.decode?_eq_some_iff.1 hdecode
      rw [hdecode] at h
      dsimp only at h
      rw [FileInfo.ofPath_join hname.leadsDown] at h
      simp only [hdirectory, false_or] at h
      cases h
      exact ⟨rfl, rfl, text, hole, writable, executable, hfind, rfl, rfl⟩
  · rintro ⟨rfl, hpath, text, hole, writable, executable, hfind, hsize, hattributes⟩
    rw [inspect_of_find hfind, Utf8.decode?_encode]
    dsimp only
    rw [FileInfo.ofPath_join hname.leadsDown]
    simp only [hdirectory, false_or]
    rw [← hpath, ← hsize, ← hattributes]

/-! ### The whole directory -/

/-- The names in a directory are proper, and each stands there once. -/
structure ProperNames (children : List (Bytes × Node)) : Prop where
  proper : ∀ child ∈ children, ProperName child.1
  nodup : (children.map Prod.fst).Nodup

theorem ProperNames.lookup_eq_some (h : ProperNames children) {child : Bytes × Node}
    (hchild : child ∈ children) : children.lookup child.1 = some child.2 := by
  obtain ⟨before, after, hsplit⟩ := List.append_of_mem hchild
  refine List.lookup_eq_some_iff.2 ⟨before, after, hsplit, fun other hother => ?_⟩
  have hnodup := h.nodup
  rw [hsplit, List.map_append, List.map_cons] at hnodup
  have hapart := (List.nodup_append.1 hnodup).2.2 _ (List.mem_map_of_mem hother) child.1
    List.mem_cons_self
  exact bne_iff_ne.2 (Ne.symm hapart)

/-- A path leads to a directory that can be opened, with its absolute path and what it holds. -/
def Opens (tree : FileTree) (path directory : Bytes) (children : List (Bytes × Node)) : Prop :=
  Path.absolute tree.current path = .ok directory ∧ tree.openDirectory directory = .ok children

theorem inventory_of_opens (h : tree.Opens path directory children) :
    tree.inventory path = .ok (Inventory.ofListing (tree.listing directory children)) := by
  rw [inventory, list, h.1]
  simp only [bind, Except.bind, h.2]
  rfl

theorem find_of_openDirectory (h : tree.openDirectory directory = .ok children) :
    tree.find directory = .ok (.directory children) := by
  unfold openDirectory at h
  cases hfind : tree.find directory with
  | error cause =>
    rw [hfind] at h
    cases h
  | ok node =>
    rw [hfind] at h
    cases node with
    | directory entries =>
      cases h
      rfl
    | _ => cases h

theorem inventory_eq_error_iff {cause : IoError} :
    tree.inventory path = .error cause ↔
      Path.absolute tree.current path = .error cause ∨
        ∃ directory, Path.absolute tree.current path = .ok directory ∧
          tree.openDirectory directory = .error cause := by
  rw [inventory, list]
  cases Path.absolute tree.current path with
  | error cause' => simp [bind, Except.bind, Except.map]
  | ok directory =>
    cases hopen : tree.openDirectory directory with
    | error cause' => simp [bind, Except.bind, Except.map, hopen]
    | ok children => simp [bind, Except.bind, Except.map, hopen, pure, Except.pure]

theorem nodup_names (tree : FileTree) (hdirectory : directory ≠ [])
    (hnames : ProperNames children) :
    ((Inventory.ofListing (tree.listing directory children)).files.map FileInfo.name).Nodup := by
  have hown : ∀ child ∈ children, ∀ file,
      Inventory.inspect directory (tree.entry directory child.1) = .ok file →
        Utf8.encode file.name = child.1 := fun child hchild file h =>
    ((inspect_entry_eq_ok_iff hdirectory (hnames.proper child hchild)).1 h).encode_name
  rw [listing, Inventory.files_eq_filterMap, List.filterMap_map, List.Nodup, List.pairwise_map,
    List.pairwise_filterMap]
  refine (List.pairwise_map.1 hnames.nodup).imp_of_mem ?_
  intro child child' hchild hchild' hne file hfile file' hfile' heq
  have hfile := hown child hchild file (Inventory.toOption_eq_some_iff.1 hfile)
  have hfile' := hown child' hchild' file' (Inventory.toOption_eq_some_iff.1 hfile')
  exact hne (by rw [← hfile, ← hfile', heq])

/-- The inventory of a directory that can be opened has one file for each entry whose name is text
and whose path leads to a regular file, and no other file. Names and paths tell its files apart.
Entries do not disturb each other: the files of a listing are those of its entries taken one by one,
and an entry that the directory fails to give has none. The path of an entry that is no link leads
to the entry itself. Only a directory that has no absolute path or cannot be opened has no
inventory. -/
theorem inventory_lists_eligible (tree : FileTree) (path : Bytes) :
    (∀ cause, tree.inventory path = .error cause ↔
      Path.absolute tree.current path = .error cause ∨
        ∃ directory, Path.absolute tree.current path = .ok directory ∧
          tree.openDirectory directory = .error cause) ∧
    ∀ directory children, tree.Opens path directory children → ProperNames children →
      ∃ inventory, tree.inventory path = .ok inventory ∧
        (∀ file, file ∈ inventory.files ↔ ∃ child ∈ children, tree.Lists directory child.1 file) ∧
        (inventory.files.map FileInfo.name).Nodup ∧
        (inventory.files.map FileInfo.path).Nodup ∧
        (∀ child ∈ children, (∀ target, child.2 ≠ .link target) → child.1.length ≤ maxName →
          (Path.join directory child.1).length < pathLimit →
            tree.find (Path.join directory child.1) = .ok child.2) ∧
        (∀ entries, (Inventory.ofListing { directory, entries }).files =
          entries.flatMap fun entry => (Inventory.ofListing { directory, entries := [entry] }).files) ∧
        ∀ name status cause, (Inventory.ofListing { directory, entries :=
          [{ name, status, unread := some cause }] }).files = [] := by
  refine ⟨fun cause => inventory_eq_error_iff, fun directory children hopens hnames => ?_⟩
  have hfind := find_of_openDirectory hopens.2
  have hdirectory := (form_of_find hfind).2.1
  have hmem (file : FileInfo) :
      file ∈ (Inventory.ofListing (tree.listing directory children)).files ↔
        ∃ child ∈ children, tree.Lists directory child.1 file := by
    simp only [listing, Inventory.mem_files_iff, List.mem_map, exists_exists_and_eq_and]
    refine exists_congr fun child => and_congr_right fun hchild => ?_
    exact inspect_entry_eq_ok_iff hdirectory (hnames.proper child hchild)
  have hnodup := nodup_names tree hdirectory hnames
  refine ⟨_, inventory_of_opens hopens, hmem, hnodup, ?_, ?_,
    Inventory.files_eq_flatMap directory, fun _ _ _ => rfl⟩
  · -- All paths begin alike, so they are as different as the names.
    rw [List.Nodup, List.pairwise_map] at hnodup ⊢
    refine hnodup.imp_of_mem ?_
    intro file file' hfile hfile' hne heq
    obtain ⟨_, _, hlists⟩ := (hmem file).1 hfile
    obtain ⟨_, _, hlists'⟩ := (hmem file').1 hfile'
    rw [hlists.path_eq, hlists'.path_eq] at heq
    exact hne (by simpa using heq)
  · intro child hchild hlink hshort hlength
    exact find_join_of_mem hfind (hnames.proper child hchild) hlength hshort
      (hnames.lookup_eq_some hchild) hlink

/-- A file, a hidden link to it, a link to nothing, a link to itself, a pipe, and a file whose name
is no text. -/
def mixedChildren : List (Bytes × Node) :=
  [([0x61], .file [1, 2, 3] 0 true false), ([0x2E, 0x62], .link [0x61]), ([0x63], .link [0x7A]),
    ([0x64], .link [0x64]), ([0x65], .special), ([0xFE], .file [] 0 false false)]

/-- A directory whose own name is no text either. -/
def mixedTree : FileTree := { root := .directory [([0xFF], .directory mixedChildren)] }

theorem inventory_lists_eligible_mixed :
    ∃ inventory, mixedTree.inventory [0x2F, 0xFF] = .ok inventory ∧
      (inventory.files.map FileInfo.path).Nodup ∧
      ⟨".b", "/\uFFFD/.b", 3, { writable := true, hidden := true }⟩ ∈ inventory.files := by
  have hfind : mixedTree.find [0x2F, 0xFF] = .ok (.directory mixedChildren) := by
    have hparts : (if Path.isAbsolute [0x2F, 0xFF] then [] else Path.lookups mixedTree.current) ++
        Path.lookups [0x2F, 0xFF] = [[0xFF]] := by decide
    rw [find_eq_walk (by decide) (by decide) (by decide), hparts, mixedTree,
      walk_name (by decide) (by decide) (by decide)]
    exact walk_nil ..
  have htarget : mixedTree.find [0x2F, 0xFF, 0x2F, 0x2E, 0x62] =
      .ok (.file [1, 2, 3] 0 true false) := by
    have hparts : (if Path.isAbsolute [0x2F, 0xFF, 0x2F, 0x2E, 0x62] then []
        else Path.lookups mixedTree.current) ++
          Path.lookups [0x2F, 0xFF, 0x2F, 0x2E, 0x62] = [[0xFF], [0x2E, 0x62]] := by decide
    rw [find_eq_walk (by decide) (by decide) (by decide), hparts, mixedTree,
      walk_name (by decide) (by decide) (by decide)]
    change walk _ 40 [_] (.directory mixedChildren) [[0x2E, 0x62]] = _
    rw [walk_name (by decide) (by decide) (by decide)]
    change walk _ 39 [_] (.directory mixedChildren) [[0x61]] = _
    rw [walk_name (by decide) (by decide) (by decide)]
    exact walk_nil ..
  have hnames : ProperNames mixedChildren := ⟨by decide, by decide⟩
  have hopens : mixedTree.Opens [0x2F, 0xFF] [0x2F, 0xFF] mixedChildren := by
    refine ⟨by decide, ?_⟩
    rw [openDirectory, hfind]
    rfl
  obtain ⟨inventory, hinventory, hmem, -, hpaths, -⟩ :=
    (inventory_lists_eligible mixedTree [0x2F, 0xFF]).2 _ _ hopens hnames
  refine ⟨inventory, hinventory, hpaths, (hmem _).2
    ⟨_, List.mem_cons_of_mem _ List.mem_cons_self, ?_⟩⟩
  exact ⟨by decide, by decide, _, _, _, _, htarget, by decide, by decide⟩

end FileTree

end FileSelection
