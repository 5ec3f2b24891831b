import FileSelection.File.Tree
import FileSelection.Proofs.File.Paths

/-! Following the path of an entry. Following parts one after the other arrives somewhere or fails,
and what comes after them has no part in it. So the path of an entry leads to its directory first
and then, with the links that are still allowed, to what the directory holds under the name. -/

namespace FileSelection.FileTree

open FileSelection.Path (ProperName)

/-! ### Following parts -/

section Walk

variable {root here here' : Node} {links links' : ℕ} {above above' : List Node}
  {parts parts' : List Bytes}

theorem walk_nil (root : Node) (links : ℕ) (above : List Node) (here : Node) :
    walk root links above here [] = .ok here := walk.eq_1 ..

/-- How a part is looked up in a directory. -/
theorem walk_directory (root : Node) (links : ℕ) (above : List Node)
    (entries : List (Bytes × Node)) (part : Bytes) (rest : List Bytes) :
    walk root links above (.directory entries) (part :: rest) =
      if part = Path.dot then walk root links above (.directory entries) rest
      else if part = Path.dotDot then
        match above with
        | [] => walk root links [] (.directory entries) rest
        | up :: above => walk root links above up rest
      else if maxName < part.length then .error .nameTooLong
      else
        match entries.lookup part with
        | none => .error .notFound
        | some (.link target) =>
          match links with
          | 0 => .error .linkLoop
          | links + 1 =>
            if Path.isAbsolute target then walk root links [] root (Path.lookups target ++ rest)
            else walk root links above (.directory entries) (Path.lookups target ++ rest)
        | some node => walk root links (.directory entries :: above) node rest := by
  cases above with
  | nil => exact walk.eq_2 ..
  | cons up above => exact walk.eq_3 ..

/-- How a part that is a name is looked up. -/
theorem walk_name {entries : List (Bytes × Node)} {name : Bytes} (hdot : name ≠ Path.dot)
    (hdotDot : name ≠ Path.dotDot) (hshort : ¬maxName < name.length) (rest : List Bytes) :
    walk root links above (.directory entries) (name :: rest) =
      match entries.lookup name with
      | none => .error .notFound
      | some (.link target) =>
        match links with
        | 0 => .error .linkLoop
        | links + 1 =>
          if Path.isAbsolute target then walk root links [] root (Path.lookups target ++ rest)
          else walk root links above (.directory entries) (Path.lookups target ++ rest)
      | some node => walk root links (.directory entries :: above) node rest := by
  rw [walk_directory, if_neg hdot, if_neg hdotDot, if_neg hshort]

theorem walk_of_not_directory (h : ∀ entries, here = .directory entries → False) (part : Bytes)
    (rest : List Bytes) : walk root links above here (part :: rest) = .error .notDirectory :=
  walk.eq_4 _ _ _ _ _ _ h

/-- Following parts fails on the way, whatever comes after them, or arrives at a node from which
the rest is followed. -/
def Settles (root : Node) (links : ℕ) (above : List Node) (here : Node) (parts : List Bytes) :
    Prop :=
  (∃ cause, ∀ rest, walk root links above here (parts ++ rest) = .error cause) ∨
    ∃ links' above' node, ∀ rest,
      walk root links above here (parts ++ rest) = walk root links' above' node rest

theorem Settles.of_step
    (hstep : ∀ rest, walk root links above here (parts ++ rest) =
      walk root links' above' here' (parts' ++ rest))
    (h : Settles root links' above' here' parts') : Settles root links above here parts := by
  rcases h with ⟨cause, hcause⟩ | ⟨links, above, node, hnode⟩
  · exact .inl ⟨cause, fun rest => (hstep rest).trans (hcause rest)⟩
  · exact .inr ⟨links, above, node, fun rest => (hstep rest).trans (hnode rest)⟩

/-- One part at a time: a link puts the parts of its target before the ones that are left. -/
theorem settles (root : Node) (links : ℕ) (above : List Node) (here : Node) (parts : List Bytes) :
    Settles root links above here parts := by
  fun_induction walk root links above here parts with
  | case1 links above here => exact .inr ⟨links, above, here, fun _ => rfl⟩
  | case2 links above parts entries ih =>
    exact ih.of_step fun rest => by rw [List.cons_append, walk_directory, if_pos rfl]
  | case3 links parts entries hdot ih =>
    exact ih.of_step fun rest => by rw [List.cons_append, walk_directory, if_neg hdot, if_pos rfl]
  | case4 links parts entries up above hdot ih =>
    exact ih.of_step fun rest => by rw [List.cons_append, walk_directory, if_neg hdot, if_pos rfl]
  | case5 links above part parts entries hdot hdotDot hlong =>
    exact .inl ⟨.nameTooLong, fun rest => by
      rw [List.cons_append, walk_directory, if_neg hdot, if_neg hdotDot, if_pos hlong]⟩
  | case6 links above part parts entries hdot hdotDot hshort hlookup =>
    exact .inl ⟨.notFound, fun rest => by
      rw [List.cons_append, walk_name hdot hdotDot hshort, hlookup]⟩
  | case7 above part parts entries hdot hdotDot hshort target hlookup =>
    exact .inl ⟨.linkLoop, fun rest => by
      rw [List.cons_append, walk_name hdot hdotDot hshort, hlookup]⟩
  | case8 above part parts entries hdot hdotDot hshort target hlookup links onward habsolute ih =>
    exact ih.of_step fun rest => by
      rw [List.cons_append, walk_name hdot hdotDot hshort, hlookup]
      simp only [if_pos habsolute, onward, List.append_assoc]
  | case9 above part parts entries hdot hdotDot hshort target hlookup links onward hrelative ih =>
    exact ih.of_step fun rest => by
      rw [List.cons_append, walk_name hdot hdotDot hshort, hlookup]
      simp only [if_neg hrelative, onward, List.append_assoc]
  | case10 links above part parts entries hdot hdotDot hshort node hnode hlookup ih =>
    exact ih.of_step fun rest => by
      rw [List.cons_append, walk_name hdot hdotDot hshort, hlookup]
      cases node with
      | link target => exact absurd rfl (hnode target)
      | _ => rfl
  | case11 links above here part parts hnode =>
    exact .inl ⟨.notDirectory, fun _ => walk_of_not_directory hnode part _⟩

/-- Parts that lead to a directory lead on to what comes after them. A dot at their end changes
nothing. -/
theorem exists_walk_append {entries : List (Bytes × Node)} {dots : List Bytes}
    (hdots : dots = [] ∨ dots = [Path.dot])
    (h : walk root links above here (parts ++ dots) = .ok (.directory entries)) :
    ∃ links' above', ∀ rest, walk root links above here (parts ++ rest) =
      walk root links' above' (.directory entries) rest := by
  rcases settles root links above here parts with ⟨cause, hcause⟩ | ⟨links', above', node, hnode⟩
  · rw [hcause] at h
    cases h
  · refine ⟨links', above', ?_⟩
    rw [hnode] at h
    have hentries : node = .directory entries := by
      rcases hdots with rfl | rfl
      · rw [walk_nil] at h
        exact Except.ok.inj h
      · cases node with
        | directory _ =>
          rw [walk_directory, if_pos rfl, walk_nil] at h
          exact Except.ok.inj h
        | _ => rw [walk_of_not_directory (fun _ => Node.noConfusion)] at h; cases h
    rw [hentries] at hnode
    exact hnode

end Walk

/-! ### Entries of a directory -/

variable {tree : FileTree} {path directory name : Bytes} {entries : List (Bytes × Node)}

/-- Where a path of the right form leads. -/
theorem find_eq_walk (hnul : 0 ∉ path) (hne : path ≠ []) (hlength : path.length < pathLimit) :
    tree.find path = walk tree.root maxLinks [] tree.root
      ((if Path.isAbsolute path then [] else Path.lookups tree.current) ++ Path.lookups path) := by
  rw [find, if_neg hnul, if_neg hne, if_neg (Nat.not_le.2 hlength)]

theorem form_of_find {node : Node} (h : tree.find path = .ok node) :
    0 ∉ path ∧ path ≠ [] ∧ path.length < pathLimit := by
  unfold find at h
  split at h
  · cases h
  split at h
  · cases h
  split at h
  · cases h
  next hnul hne hlength => exact ⟨hnul, hne, Nat.not_le.1 hlength⟩

/-- The path of an entry leads where its name leads from the directory. -/
theorem exists_find_join (h : tree.find directory = .ok (.directory entries))
    (hname : ProperName name) (hlength : (Path.join directory name).length < pathLimit) :
    ∃ links above, tree.find (Path.join directory name) =
      walk tree.root links above (.directory entries) [name] := by
  obtain ⟨hnul, hne, hshort⟩ := form_of_find h
  obtain ⟨dots, hdots, hlookups⟩ := Path.lookups_eq directory
  rw [find_eq_walk hnul hne hshort, hlookups, ← List.append_assoc] at h
  obtain ⟨links, above, hwalk⟩ := exists_walk_append hdots h
  refine ⟨links, above, ?_⟩
  rw [find_eq_walk (Path.nul_not_mem_join hnul hname) (Path.join_ne_nil hname directory) hlength,
    Path.isAbsolute_join hne, Path.lookups_join hname, ← List.append_assoc, hwalk]

/-- The path of an entry that is no link leads to the entry itself. -/
theorem find_join_of_mem (h : tree.find directory = .ok (.directory entries))
    (hname : ProperName name) (hlength : (Path.join directory name).length < pathLimit)
    (hshort : name.length ≤ maxName) {node : Node} (hlookup : entries.lookup name = some node)
    (hlink : ∀ target, node ≠ .link target) : tree.find (Path.join directory name) = .ok node := by
  obtain ⟨links, above, hfind⟩ := exists_find_join h hname hlength
  rw [hfind, walk_name hname.ne_dot hname.ne_dotDot (Nat.not_lt.2 hshort), hlookup]
  cases node with
  | link target => exact absurd rfl (hlink target)
  | _ => exact walk_nil ..

end FileSelection.FileTree
