import FileSelection.Proofs.Selection.Stable
import Mathlib.Data.List.SplitBy

/-! Reversed rankings. What a section selects falls into runs of items whose files share the key of
its ranking. No key stands in two runs, so the ties of the ranking lie within runs, and one reversal
more puts the runs in the opposite order and leaves each of them alone. By path every file of its
own path is a run, and the selection is turned round as a whole. -/

namespace FileSelection

variable {α : Type}

/-! ### Runs -/

/-- Where at most one list holds anything, the order of the lists does not matter. -/
theorem flatten_reverse_of_pairwise {lists : List (List α)}
    (h : lists.Pairwise fun u v => u = [] ∨ v = []) : lists.reverse.flatten = lists.flatten := by
  induction lists with
  | nil => rfl
  | cons u lists ih =>
    obtain ⟨hu, hrest⟩ := List.pairwise_cons.1 h
    rw [List.reverse_cons, List.flatten_concat, ih hrest, List.flatten_cons]
    by_cases hempty : u = []
    · rw [hempty, List.append_nil, List.nil_append]
    · have hnone : lists.flatten = [] :=
        List.flatten_eq_nil_iff.2 fun v hv => (hu v hv).resolve_left hempty
      rw [hnone, List.append_nil, List.nil_append]

namespace SortKey

theorem equivalence_shared (k : SortKey) : Equivalence k.Shared := by
  cases k <;> exact ⟨fun _ => rfl, Eq.symm, Eq.trans⟩

instance (k : SortKey) : DecidableRel k.Shared := fun _ _ =>
  decidable_of_iff _ compare_eq_eq_iff_shared

/-- The longest stretches of items whose files share the key. -/
def runs (k : SortKey) (file : α → FileInfo) (items : List α) : List (List α) :=
  items.splitBy fun a b => k.Shared (file a) (file b)

variable {k : SortKey} {file : α → FileInfo} {items run : List α}

theorem isChain_shared_iff :
    run.IsChain (fun a b => k.Shared (file a) (file b)) ↔
      ∀ a ∈ run, ∀ b ∈ run, k.Shared (file a) (file b) := by
  have : Trans (fun a b => k.Shared (file a) (file b)) (fun a b => k.Shared (file a) (file b))
      fun a b => k.Shared (file a) (file b) := ⟨k.equivalence_shared.trans⟩
  have : Std.Symm fun a b => k.Shared (file a) (file b) := ⟨fun _ _ => k.equivalence_shared.symm⟩
  constructor
  · intro h a ha b hb
    exact List.Pairwise.forall_of_forall (fun c _ => k.equivalence_shared.refl (file c))
      h.pairwise ha hb
  · intro h
    exact (List.pairwise_of_forall_mem_list h).isChain

/-- The runs are the only lists that are not empty, share a key each, and are cut apart where the
key changes and nowhere else. -/
theorem runs_eq_iff {lists : List (List α)} :
    k.runs file items = lists ↔
      items = lists.flatten ∧ [] ∉ lists ∧
        (∀ run ∈ lists, ∀ a ∈ run, ∀ b ∈ run, k.Shared (file a) (file b)) ∧
        lists.IsChain fun u v => ∃ hu hv, ¬k.Shared (file (u.getLast hu)) (file (v.head hv)) := by
  rw [runs, List.splitBy_eq_iff]
  simp only [decide_eq_true_eq, decide_eq_false_iff_not, isChain_shared_iff]

theorem flatten_runs (k : SortKey) (file : α → FileInfo) (items : List α) :
    (k.runs file items).flatten = items := (runs_eq_iff.1 rfl).1.symm

theorem shared_of_mem_runs (h : run ∈ k.runs file items) {a b : α} (ha : a ∈ run) (hb : b ∈ run) :
    k.Shared (file a) (file b) :=
  have ⟨_, _, hshared, _⟩ := runs_eq_iff.1 rfl
  hshared run h a ha b hb

end SortKey

namespace Ranking

variable {r : Ranking} {file : α → FileInfo} {items : List α}

/-- In a sorted list the keys of a run are below the keys of the runs after it. -/
theorem pairwise_runs (h : r.Sorts file items) :
    (r.base.runs file items).Pairwise fun u v =>
      ∀ a ∈ u, ∀ b ∈ v, r.compareKeys (file a) (file b) = .lt := by
  generalize hruns : r.base.runs file items = runs
  obtain ⟨rfl, -, hshared, hchain⟩ := SortKey.runs_eq_iff.1 hruns
  clear hruns
  induction runs with
  | nil => exact .nil
  | cons u runs ih =>
    rw [List.flatten_cons] at h
    obtain ⟨-, hrest, hacross⟩ := List.pairwise_append.1 h
    refine List.pairwise_cons.2 ⟨fun v hv a ha b hb => ?_,
      ih hrest (fun run hrun => hshared run (List.mem_cons_of_mem _ hrun)) hchain.tail⟩
    -- Between the two items stand the last one of the run and the first one after the run.
    cases runs with
    | nil => cases hv
    | cons w runs =>
      obtain ⟨hu, hw, hboundary⟩ := (List.isChain_cons_cons.1 hchain).1
      obtain ⟨first, w, rfl⟩ := List.exists_cons_of_ne_nil hw
      have hlast : r.compareKeys (file a) (file (u.getLast hu)) = .eq :=
        compareKeys_eq_eq_iff.2 (hshared u List.mem_cons_self a ha _ (List.getLast_mem hu))
      have hstep : r.compareKeys (file (u.getLast hu)) (file first) = .lt := by
        have hle := Ordering.isLE_left_of_isLE_then
          (hacross _ (List.getLast_mem hu) first List.mem_cons_self)
        rw [List.head_cons, ← compareKeys_eq_eq_iff] at hboundary
        exact (Ordering.isLE_iff_eq_lt_or_eq_eq.1 hle).resolve_right hboundary
      have hafter : (r.compareKeys (file first) (file b)).isLE :=
        Ordering.isLE_left_of_isLE_then (isLE_of_mem_cons hrest (List.mem_flatten.2 ⟨v, hv, hb⟩))
      exact Std.TransCmp.lt_of_lt_of_isLE (Std.TransCmp.lt_of_eq_of_lt hlast hstep) hafter

/-! ### One reversal more -/

variable {a b : FileInfo}

theorem compare_reverse_eq_eq_iff : (reverse r).compare a b = .eq ↔ r.compare a b = .eq := by
  rw [compare_eq_eq_iff, compare_eq_eq_iff, compareKeys_reverse, Ordering.swap_eq_eq]

theorem compare_reverse_of_shared (h : r.base.Shared a b) :
    (reverse r).compare a b = r.compare a b := by
  rw [compare_of_shared h]
  exact compare_of_shared h

theorem compare_reverse_of_lt (h : r.compareKeys a b = .lt) : (reverse r).compare b a = .lt := by
  have hkeys : (reverse r).compareKeys b a = .lt := by
    rw [compareKeys_reverse, ← Std.OrientedCmp.eq_swap, h]
  rw [compare, hkeys]
  rfl

theorem compare_reverse_path (a b : FileInfo) :
    (reverse (.key .path)).compare b a = (key .path).compare a b := by
  have hswap : Ord.compare b.path a.path = (Ord.compare a.path b.path).swap :=
    Std.OrientedCmp.eq_swap
  simp only [compare, compareKeys, SortKey.compare, hswap]
  cases Ord.compare a.path b.path <;> rfl

theorem ties_reverse (r : Ranking) (file : α → FileInfo) (f : FileInfo) (items : List α) :
    (reverse r).ties file f items = r.ties file f items := by
  refine List.filter_congr fun a _ => ?_
  rw [Bool.eq_iff_iff, beq_iff_eq, beq_iff_eq, compare_reverse_eq_eq_iff]

/-- Items are tied with a file where they share its key and its path. -/
theorem ties_eq_filter (r : Ranking) (file : α → FileInfo) (f : FileInfo) (items : List α) :
    r.ties file f items =
      items.filter fun a => r.base.Shared f (file a) ∧ f.path = (file a).path := by
  refine List.filter_congr fun a _ => ?_
  rw [Bool.eq_iff_iff, beq_iff_eq, decide_eq_true_iff, compare_eq_eq_iff, compareKeys_eq_eq_iff]

theorem ties_flatten (r : Ranking) (file : α → FileInfo) (f : FileInfo) (lists : List (List α)) :
    r.ties file f lists.flatten = (lists.map (r.ties file f)).flatten := by
  rw [ties, List.filter_flatten]
  rfl

/-- Ties lie within a run. -/
theorem pairwise_ties_runs (h : r.Sorts file items) (f : FileInfo) :
    ((r.base.runs file items).map (r.ties file f)).Pairwise fun u v => u = [] ∨ v = [] := by
  refine List.pairwise_map.2 ((pairwise_runs h).imp fun {u v} hkeys => ?_)
  by_contra hboth
  obtain ⟨hu, hv⟩ := not_or.1 hboth
  obtain ⟨a, ha⟩ := List.exists_mem_of_ne_nil _ hu
  obtain ⟨b, hb⟩ := List.exists_mem_of_ne_nil _ hv
  have hlt := hkeys a (mem_ties_iff.1 ha).1 b (mem_ties_iff.1 hb).1
  rw [(compare_eq_eq_iff.1 (compare_of_mem_ties ha hb)).1] at hlt
  cases hlt

theorem ties_reverse_runs (h : r.Sorts file items) (f : FileInfo) :
    r.ties file f (r.base.runs file items).reverse.flatten = r.ties file f items := by
  rw [ties_flatten, List.map_reverse, flatten_reverse_of_pairwise (pairwise_ties_runs h f),
    ← ties_flatten, SortKey.flatten_runs]

theorem sorts_reverse_runs (h : r.Sorts file items) :
    (reverse r).Sorts file (r.base.runs file items).reverse.flatten := by
  refine List.pairwise_flatten.2 ⟨fun run hrun => ?_, ?_⟩
  · have hmem := List.mem_reverse.1 hrun
    have hsub : run.Sublist items := by
      conv_rhs => rw [← r.base.flatten_runs file items]
      exact List.sublist_flatten_of_mem hmem
    refine (h.sublist hsub).imp_of_mem fun ha hb hab => ?_
    rwa [compare_reverse_of_shared (SortKey.shared_of_mem_runs hmem ha hb)]
  · refine List.pairwise_reverse.2 ((pairwise_runs h).imp fun hkeys b hb a ha => ?_)
    rw [compare_reverse_of_lt (hkeys a ha b hb)]
    rfl

end Ranking

namespace Section

/-- One reversal more puts the runs in the opposite order. -/
theorem selectBy_reverse (s : Section) (file : α → FileInfo) (items : List α) :
    { s with ranking := .reverse s.ranking }.selectBy file items =
      (s.ranking.base.runs file (s.selectBy file items)).reverse.flatten := by
  obtain ⟨hsorted, hties⟩ := eq_selectBy_iff.1 (rfl : s.selectBy file items = _)
  refine (eq_selectBy_iff (s := { s with ranking := .reverse s.ranking }).2
    ⟨Ranking.sorts_reverse_runs hsorted, fun f => ?_⟩).symm
  rw [Ranking.ties_reverse, Ranking.ties_reverse, Ranking.ties_reverse_runs hsorted, hties]

/-- Items of files with paths of their own are turned round as a whole by path. -/
theorem selectBy_reverse_path (s : Section) (file : α → FileInfo) {items : List α}
    (hpaths : (items.map fun a => (file a).path).Nodup) :
    { s with ranking := .reverse (.key .path) }.selectBy file items =
      ({ s with ranking := .key .path }.selectBy file items).reverse := by
  set straight := { s with ranking := .key .path }.selectBy file items
  have hsorted : (Ranking.reverse (.key .path)).Sorts file straight.reverse := by
    refine List.pairwise_reverse.2 ((sorts_selectBy _ file items).imp fun {a b} hab => ?_)
    rwa [Ranking.compare_reverse_path]
  have hperm : ({ s with ranking := .reverse (.key .path) }.selectBy file items).Perm
      straight.reverse := by
    have hstraight := selectBy_perm { s with ranking := .key .path } file items
    exact (selectBy_perm _ file items).trans
      (hstraight.symm.trans (List.reverse_perm straight).symm)
  exact Ranking.eq_of_perm (sorts_selectBy _ file items) hsorted hperm
    (nodup_paths_selectBy hpaths _)

/-- A reversed key puts the runs of the selection in the opposite order and leaves each of them as
it is. By path, the selection of files with paths of their own is turned round as a whole. Files
that share the key stay in the order of their paths, and files that also share the path stay as
they were given. -/
theorem selectBy_reverse_runs (s : Section) (k : SortKey) (file : α → FileInfo) (items : List α) :
    let straight := { s with ranking := .key k }.selectBy file items
    let reversed := { s with ranking := .reverse (.key k) }.selectBy file items
    reversed = (k.runs file straight).reverse.flatten ∧
    (k = .path → (items.map fun a => (file a).path).Nodup → reversed = straight.reverse) ∧
    (reversed.Pairwise fun a b =>
      k.Shared (file a) (file b) → (file a).path ≤ (file b).path) ∧
    ∀ f : FileInfo,
      reversed.filter (fun a => k.Shared f (file a) ∧ f.path = (file a).path) =
        (items.filter fun a => s.selector.accepts (file a)).filter
          fun a => k.Shared f (file a) ∧ f.path = (file a).path := by
  intro straight reversed
  obtain ⟨hsorted, hties⟩ := eq_selectBy_iff.1 (rfl : reversed = _)
  refine ⟨selectBy_reverse { s with ranking := .key k } file items, ?_, ?_, fun f => ?_⟩
  · rintro rfl hpaths
    exact s.selectBy_reverse_path file hpaths
  · refine hsorted.imp fun {a b} hab hshared => ?_
    rw [Ranking.compare_of_shared (r := .reverse (.key k)) hshared] at hab
    exact compare_le_iff_le.1 (Ordering.ne_gt_iff_isLE.2 hab)
  · have hf := hties f
    rwa [Ranking.ties_eq_filter, Ranking.ties_eq_filter] at hf

end Section

end FileSelection
