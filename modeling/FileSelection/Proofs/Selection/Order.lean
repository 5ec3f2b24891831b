import FileSelection.CommandFile.Section
import Mathlib.Algebra.Group.Nat.Even
import Mathlib.Data.List.Nodup
import Mathlib.Data.String.Basic

/-! Rankings as orders. Under any number of reversals a ranking is a total preorder, and two files
are equal in it only where they share their key and their path. A key ascends; reversals turn it
round, cancel in pairs and leave files that share the key in the order of their paths. What a
section selects is sorted, and files that all have paths of their own can be sorted in one way
only. -/

namespace FileSelection

/-! ### Keys and rankings -/

/-- Comparing one part of the files is a total preorder. -/
theorem transCmp_of_part {α : Type} [Ord α] [Std.TransOrd α] (part : FileInfo → α)
    {cmp : FileInfo → FileInfo → Ordering}
    (h : ∀ a b, cmp a b = Ord.compare (part a) (part b)) : Std.TransCmp cmp := by
  have hcmp : cmp = compareOn part := by
    funext a b
    exact h a b
  rw [hcmp]
  infer_instance

instance SortKey.transCmp (k : SortKey) : Std.TransCmp k.compare := by
  cases k with
  | path => exact transCmp_of_part FileInfo.path fun _ _ => rfl
  | extension => exact transCmp_of_part (fun file => FileInfo.extension file.name) fun _ _ => rfl
  | size => exact transCmp_of_part FileInfo.size fun _ _ => rfl

namespace Ranking

theorem compareKeys_reverse (r : Ranking) (a b : FileInfo) :
    (reverse r).compareKeys a b = (r.compareKeys a b).swap := rfl

/-- A reversed ranking is the ranking from the other side. -/
instance transCmp_compareKeys (r : Ranking) : Std.TransCmp r.compareKeys := by
  induction r with
  | key k => exact SortKey.transCmp k
  | reverse r ih =>
    have hopposite : (reverse r).compareKeys = fun a b => r.compareKeys b a := by
      funext a b
      rw [compareKeys_reverse, ← Std.OrientedCmp.eq_swap]
    rw [hopposite]
    exact Std.TransCmp.opposite

instance transCmp_compare (r : Ranking) : Std.TransCmp r.compare :=
  inferInstanceAs (Std.TransCmp (compareLex r.compareKeys (compareOn FileInfo.path)))

theorem compare_eq_eq_iff {r : Ranking} {a b : FileInfo} :
    r.compare a b = .eq ↔ r.compareKeys a b = .eq ∧ a.path = b.path := by
  rw [compare, Ordering.then_eq_eq, Std.LawfulEqOrd.compare_eq_iff_eq]

theorem isLE_trans (r : Ranking) (a b c : FileInfo) (hab : (r.compare a b).isLE)
    (hbc : (r.compare b c).isLE) : (r.compare a c).isLE :=
  Std.TransCmp.isLE_trans hab hbc

theorem isLE_total (r : Ranking) (a b : FileInfo) :
    (r.compare a b).isLE || (r.compare b a).isLE := by
  have hswap : r.compare b a = (r.compare a b).swap := Std.OrientedCmp.eq_swap
  rw [hswap]
  cases r.compare a b <;> rfl

/-- Files that are not above each other share their path. -/
theorem path_eq_of_isLE {r : Ranking} {a b : FileInfo} (hab : (r.compare a b).isLE)
    (hba : (r.compare b a).isLE) : a.path = b.path :=
  (compare_eq_eq_iff.1 (Std.OrientedCmp.isLE_antisymm hab hba)).2

end Ranking

/-! ### Keys under reversals -/

namespace SortKey

/-- Two files have the same key. -/
def Shared : SortKey → FileInfo → FileInfo → Prop
  | .path, a, b => a.path = b.path
  | .extension, a, b => FileInfo.extension a.name = FileInfo.extension b.name
  | .size, a, b => a.size = b.size

theorem compare_eq_eq_iff_shared {k : SortKey} {a b : FileInfo} :
    k.compare a b = .eq ↔ k.Shared a b := by
  cases k with
  | path => exact Std.LawfulEqOrd.compare_eq_iff_eq
  | extension => exact Std.LawfulEqOrd.compare_eq_iff_eq
  | size => exact Std.LawfulEqOrd.compare_eq_iff_eq

/-- One file comes before the other by a key: by the order of the texts, or with the smaller
size. -/
def Before : SortKey → FileInfo → FileInfo → Prop
  | .path, a, b => a.path < b.path
  | .extension, a, b => FileInfo.extension a.name < FileInfo.extension b.name
  | .size, a, b => a.size < b.size

/-- Every key ascends. -/
theorem compare_eq_lt_iff_before {k : SortKey} {a b : FileInfo} :
    k.compare a b = .lt ↔ k.Before a b := by
  cases k with
  | path => exact compare_lt_iff_lt
  | extension => exact compare_lt_iff_lt
  | size => exact Std.compare_eq_lt

theorem compare_eq_gt_iff_before {k : SortKey} {a b : FileInfo} :
    k.compare a b = .gt ↔ k.Before b a := by
  rw [← compare_eq_lt_iff_before]
  exact Std.OrientedCmp.gt_iff_lt

end SortKey

namespace Ranking

variable {r : Ranking} {a b : FileInfo}

/-- Two reversals leave nothing behind. -/
theorem compareKeys_eq (r : Ranking) (a b : FileInfo) :
    r.compareKeys a b =
      if Even r.reversals then r.base.compare a b else (r.base.compare a b).swap := by
  induction r with
  | key k => simp [compareKeys, reversals, base]
  | reverse r ih =>
    rw [compareKeys_reverse, ih, reversals, base]
    by_cases h : Even r.reversals <;> simp [h, Nat.even_add_one]

/-- The keys of a ranking ascend under an even number of reversals and descend under an odd one. -/
theorem compareKeys_eq_lt_iff : r.compareKeys a b = .lt ↔
    if Even r.reversals then r.base.Before a b else r.base.Before b a := by
  rw [compareKeys_eq]
  split
  · exact SortKey.compare_eq_lt_iff_before
  · rw [Ordering.swap_eq_lt]
    exact SortKey.compare_eq_gt_iff_before

/-- Where no other ranking is asked for, the paths ascend. -/
theorem compare_ascendingPath : ascendingPath.compare a b = .lt ↔ a.path < b.path := by
  have hpaths : ascendingPath.compare a b = Ord.compare a.path b.path := Ordering.then_self
  rw [hpaths, compare_lt_iff_lt]

theorem compareKeys_eq_eq_iff : r.compareKeys a b = .eq ↔ r.base.Shared a b := by
  rw [compareKeys_eq, ← SortKey.compare_eq_eq_iff_shared]
  split
  · rfl
  · exact Ordering.swap_eq_eq

/-- Within a key the paths decide, whatever is reversed. -/
theorem compare_of_shared (h : r.base.Shared a b) :
    r.compare a b = Ord.compare a.path b.path := by
  rw [compare, compareKeys_eq_eq_iff.2 h]
  rfl

/-- Between keys the paths have no say. -/
theorem compare_of_not_shared (h : ¬r.base.Shared a b) : r.compare a b = r.compareKeys a b := by
  rw [← compareKeys_eq_eq_iff] at h
  rw [compare]
  cases hkeys : r.compareKeys a b with
  | lt => rfl
  | eq => exact absurd hkeys h
  | gt => rfl

/-- Every ranking is a total preorder of the files, in which only files with the same key and the
same path are equal. One reversal more turns the order of the keys round; an even number of them is
as good as none, and under any number files that share the key stand in the order of their
paths. -/
theorem compare_total_preorder (r : Ranking) (a b c : FileInfo) :
    r.compare a a = .eq ∧
    r.compare a b = (r.compare b a).swap ∧
    (r.compare a b ≠ .gt → r.compare b c ≠ .gt → r.compare a c ≠ .gt) ∧
    (r.compare a b = .eq ↔ r.base.Shared a b ∧ a.path = b.path) ∧
    (a.path ≠ b.path → r.compare a b = .lt ∨ r.compare b a = .lt) ∧
    (¬r.base.Shared a b → (reverse r).compare a b = (r.compare a b).swap) ∧
    (∀ r' : Ranking, r'.base = r.base → (Even r'.reversals ↔ Even r.reversals) →
      r'.compare = r.compare) ∧
    (r.base.Shared a b → (r.compare a b = .lt ↔ a.path < b.path)) := by
  have hswap : r.compare a b = (r.compare b a).swap := Std.OrientedCmp.eq_swap
  refine ⟨Std.ReflCmp.compare_self, hswap, fun hab hbc => ?_, ?_, fun hpath => ?_, fun hkey => ?_,
    fun r' hbase hparity => ?_, fun hkey => ?_⟩
  · have hle := r.isLE_trans a b c (Ordering.ne_gt_iff_isLE.1 hab) (Ordering.ne_gt_iff_isLE.1 hbc)
    exact Ordering.ne_gt_iff_isLE.2 hle
  · rw [compare_eq_eq_iff, compareKeys_eq_eq_iff]
  · -- Files that are neither equal nor in order are in order the other way round.
    cases hab : r.compare a b with
    | lt => exact .inl rfl
    | eq => exact absurd (compare_eq_eq_iff.1 hab).2 hpath
    | gt =>
      rw [hab] at hswap
      exact .inr (Ordering.swap_eq_gt.1 hswap.symm)
  · rw [compare_of_not_shared hkey, ← compareKeys_reverse]
    exact compare_of_not_shared hkey
  · funext a b
    rw [compare, compare, compareKeys_eq, compareKeys_eq, hbase]
    simp only [hparity]
  · rw [compare_of_shared hkey, compare_lt_iff_lt]

end Ranking

/-! ### Selected files -/

section Selected

variable {α : Type} {file : α → FileInfo} {items items' : List α}

/-- The items stand in the order of a ranking. -/
def Ranking.Sorts (r : Ranking) (file : α → FileInfo) (items : List α) : Prop :=
  items.Pairwise fun a b => (r.compare (file a) (file b)).isLE

/-- Items of files with paths of their own can be sorted in one way only. -/
theorem Ranking.eq_of_perm {r : Ranking} (h : r.Sorts file items) (h' : r.Sorts file items')
    (hperm : items.Perm items') (hpaths : (items.map fun a => (file a).path).Nodup) :
    items = items' := by
  refine List.Perm.eq_of_pairwise ?_ h h' hperm
  intro a b ha hb hab hba
  exact List.inj_on_of_nodup_map hpaths ha (hperm.mem_iff.2 hb) (path_eq_of_isLE hab hba)

namespace Section

theorem selectBy_perm (s : Section) (file : α → FileInfo) (items : List α) :
    (s.selectBy file items).Perm (items.filter fun a => s.selector.accepts (file a)) :=
  List.mergeSort_perm _ _

theorem mem_selectBy_iff {s : Section} {a : α} :
    a ∈ s.selectBy file items ↔ a ∈ items ∧ s.selector.accepts (file a) :=
  (s.selectBy_perm file items).mem_iff.trans List.mem_filter

theorem sorts_selectBy (s : Section) (file : α → FileInfo) (items : List α) :
    s.ranking.Sorts file (s.selectBy file items) :=
  List.pairwise_mergeSort (fun a b c => s.ranking.isLE_trans (file a) (file b) (file c))
    (fun a b => s.ranking.isLE_total (file a) (file b)) _

/-- What is selected stands in the order of its keys, which ascend under an even number of reversals
and descend under an odd one. -/
theorem pairwise_keys_selectBy (s : Section) (file : α → FileInfo) (items : List α) :
    (s.selectBy file items).Pairwise fun a b =>
      if Even s.ranking.reversals then ¬s.ranking.base.Before (file b) (file a)
      else ¬s.ranking.base.Before (file a) (file b) := by
  refine (s.sorts_selectBy file items).imp fun {a b} hle => ?_
  have hkeys : s.ranking.compareKeys (file b) (file a) ≠ .lt := fun hlt =>
    Ordering.ne_gt_iff_isLE.2 (Ordering.isLE_left_of_isLE_then hle)
      (Std.OrientedCmp.gt_iff_lt.2 hlt)
  rw [ne_eq, Ranking.compareKeys_eq_lt_iff] at hkeys
  split_ifs at hkeys ⊢ <;> exact hkeys

/-- Files that are all accepted and stand in order are selected as they are. -/
theorem select_eq_self {s : Section} {files : List FileInfo}
    (haccepts : ∀ f ∈ files, s.selector.accepts f) (hsorts : s.ranking.Sorts id files) :
    s.select files = files := by
  have hall : files.filter (fun f => s.selector.accepts (id f)) = files :=
    List.filter_eq_self.2 haccepts
  rw [select, selectBy, hall]
  exact List.mergeSort_of_pairwise hsorts

theorem nodup_paths_selectBy (hpaths : (items.map fun a => (file a).path).Nodup) (s : Section) :
    ((s.selectBy file items).map fun a => (file a).path).Nodup :=
  ((s.selectBy_perm file items).map _).nodup_iff.2 (hpaths.sublist (List.filter_sublist.map _))

theorem selectBy_eq_of_perm (h : items.Perm items')
    (hpaths : (items.map fun a => (file a).path).Nodup) (s : Section) :
    s.selectBy file items = s.selectBy file items' := by
  have hperm : (s.selectBy file items).Perm (s.selectBy file items') :=
    (s.selectBy_perm file items).trans ((h.filter _).trans (s.selectBy_perm file items').symm)
  exact Ranking.eq_of_perm (s.sorts_selectBy file items) (s.sorts_selectBy file items') hperm
    (nodup_paths_selectBy hpaths s)

/-- Files with paths of their own are selected in one order, whatever order they come in. -/
theorem select_eq_of_perm {files files' : List FileInfo} (h : files.Perm files')
    (hpaths : (files.map FileInfo.path).Nodup) (s : Section) :
    s.select files = s.select files' :=
  selectBy_eq_of_perm h hpaths s

end Section

end Selected

end FileSelection
