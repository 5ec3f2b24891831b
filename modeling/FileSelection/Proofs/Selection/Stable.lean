import FileSelection.Proofs.Selection.Order
import Mathlib.Data.List.FinRange

/-! Stable selection. A section sorts the items that it selects and leaves those that its ranking
does not tell apart in the order they were given in. The items tied with a file are then the same
before and after sorting, and a sorted list has no freedom beyond its ties. So the selection is what
a filter leaves of everything sorted, selecting again changes nothing, and the positions of the
selected files can be arranged in one way only. -/

namespace FileSelection

variable {α β : Type}

/-! ### Ties -/

namespace Ranking

/-- The items whose files a ranking does not tell from a given one. -/
def ties (r : Ranking) (file : α → FileInfo) (f : FileInfo) (items : List α) : List α :=
  items.filter fun a => r.compare f (file a) == .eq

variable {r : Ranking} {file : α → FileInfo} {f : FileInfo} {a b : α} {items items' : List α}

theorem mem_ties_iff : a ∈ r.ties file f items ↔ a ∈ items ∧ r.compare f (file a) = .eq := by
  rw [ties, List.mem_filter, beq_iff_eq]

theorem mem_ties_self_iff : a ∈ r.ties file (file a) items ↔ a ∈ items :=
  mem_ties_iff.trans (and_iff_left Std.ReflCmp.compare_self)

theorem ties_cons_of_eq (h : r.compare f (file a) = .eq) :
    r.ties file f (a :: items) = a :: r.ties file f items :=
  List.filter_cons_of_pos (beq_iff_eq.2 h)

theorem ties_cons_of_ne (h : r.compare f (file a) ≠ .eq) :
    r.ties file f (a :: items) = r.ties file f items :=
  List.filter_cons_of_neg (mt beq_iff_eq.1 h)

theorem compare_of_mem_ties (ha : a ∈ r.ties file f items) (hb : b ∈ r.ties file f items') :
    r.compare (file a) (file b) = .eq := by
  rw [← Std.TransCmp.congr_left (mem_ties_iff.1 ha).2, (mem_ties_iff.1 hb).2]

/-- Sorting keeps ties as they are. -/
theorem ties_mergeSort (r : Ranking) (file : α → FileInfo) (f : FileInfo) (items : List α) :
    r.ties file f (items.mergeSort fun a b => (r.compare (file a) (file b)).isLE) =
      r.ties file f items := by
  set sorted := items.mergeSort fun a b => (r.compare (file a) (file b)).isLE
  have hsorted : r.Sorts file (r.ties file f items) :=
    List.pairwise_iff_forall_sublist.2 fun h => Ordering.isLE_of_eq_eq
      (compare_of_mem_ties (h.subset (by simp)) (h.subset (by simp)))
  have hsub : (r.ties file f items).Sublist sorted :=
    List.sublist_mergeSort (fun a b c => r.isLE_trans (file a) (file b) (file c))
      (fun a b => r.isLE_total (file a) (file b)) hsorted List.filter_sublist
  have hself : r.ties file f (r.ties file f items) = r.ties file f items := by
    rw [ties, ties, List.filter_filter]
    simp only [Bool.and_self]
  have hties : (r.ties file f items).Sublist (r.ties file f sorted) := by
    rw [← hself]
    exact hsub.filter _
  have hlength : (r.ties file f sorted).length = (r.ties file f items).length :=
    ((List.mergeSort_perm items _).filter _).length_eq
  exact (hties.eq_of_length hlength.symm).symm

theorem isLE_of_mem_cons (h : r.Sorts file (a :: items)) (hb : b ∈ a :: items) :
    (r.compare (file a) (file b)).isLE := by
  rcases List.mem_cons.1 hb with rfl | hrest
  · exact Std.ReflCmp.isLE_rfl
  · exact List.rel_of_pairwise_cons h hrest

theorem mem_iff_of_ties (hties : ∀ f, r.ties file f items = r.ties file f items') :
    a ∈ items ↔ a ∈ items' := by
  have ha : a ∈ r.ties file (file a) items ↔ a ∈ r.ties file (file a) items' := by rw [hties]
  rwa [mem_ties_self_iff, mem_ties_self_iff] at ha

/-- A sorted list is determined by its ties. -/
theorem eq_of_ties (h : r.Sorts file items) (h' : r.Sorts file items')
    (hties : ∀ f, r.ties file f items = r.ties file f items') : items = items' := by
  induction items generalizing items' with
  | nil =>
    refine (List.eq_nil_iff_forall_not_mem.2 fun a ha => ?_).symm
    exact List.not_mem_nil ((mem_iff_of_ties hties).2 ha)
  | cons a rest ih =>
    have ha : a ∈ items' := (mem_iff_of_ties hties).1 List.mem_cons_self
    obtain ⟨b, rest', rfl⟩ := List.exists_cons_of_ne_nil (List.ne_nil_of_mem ha)
    have hb : b ∈ a :: rest := (mem_iff_of_ties hties).2 List.mem_cons_self
    -- Neither head is above the other, so both are the first of the same ties.
    have heq : r.compare (file a) (file b) = .eq :=
      Std.OrientedCmp.isLE_antisymm (isLE_of_mem_cons h hb) (isLE_of_mem_cons h' ha)
    have hheads := hties (file a)
    rw [ties_cons_of_eq Std.ReflCmp.compare_self, ties_cons_of_eq heq] at hheads
    obtain rfl := (List.cons.inj hheads).1
    have hrest (f : FileInfo) : r.ties file f rest = r.ties file f rest' := by
      have hf := hties f
      by_cases hfa : r.compare f (file a) = .eq
      · rw [ties_cons_of_eq hfa, ties_cons_of_eq hfa] at hf
        exact (List.cons.inj hf).2
      · rwa [ties_cons_of_ne hfa, ties_cons_of_ne hfa] at hf
    rw [ih h.tail h'.tail hrest, List.tail_cons]

end Ranking

/-! ### Selections -/

namespace Section

variable {s : Section} {file : α → FileInfo} {items items' : List α}

/-- The selection is the sorted list with the ties of what is selected. -/
theorem eq_selectBy_iff :
    items' = s.selectBy file items ↔
      s.ranking.Sorts file items' ∧
        ∀ f, s.ranking.ties file f items' =
          s.ranking.ties file f (items.filter fun a => s.selector.accepts (file a)) := by
  constructor
  · rintro rfl
    exact ⟨s.sorts_selectBy file items, fun f => Ranking.ties_mergeSort _ file f _⟩
  · rintro ⟨hsorted, hties⟩
    refine Ranking.eq_of_ties hsorted (s.sorts_selectBy file items) fun f => ?_
    rw [hties, selectBy, Ranking.ties_mergeSort]

/-- What a filter leaves of everything in order. -/
theorem selectBy_eq_filter_all (s : Section) (file : α → FileInfo) (items : List α) :
    s.selectBy file items =
      ({ s with selector := .all }.selectBy file items).filter
        fun a => s.selector.accepts (file a) := by
  set everything := { s with selector := .all }.selectBy file items with heverything
  obtain ⟨hsorted, hties⟩ := eq_selectBy_iff.1 heverything
  have hall : items.filter (fun a => Selector.all.accepts (file a)) = items :=
    List.filter_eq_self.2 fun _ _ => rfl
  refine (eq_selectBy_iff (s := s).2 ⟨hsorted.filter _, fun f => ?_⟩).symm
  rw [hall] at hties
  have hf := hties f
  simp only [Ranking.ties] at hf ⊢
  rw [List.filter_comm, hf, List.filter_comm]

theorem selectBy_selectBy (s : Section) (file : α → FileInfo) (items : List α) :
    s.selectBy file (s.selectBy file items) = s.selectBy file items := by
  have hall : (s.selectBy file items).filter (fun a => s.selector.accepts (file a)) =
      s.selectBy file items :=
    List.filter_eq_self.2 fun _ ha => (mem_selectBy_iff.1 ha).2
  rw [selectBy, hall]
  exact List.mergeSort_of_pairwise (s.sorts_selectBy file items)

theorem selectBy_map (s : Section) (file : α → FileInfo) (g : β → α) (items : List β) :
    s.selectBy file (items.map g) = (s.selectBy (fun b => file (g b)) items).map g := by
  have hsort := List.map_mergeSort (f := g)
    (r := fun a b => (s.ranking.compare (file (g a)) (file (g b))).isLE)
    (s := fun a b => (s.ranking.compare (file a) (file b)).isLE)
    (l := items.filter fun b => s.selector.accepts (file (g b))) fun _ _ _ _ => rfl
  rw [selectBy, selectBy, hsort, List.filter_map]
  rfl

/-- Items whose files compare equal come as they were given. -/
theorem sublist_of_tied {a b : α} (h : [a, b].Sublist (s.selectBy file items))
    (heq : s.ranking.compare (file a) (file b) = .eq) : [a, b].Sublist items := by
  have hpair : s.ranking.ties file (file a) [a, b] = [a, b] := by
    rw [Ranking.ties_cons_of_eq Std.ReflCmp.compare_self, Ranking.ties_cons_of_eq heq]
    rfl
  have hties : [a, b].Sublist (s.ranking.ties file (file a) (s.selectBy file items)) := by
    rw [← hpair]
    exact h.filter _
  rw [(eq_selectBy_iff.1 rfl).2] at hties
  exact hties.trans (List.filter_sublist.trans List.filter_sublist)

/-! ### Positions -/

/-- A list of positions in the order of a section: each position of a selected file once, and no
other, sorted, and files that compare equal as they were given. -/
structure Arranges (s : Section) (files : List FileInfo) (order : List (Fin files.length)) :
    Prop where
  nodup : order.Nodup
  mem_iff : ∀ i, i ∈ order ↔ s.selector.accepts files[i]
  sorted : order.Pairwise fun i j => s.ranking.compare files[i] files[j] ≠ .gt
  stable : order.Pairwise fun i j => s.ranking.compare files[i] files[j] = .eq → i < j

theorem Arranges.unique {files : List FileInfo} {order order' : List (Fin files.length)}
    (h : s.Arranges files order) (h' : s.Arranges files order') : order = order' := by
  have hperm : order.Perm order' :=
    (List.perm_ext_iff_of_nodup h.nodup h'.nodup).2 fun i => (h.mem_iff i).trans (h'.mem_iff i).symm
  refine List.Perm.eq_of_pairwise ?_ (h.sorted.and h.stable) (h'.sorted.and h'.stable) hperm
  rintro i j - - ⟨hij, hlt⟩ ⟨hji, hgt⟩
  have heq : s.ranking.compare files[i] files[j] = .eq :=
    Std.OrientedCmp.isLE_antisymm (Ordering.ne_gt_iff_isLE.1 hij) (Ordering.ne_gt_iff_isLE.1 hji)
  exact absurd (hlt heq) (hgt (Std.OrientedCmp.eq_symm heq)).not_gt

/-- The positions of the selected files. -/
def positions (s : Section) (files : List FileInfo) : List (Fin files.length) :=
  s.selectBy (fun i => files[i]) (List.finRange files.length)

theorem arranges_positions (s : Section) (files : List FileInfo) :
    s.Arranges files (s.positions files) where
  nodup := (s.selectBy_perm _ _).nodup_iff.2 ((List.nodup_finRange _).filter _)
  mem_iff i := mem_selectBy_iff.trans (and_iff_right (List.mem_finRange i))
  sorted := (s.sorts_selectBy _ _).imp Ordering.ne_gt_iff_isLE.2
  stable := by
    refine List.pairwise_iff_forall_sublist.2 fun hsub heq => ?_
    have hgiven := sublist_of_tied hsub heq
    exact List.pairwise_iff_forall_sublist.1 (List.pairwise_lt_finRange _) hgiven

/-- A section selects the stable sort of the selected files. Its positions are arranged as they
have to be, which can be done in one way only. Sorting everything before the selection gives the
same list, and selecting from the result changes nothing. -/
theorem select_stable (s : Section) (files : List FileInfo) :
    (∀ order, s.Arranges files order ↔ order = s.positions files) ∧
    s.select files = (s.positions files).map (fun i => files[i]) ∧
    s.select files =
      ({ s with selector := .all }.select files).filter s.selector.accepts ∧
    s.select (s.select files) = s.select files := by
  refine ⟨fun order => ⟨fun h => h.unique (s.arranges_positions files), ?_⟩, ?_,
    s.selectBy_eq_filter_all id files, s.selectBy_selectBy id files⟩
  · rintro rfl
    exact s.arranges_positions files
  · have hfiles : (List.finRange files.length).map (fun i => files[i]) = files :=
      List.map_get_finRange files
    have hmap := s.selectBy_map id (fun i : Fin files.length => files[i]) (List.finRange _)
    rwa [hfiles] at hmap

end Section

end FileSelection
