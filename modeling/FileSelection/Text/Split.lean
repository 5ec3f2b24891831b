/-! Lists cut at a separator. `cut` returns the pieces between the separators, one more than
there are separators. No piece holds a separator, and joining the pieces with the separator gives
the list back; the two together say what the pieces are. `dropTrailing` removes the longest run at
the end of a list whose items all pass a test. -/

namespace FileSelection.Text

section ConsFirst

variable {α : Type}

/-- Puts an item at the front of the first piece. -/
def consFirst (x : α) : List (List α) → List (List α)
  | [] => [[x]]
  | piece :: pieces => (x :: piece) :: pieces

theorem consFirst_ne_nil (x : α) (pieces : List (List α)) : consFirst x pieces ≠ [] := by
  cases pieces <;> simp [consFirst]

theorem intercalate_consFirst (sep x : α) (pieces : List (List α)) :
    [sep].intercalate (consFirst x pieces) = x :: [sep].intercalate pieces := by
  cases pieces with
  | nil => rfl
  | cons piece pieces => cases pieces <;> simp [consFirst, List.intercalate_cons_cons]

end ConsFirst

section Cut

variable {α : Type} [DecidableEq α]

/-- The pieces of a list between its separators. -/
def cut (sep : α) (xs : List α) : List (List α) :=
  xs.foldr (fun x pieces => if x = sep then [] :: pieces else consFirst x pieces) [[]]

@[simp] theorem cut_nil (sep : α) : cut sep [] = [[]] := rfl

@[simp] theorem cut_cons (sep x : α) (xs : List α) :
    cut sep (x :: xs) = if x = sep then [] :: cut sep xs else consFirst x (cut sep xs) := rfl

theorem cut_ne_nil (sep : α) (xs : List α) : cut sep xs ≠ [] := by
  cases xs with
  | nil => simp
  | cons x xs =>
    rw [cut_cons]
    split
    · simp
    · exact consFirst_ne_nil x _

theorem intercalate_cut (sep : α) (xs : List α) : [sep].intercalate (cut sep xs) = xs := by
  induction xs with
  | nil => rfl
  | cons x xs ih =>
    rw [cut_cons]
    split
    · next h => rw [List.intercalate_cons_of_ne_nil (cut_ne_nil sep xs), ih, h]; rfl
    · rw [intercalate_consFirst, ih]

theorem cut_eq_singleton_nil_iff {sep : α} {xs : List α} : cut sep xs = [[]] ↔ xs = [] := by
  refine ⟨fun h => ?_, fun h => by rw [h, cut_nil]⟩
  rw [← intercalate_cut sep xs, h]
  rfl

theorem not_mem_of_mem_cut {sep : α} {xs piece : List α} (h : piece ∈ cut sep xs) :
    sep ∉ piece := by
  induction xs generalizing piece with
  | nil => simp_all
  | cons x xs ih =>
    rw [cut_cons] at h
    split at h
    · rcases List.mem_cons.1 h with rfl | h
      · simp
      · exact ih h
    · next hx =>
      cases hc : cut sep xs with
      | nil => exact absurd hc (cut_ne_nil sep xs)
      | cons first rest =>
        rw [hc] at h ih
        rcases List.mem_cons.1 h with rfl | h
        · exact List.not_mem_cons_of_ne_of_not_mem (Ne.symm hx) (ih List.mem_cons_self)
        · exact ih (List.mem_cons_of_mem _ h)

theorem cut_append_separator (sep : α) (xs ys : List α) :
    cut sep (xs ++ sep :: ys) = cut sep xs ++ cut sep ys := by
  induction xs with
  | nil => rw [List.nil_append, cut_cons, if_pos rfl, cut_nil, List.singleton_append]
  | cons x xs ih =>
    rw [List.cons_append, cut_cons, cut_cons, ih]
    by_cases hx : x = sep
    · rw [if_pos hx, if_pos hx, List.cons_append]
    · rw [if_neg hx, if_neg hx]
      cases hcut : cut sep xs with
      | nil => exact absurd hcut (cut_ne_nil sep xs)
      | cons piece pieces => rfl

theorem cut_of_not_mem {sep : α} {piece : List α} (h : sep ∉ piece) : cut sep piece = [piece] := by
  induction piece with
  | nil => rfl
  | cons x piece ih =>
    rw [List.mem_cons, not_or] at h
    rw [cut_cons, if_neg (Ne.symm h.1), ih h.2]
    rfl

theorem length_cut (sep : α) (xs : List α) : (cut sep xs).length = xs.count sep + 1 := by
  induction xs with
  | nil => rfl
  | cons x xs ih =>
    rw [cut_cons]
    by_cases hx : x = sep
    · rw [if_pos hx, hx, List.length_cons, ih, List.count_cons_self]
    · obtain ⟨piece, pieces, hcut⟩ := List.exists_cons_of_ne_nil (cut_ne_nil sep xs)
      rw [if_neg hx, List.count_cons_of_ne hx, ← ih, hcut, consFirst, List.length_cons,
        List.length_cons]

/-- A part without separators belongs to the first piece. -/
theorem cut_append_of_not_mem {sep : α} {front xs piece : List α} {pieces : List (List α)}
    (h : sep ∉ front) (hcut : cut sep xs = piece :: pieces) :
    cut sep (front ++ xs) = (front ++ piece) :: pieces := by
  induction front with
  | nil => exact hcut
  | cons x front ih =>
    rw [List.mem_cons, not_or] at h
    rw [List.cons_append, cut_cons, if_neg (Ne.symm h.1), ih h.2]
    rfl

theorem cut_append_cons {sep : α} {piece : List α} (h : sep ∉ piece) (xs : List α) :
    cut sep (piece ++ sep :: xs) = piece :: cut sep xs := by
  rw [cut_append_separator, cut_of_not_mem h, List.singleton_append]

/-- Pieces without separators are what cutting finds between the separators that join them. -/
theorem cut_intercalate {sep : α} {pieces : List (List α)} (hne : pieces ≠ [])
    (h : ∀ piece ∈ pieces, sep ∉ piece) : cut sep ([sep].intercalate pieces) = pieces := by
  induction pieces with
  | nil => exact absurd rfl hne
  | cons piece pieces ih =>
    have hp := h piece List.mem_cons_self
    cases pieces with
    | nil => rw [List.intercalate_singleton, cut_of_not_mem hp]
    | cons next pieces =>
      rw [List.intercalate_cons_cons, List.append_assoc, List.singleton_append,
        cut_append_cons hp, ih (by simp) fun q hq => h q (List.mem_cons_of_mem _ hq)]

end Cut

section Trailing

variable {α : Type}

/-- The list without its longest run of passing items at the end. -/
def dropTrailing (p : α → Bool) (xs : List α) : List α := (xs.reverse.dropWhile p).reverse

/-- The items that are dropped stand at the end and pass. -/
theorem exists_dropTrailing_append (p : α → Bool) (xs : List α) :
    ∃ tail, xs = dropTrailing p xs ++ tail ∧ ∀ x ∈ tail, p x := by
  refine ⟨(xs.reverse.takeWhile p).reverse, ?_, fun x hx => ?_⟩
  · rw [dropTrailing, ← List.reverse_append, List.takeWhile_append_dropWhile, List.reverse_reverse]
  · exact List.all_eq_true.1 (List.all_takeWhile (p := p)) x (List.mem_reverse.1 hx)

/-- What is left does not end with a passing item. -/
theorem not_of_getLast?_dropTrailing {p : α → Bool} {xs : List α} {x : α}
    (h : (dropTrailing p xs).getLast? = some x) : p x = false := by
  rw [dropTrailing, List.getLast?_reverse] at h
  have := List.head?_dropWhile_not p xs.reverse
  rw [h] at this
  simpa using this

end Trailing

end FileSelection.Text
