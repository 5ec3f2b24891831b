import FileSelection.Selection.Filter
import Mathlib.Algebra.Ring.Parity
import Mathlib.Logic.Function.Iterate

/-! What filters and selectors mean. `Filter.Holds` says what a filter asks of a file in the words
of the command language: sizes are bounds on the number of bytes, as exact numbers without an end,
and texts are parts of the name that stand at its front, at its end or anywhere. A filter accepts
the files of which this holds, and a selector turns the answer round once for each negation. -/

namespace FileSelection

/-! ### Texts -/

namespace Text

theorem isPrefixOf_toList_iff {part name : String} :
    part.toList.isPrefixOf name.toList ↔ ∃ back, name = part ++ back := by
  rw [List.isPrefixOf_iff_prefix]
  constructor
  · rintro ⟨back, hback⟩
    refine ⟨String.ofList back, String.toList_injective ?_⟩
    rw [String.toList_append, String.toList_ofList, hback]
  · rintro ⟨back, rfl⟩
    exact ⟨back.toList, String.toList_append.symm⟩

theorem isSuffixOf_toList_iff {part name : String} :
    part.toList.isSuffixOf name.toList ↔ ∃ front, name = front ++ part := by
  rw [List.isSuffixOf_iff_suffix]
  constructor
  · rintro ⟨front, hfront⟩
    refine ⟨String.ofList front, String.toList_injective ?_⟩
    rw [String.toList_append, String.toList_ofList, hfront]
  · rintro ⟨front, rfl⟩
    exact ⟨front.toList, String.toList_append.symm⟩

theorem occursIn_toList_iff {part name : String} :
    occursIn part.toList name.toList ↔ ∃ front back, name = front ++ part ++ back := by
  rw [occursIn_iff]
  constructor
  · rintro ⟨front, back, hname⟩
    refine ⟨String.ofList front, String.ofList back, String.toList_injective ?_⟩
    rw [String.toList_append, String.toList_append, String.toList_ofList, String.toList_ofList,
      hname]
  · rintro ⟨front, back, rfl⟩
    refine ⟨front.toList, back.toList, ?_⟩
    rw [String.toList_append, String.toList_append]

end Text

/-! ### Sizes -/

namespace FileInfo

theorem toNat_kilobytes (file : FileInfo) : file.kilobytes.toNat = file.size.toNat / 1024 := by
  rw [kilobytes, UInt64.toNat_div]
  rfl

theorem lt_kilobytes_iff {kb : UInt64} {file : FileInfo} :
    kb < file.kilobytes ↔ 1024 * (kb.toNat + 1) ≤ file.size.toNat := by
  rw [UInt64.lt_iff_toNat_lt, toNat_kilobytes]
  omega

theorem kilobytes_lt_iff {kb : UInt64} {file : FileInfo} :
    file.kilobytes < kb ↔ file.size.toNat < 1024 * kb.toNat := by
  rw [UInt64.lt_iff_toNat_lt, toNat_kilobytes]
  omega

end FileInfo

/-! ### Filters -/

namespace Filter

/-- What a filter asks of a file. -/
def Holds : Filter → FileInfo → Prop
  | .greaterThan kb, info => 1024 * (kb.toNat + 1) ≤ info.size.toNat
  | .smallerThan kb, info => info.size.toNat < 1024 * kb.toNat
  | .between min max, info =>
    1024 * min.toNat ≤ info.size.toNat ∧ info.size.toNat < 1024 * (max.toNat + 1)
  | .file name, info => info.name = name
  | .contains part, info => ∃ front back, info.name = front ++ part ++ back
  | .startsWith part, info => ∃ back, info.name = part ++ back
  | .endsWith part, info => ∃ front, info.name = front ++ part
  | .writable wanted, info => info.attributes.writable = wanted
  | .executable wanted, info => info.attributes.executable = wanted
  | .hidden wanted, info => info.attributes.hidden = wanted
  | .all, _ => True

theorem accepts_iff_holds {f : Filter} {info : FileInfo} : f.accepts info ↔ f.Holds info := by
  cases f with
  | greaterThan kb => rw [accepts, decide_eq_true_iff, FileInfo.lt_kilobytes_iff, Holds]
  | smallerThan kb => rw [accepts, decide_eq_true_iff, FileInfo.kilobytes_lt_iff, Holds]
  | between min max =>
    rw [accepts, Bool.and_eq_true, decide_eq_true_iff, decide_eq_true_iff, ← UInt64.not_lt,
      ← UInt64.not_lt, FileInfo.kilobytes_lt_iff, FileInfo.lt_kilobytes_iff, Nat.not_lt,
      Nat.not_le, Holds]
  | file name => exact beq_iff_eq
  | contains part => exact Text.occursIn_toList_iff
  | startsWith part => exact Text.isPrefixOf_toList_iff
  | endsWith part => exact Text.isSuffixOf_toList_iff
  | writable wanted => exact beq_iff_eq
  | executable wanted => exact beq_iff_eq
  | hidden wanted => exact beq_iff_eq
  | all => exact iff_of_true rfl trivial

/-- Between bounds in the wrong order there is no size. -/
theorem not_holds_between {min max : UInt64} (h : max < min) (info : FileInfo) :
    ¬(between min max).Holds info := by
  rintro ⟨hmin, hmax⟩
  rw [UInt64.lt_iff_toNat_lt] at h
  omega

end Filter

/-! ### Selectors -/

namespace Selector

/-- Each negation turns the answer round. -/
theorem accepts_iff {s : Selector} {file : FileInfo} :
    s.accepts file ↔ Xor (s.base.Holds file) (Odd s.negations) := by
  induction s with
  | filter f =>
    rw [accepts, Filter.accepts_iff_holds, base, negations]
    simp [Xor]
  | not s ih =>
    rw [accepts, Bool.not_eq_true', ← Bool.not_eq_true, ih, base, negations, Nat.odd_add_one,
      not_xor, xor_not_right]

theorem base_iterate_not (f : Filter) (n : ℕ) : (Selector.not^[n] (.filter f)).base = f := by
  induction n with
  | zero => rfl
  | succ n ih => rw [Function.iterate_succ_apply', base, ih]

theorem negations_iterate_not (f : Filter) (n : ℕ) :
    (Selector.not^[n] (.filter f)).negations = n := by
  induction n with
  | zero => rfl
  | succ n ih => rw [Function.iterate_succ_apply', negations, ih]

/-- A filter under any number of negations accepts the files of which it holds, or the others where
the number is odd. No file is between bounds in the wrong order. -/
theorem accepts_iterate_not (f : Filter) (n : ℕ) (file : FileInfo) :
    ((Selector.not^[n] (.filter f)).accepts file ↔ Xor (f.Holds file) (Odd n)) ∧
      ∀ min max, max < min → ¬(Filter.between min max).Holds file := by
  refine ⟨?_, fun min max h => Filter.not_holds_between h file⟩
  rw [accepts_iff, base_iterate_not, negations_iterate_not]

end Selector

end FileSelection
