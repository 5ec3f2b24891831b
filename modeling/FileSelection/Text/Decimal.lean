/-! Numbers in decimal digits. Reading takes any number of leading zeros and has no bound;
writing uses no leading zero, and what is written reads back. -/

namespace FileSelection.Text.Decimal

def digit? (c : Char) : Option Nat :=
  if '0' ≤ c ∧ c ≤ '9' then some (c.toNat - '0'.toNat) else none

/-- The number that one or more digits write. -/
def value? : List Char → Option Nat
  | [] => none
  | digits => digits.foldlM (fun n c => (digit? c).map (10 * n + ·)) 0

/-- The digits of a number. -/
def write (n : Nat) : String := toString n

theorem digit?_digitChar {n : Nat} (h : n < 10) : digit? (Nat.digitChar n) = some n := by
  match n, h with
  | 0, _ | 1, _ | 2, _ | 3, _ | 4, _ | 5, _ | 6, _ | 7, _ | 8, _ | 9, _ => rfl

theorem value?_of_ne_nil {digits : List Char} (h : digits ≠ []) :
    value? digits = digits.foldlM (fun n c => (digit? c).map (10 * n + ·)) 0 := by
  cases digits with
  | nil => exact absurd rfl h
  | cons _ _ => rfl

theorem value?_toDigits (n : Nat) : value? (Nat.toDigits 10 n) = some n := by
  induction n using Nat.strongRecOn with
  | ind n ih =>
    have hlast : n % 10 < 10 := Nat.mod_lt n (by decide)
    by_cases h : n < 10
    · rw [Nat.toDigits_of_lt_base h]
      simp [value?, digit?_digitChar h]
    · have hfront := ih (n / 10) (by omega)
      rw [← Nat.div_add_mod n 10,
        ← Nat.toDigits_append_toDigits (by decide) (by omega : 0 < n / 10) hlast,
        value?_of_ne_nil (by simp), List.foldlM_append, ← value?_of_ne_nil (by simp), hfront,
        Nat.toDigits_of_lt_base hlast]
      simp [digit?_digitChar hlast]

theorem toList_write (n : Nat) : (write n).toList = Nat.toDigits 10 n := by
  rw [write, Nat.toString_eq_repr, Nat.repr_eq_ofList_toDigits, String.toList_ofList]

theorem value?_write (n : Nat) : value? (write n).toList = some n := by
  rw [toList_write, value?_toDigits]

theorem write_ne_empty (n : Nat) : write n ≠ "" := by
  intro h
  have hvalue := value?_write n
  rw [h] at hvalue
  cases hvalue

theorem isDigit_of_mem_write {n : Nat} {c : Char} (h : c ∈ (write n).toList) : c.isDigit := by
  rw [toList_write] at h
  exact Nat.isDigit_of_mem_toDigits (by decide) (by decide) h

/-- Only the number zero is written with a zero in front. -/
theorem write_eq_zero_of_head? {n : Nat} (h : (write n).toList.head? = some '0') :
    (write n).toList = ['0'] := by
  have hdigit : ∀ m < 10, (write m).toList.head? = some '0' → (write m).toList = ['0'] := by decide
  induction n using Nat.strongRecOn with
  | ind n ih =>
    by_cases hn : n < 10
    · exact hdigit n hn h
    · have hsplit : (write n).toList = (write (n / 10)).toList ++ Nat.toDigits 10 (n % 10) := by
        rw [toList_write, toList_write, Nat.toDigits_append_toDigits (by decide)
          (by omega : 0 < n / 10) (Nat.mod_lt n (by decide)), Nat.div_add_mod]
      have hne : (write (n / 10)).toList ≠ [] := fun h =>
        write_ne_empty _ (String.toList_eq_nil_iff.1 h)
      obtain ⟨c, digits, hfront⟩ := List.exists_cons_of_ne_nil hne
      rw [hsplit, hfront] at h
      have hzero := value?_write (n / 10)
      rw [ih (n / 10) (by omega) (by rw [hfront]; exact h)] at hzero
      have : 0 = n / 10 := Option.some.inj hzero
      omega

end FileSelection.Text.Decimal
