import FileSelection.CommandFile.DirectiveLines
import Mathlib.Data.Char

/-! The tokens that write a size. A size is one or more digits, with a plus sign in front of them or
without, and what it writes is the decimal number of these digits where that is below 2 to the power
64. A minus sign in front of digits makes a negative size, unless the digits are all zeros. Every
token is a size, a negative size or no size at all, and it is read as what it is. -/

namespace FileSelection

/-! ### Digits -/

namespace Text.Decimal

/-- One or more digits. -/
structure Numeral (chars : List Char) : Prop where
  ne_nil : chars ≠ []
  isDigit : ∀ c ∈ chars, c.isDigit

theorem digit?_eq (c : Char) :
    digit? c = if c.isDigit then some (c.toNat - '0'.toNat) else none := by
  have hrange : c.isDigit ↔ '0' ≤ c ∧ c ≤ '9' := by
    rw [Char.isDigit, Bool.and_eq_true, decide_eq_true_iff, decide_eq_true_iff]
    rfl
  simp only [digit?, hrange]

/-- Reading digits one by one adds them up to the number they write. -/
theorem foldlM_digit? (chars : List Char) (start : ℕ) :
    chars.foldlM (fun n c => (digit? c).map (10 * n + ·)) start =
      if chars.all Char.isDigit then some (Nat.ofDigitChars 10 chars start) else none := by
  induction chars generalizing start with
  | nil => rfl
  | cons c chars ih =>
    rw [List.foldlM_cons, digit?_eq]
    by_cases hc : c.isDigit
    · rw [if_pos hc, Option.map_some, Option.bind_eq_bind, Option.bind_some, ih, List.all_cons, hc,
        Bool.true_and, Nat.ofDigitChars_cons]
    · rw [if_neg hc, Option.map_none, List.all_cons, Bool.eq_false_iff.2 hc, Bool.false_and]
      rfl

theorem value?_eq_some_iff {chars : List Char} {n : ℕ} :
    value? chars = some n ↔ Numeral chars ∧ Nat.ofDigitChars 10 chars 0 = n := by
  cases chars with
  | nil => exact iff_of_false nofun fun h => h.1.ne_nil rfl
  | cons c chars =>
    rw [value?_of_ne_nil (List.cons_ne_nil c chars), foldlM_digit?]
    split
    · next hdigits =>
      rw [List.all_eq_true] at hdigits
      refine ⟨fun h => ⟨⟨List.cons_ne_nil c chars, hdigits⟩, Option.some.inj h⟩, ?_⟩
      rintro ⟨-, rfl⟩
      rfl
    · next hdigits =>
      rw [List.all_eq_true] at hdigits
      exact iff_of_false nofun fun h => hdigits h.1.isDigit

theorem value?_eq_none_iff {chars : List Char} : value? chars = none ↔ ¬Numeral chars := by
  rw [Option.eq_none_iff_forall_ne_some]
  constructor
  · intro h hnumeral
    exact h _ (value?_eq_some_iff.2 ⟨hnumeral, rfl⟩)
  · intro h n hvalue
    exact h (value?_eq_some_iff.1 hvalue).1

/-- Only zeros write zero. -/
theorem ofDigitChars_eq_zero_iff {chars : List Char} {start : ℕ}
    (h : ∀ c ∈ chars, c.isDigit) :
    Nat.ofDigitChars 10 chars start = 0 ↔ start = 0 ∧ ∀ c ∈ chars, c = '0' := by
  induction chars generalizing start with
  | nil => simp
  | cons c chars ih =>
    obtain ⟨hc, hchars⟩ := List.forall_mem_cons.1 h
    have hzero : c.toNat - '0'.toNat = 0 ↔ c = '0' := by
      have hle : '0'.toNat ≤ c.toNat := by
        rw [Char.isDigit, Bool.and_eq_true, decide_eq_true_iff] at hc
        exact hc.1
      rw [← Char.toNat_inj]
      omega
    rw [Nat.ofDigitChars_cons, ih hchars, List.forall_mem_cons, Nat.add_eq_zero_iff, hzero,
      Nat.mul_eq_zero]
    simp [and_assoc]

end Text.Decimal

/-! ### Tokens -/

namespace Size

open Text.Decimal

/-- The tokens that write a size, with the size. -/
inductive Writes : List Char → UInt64 → Prop
  | digits {digits : List Char} {n : UInt64} (h : Numeral digits)
    (hn : Nat.ofDigitChars 10 digits 0 = n.toNat) : Writes digits n
  | plus {digits : List Char} {n : UInt64} (h : Numeral digits)
    (hn : Nat.ofDigitChars 10 digits 0 = n.toNat) : Writes ('+' :: digits) n
  | minus {digits : List Char} (h : Numeral digits) (hzeros : ∀ c ∈ digits, c = '0') :
    Writes ('-' :: digits) 0

/-- The tokens that write a number below zero. -/
def IsNegative (token : List Char) : Prop :=
  ∃ digits, token = '-' :: digits ∧ Numeral digits ∧ ∃ c ∈ digits, c ≠ '0'

/-- Why a token is no size; the fault quotes the token as it stands. -/
inductive Refused (token : String) : SyntaxFault → Prop
  | negative (h : IsNegative token.toList) : Refused token (.negativeSize token)
  | invalid (hnegative : ¬IsNegative token.toList) (h : ∀ n, ¬Writes token.toList n) :
    Refused token (.invalidSize token)

theorem writes_minus_iff {digits : List Char} {n : UInt64} :
    Writes ('-' :: digits) n ↔ n = 0 ∧ Numeral digits ∧ ∀ c ∈ digits, c = '0' := by
  constructor
  · intro h
    cases h with
    | digits h => exact absurd (h.isDigit '-' List.mem_cons_self) (by decide)
    | minus h hzeros => exact ⟨rfl, h, hzeros⟩
  · rintro ⟨rfl, h, hzeros⟩
    exact .minus h hzeros

theorem unsigned_of_ne_plus {token : List Char} (h : ∀ digits, token ≠ '+' :: digits) :
    unsigned token = token := by
  unfold unsigned
  split
  · exact absurd rfl (h _)
  · rfl

theorem unsigned_of_numeral {digits : List Char} (h : Numeral digits) :
    unsigned digits = digits := by
  refine unsigned_of_ne_plus ?_
  rintro rest rfl
  exact absurd (h.isDigit '+' List.mem_cons_self) (by decide)

theorem writes_unsigned_iff {token : List Char} {n : UInt64} (h : ∀ digits, token ≠ '-' :: digits) :
    Writes token n ↔
      Numeral (unsigned token) ∧ Nat.ofDigitChars 10 (unsigned token) 0 = n.toNat := by
  constructor
  · intro hwrites
    cases hwrites with
    | digits hdigits hn =>
      rw [unsigned_of_numeral hdigits]
      exact ⟨hdigits, hn⟩
    | plus hdigits hn => exact ⟨hdigits, hn⟩
    | minus => exact absurd rfl (h _)
  · rintro ⟨hdigits, hn⟩
    by_cases hplus : ∃ digits, token = '+' :: digits
    · obtain ⟨digits, rfl⟩ := hplus
      exact .plus hdigits hn
    · rw [unsigned_of_ne_plus (not_exists.1 hplus)] at hdigits hn
      exact .digits hdigits hn

theorem isNegative_minus_iff {digits : List Char} :
    IsNegative ('-' :: digits) ↔ Numeral digits ∧ ∃ c ∈ digits, c ≠ '0' := by
  constructor
  · rintro ⟨digits', heq, h⟩
    obtain rfl := (List.cons.inj heq).2
    exact h
  · exact fun h => ⟨digits, rfl, h⟩

/-- A token is read as the size that it writes. -/
theorem ofToken_of_writes {token : String} {n : UInt64} (h : Writes token.toList n) :
    ofToken token = .ok n := by
  unfold ofToken
  split
  · next digits htoken =>
    rw [htoken, writes_minus_iff] at h
    obtain ⟨rfl, hdigits, hzeros⟩ := h
    have hvalue : value? digits = some 0 :=
      value?_eq_some_iff.2 ⟨hdigits, (ofDigitChars_eq_zero_iff hdigits.isDigit).2 ⟨rfl, hzeros⟩⟩
    simp only [hvalue]
  · next hminus =>
    have hvalue : value? (unsigned token.toList) = some n.toNat :=
      value?_eq_some_iff.2 ((writes_unsigned_iff hminus).1 h)
    rw [hvalue]
    simp [n.toNat_lt_size]

/-- A token that writes no size is refused for what it is. -/
theorem ofToken_of_refused {token : String} {fault : SyntaxFault} (h : Refused token fault) :
    ofToken token = .error fault := by
  -- After a minus sign only the digits decide; without one a number can also be too large.
  unfold ofToken
  split
  · next digits htoken =>
    cases h with
    | negative h =>
      rw [htoken, isNegative_minus_iff] at h
      obtain ⟨hdigits, c, hc, hzero⟩ := h
      have hvalue : value? digits = some (Nat.ofDigitChars 10 digits 0) :=
        value?_eq_some_iff.2 ⟨hdigits, rfl⟩
      have hpos : Nat.ofDigitChars 10 digits 0 ≠ 0 := fun h0 =>
        hzero (((ofDigitChars_eq_zero_iff hdigits.isDigit).1 h0).2 c hc)
      rw [hvalue]
      split
      · next heq => cases heq
      · next heq => exact absurd (Option.some.inj heq) hpos
      · rfl
    | invalid hnegative hsize =>
      rw [htoken, isNegative_minus_iff] at hnegative
      have hvalue : value? digits = none := by
        refine value?_eq_none_iff.2 fun hdigits => hnegative ⟨hdigits, ?_⟩
        by_contra hzeros
        refine hsize 0 ?_
        rw [htoken]
        exact .minus hdigits (by simpa using hzeros)
      rw [hvalue]
  · next hminus =>
    cases h with
    | negative h =>
      obtain ⟨digits, htoken, -⟩ := h
      exact absurd htoken (hminus digits)
    | invalid hnegative hsize =>
      cases hvalue : value? (unsigned token.toList) with
      | none => rfl
      | some n =>
        refine if_neg fun hlt => hsize (UInt64.ofNat n) ?_
        rw [writes_unsigned_iff hminus, UInt64.toNat_ofNat_of_lt' hlt]
        exact value?_eq_some_iff.1 hvalue

/-- Every token writes a size or is refused. -/
theorem writes_or_refused (token : String) :
    (∃ n, Writes token.toList n) ∨ ∃ fault, Refused token fault := by
  by_cases hnegative : IsNegative token.toList
  · exact .inr ⟨_, .negative hnegative⟩
  · by_cases hsize : ∃ n, Writes token.toList n
    · exact .inl hsize
    · exact .inr ⟨_, .invalid hnegative (not_exists.1 hsize)⟩

theorem ofToken_eq_ok_iff {token : String} {n : UInt64} :
    ofToken token = .ok n ↔ Writes token.toList n := by
  refine ⟨fun h => ?_, ofToken_of_writes⟩
  rcases writes_or_refused token with ⟨m, hm⟩ | ⟨fault, hfault⟩
  · rw [ofToken_of_writes hm] at h
    exact Except.ok.inj h ▸ hm
  · rw [ofToken_of_refused hfault] at h
    cases h

theorem ofToken_eq_error_iff {token : String} {fault : SyntaxFault} :
    ofToken token = .error fault ↔ Refused token fault := by
  refine ⟨fun h => ?_, ofToken_of_refused⟩
  rcases writes_or_refused token with ⟨n, hn⟩ | ⟨cause, hcause⟩
  · rw [ofToken_of_writes hn] at h
    cases h
  · rw [ofToken_of_refused hcause] at h
    exact Except.error.inj h ▸ hcause

/-- Of the two faults a token has the one that it is refused for, and quotes itself in it. -/
theorem refused_iff {token : String} {fault : SyntaxFault} :
    Refused token fault ↔
      fault = .negativeSize token ∧ IsNegative token.toList ∨
        fault = .invalidSize token ∧ ¬IsNegative token.toList ∧ ∀ n, ¬Writes token.toList n := by
  constructor
  · intro h
    cases h with
    | negative h => exact .inl ⟨rfl, h⟩
    | invalid hnegative h => exact .inr ⟨rfl, hnegative, h⟩
  · rintro (⟨rfl, h⟩ | ⟨rfl, hnegative, h⟩)
    · exact .negative h
    · exact .invalid hnegative h

/-- The digits of a size write it. -/
theorem writes_write (n : UInt64) : Writes (Text.Decimal.write n.toNat).toList n := by
  obtain ⟨hdigits, hn⟩ := value?_eq_some_iff.1 (value?_write n.toNat)
  exact .digits hdigits hn

end Size

end FileSelection
