import FileSelection.Proofs.Text.Decoding

/-! Lossy text cut at a plain byte. A byte below 0x80 continues no character: what is begun before
it is left stray, and what follows it is read afresh. So the lossy text of bytes with such a byte in
them is that of the bytes before it, its own character, and that of the bytes after it. -/

namespace FileSelection.Text.Utf8

/-- The character that is begun, if one is, asks for a byte that is not plain. -/
def AsksForMore (state : Option Begun) : Prop := ∀ s, state = some s → 0x80 ≤ s.low.toNat

theorem asksForMore_none : AsksForMore none := by
  intro s hs
  cases hs

theorem asksForMore_readFirst (b : UInt8) : AsksForMore (readFirst b).2 := by
  intro s hs
  rw [readFirst] at hs
  split at hs
  · cases hs
  split at hs
  · next hbegin =>
    cases hs
    exact (tracks_of_begin? hbegin).1.low_ge
  · cases hs

theorem asksForMore_readByte (state : Option Begun) (b : UInt8) :
    AsksForMore (readByte state b).2 := by
  cases state with
  | none => exact asksForMore_readFirst b
  | some begun =>
    rw [readByte]
    split
    · dsimp only
      split
      · exact asksForMore_none
      · rintro _ ⟨⟩
        exact Nat.le_refl 0x80
    · exact asksForMore_readFirst b

theorem readFirst_ascii {b : UInt8} (h : b.toNat < 0x80) :
    readFirst b = ([.char (Char.ofNat b.toNat)], none) := if_pos h

/-- A plain byte ends what is begun before it and is a character of its own. -/
theorem readByte_ascii {state : Option Begun} (hstate : AsksForMore state) {b : UInt8}
    (h : b.toNat < 0x80) :
    readByte state b = (piecesFrom state [] ++ [.char (Char.ofNat b.toNat)], none) := by
  cases state with
  | none => exact readFirst_ascii h
  | some begun =>
    have hlow : ¬(begun.low ≤ b ∧ b ≤ begun.high) := by
      rintro ⟨hle, -⟩
      have := hstate begun rfl
      have := UInt8.le_iff_toNat_le.1 hle
      omega
    rw [readByte, if_neg hlow, readFirst_ascii h]
    rfl

theorem piecesFrom_append_ascii {state : Option Begun} (hstate : AsksForMore state) {b : UInt8}
    (h : b.toNat < 0x80) (bytes rest : Bytes) :
    piecesFrom state (bytes ++ b :: rest) =
      piecesFrom state bytes ++ .char (Char.ofNat b.toNat) :: pieces rest := by
  induction bytes generalizing state with
  | nil => rw [List.nil_append, piecesFrom_cons, readByte_ascii hstate h, List.append_assoc]; rfl
  | cons first bytes ih =>
    rw [List.cons_append, piecesFrom_cons, piecesFrom_cons, ih (asksForMore_readByte state first),
      List.append_assoc]

/-! ### Lossy text -/

/-- Lossy text is cut where its bytes are cut at a plain one. -/
theorem toList_lossy_append_ascii {b : UInt8} (h : b.toNat < 0x80) (bytes rest : Bytes) :
    (lossy (bytes ++ b :: rest)).toList =
      (lossy bytes).toList ++ Char.ofNat b.toNat :: (lossy rest).toList := by
  simp only [lossy, String.toList_ofList]
  rw [pieces, piecesFrom_append_ascii asksForMore_none h, List.map_append, List.map_cons]
  rfl

/-- What is begun becomes a character or is left stray in the end. -/
theorem piecesFrom_some_ne_nil (begun : Begun) (bytes : Bytes) :
    piecesFrom (some begun) bytes ≠ [] := by
  induction bytes generalizing begun with
  | nil => exact List.cons_ne_nil _ _
  | cons b bytes ih =>
    rw [piecesFrom_cons, readByte]
    split_ifs
    · exact List.cons_ne_nil _ _
    · exact ih _
    · exact List.cons_ne_nil _ _

theorem pieces_eq_nil_iff {bytes : Bytes} : pieces bytes = [] ↔ bytes = [] := by
  refine ⟨fun h => ?_, fun h => by rw [h]; rfl⟩
  cases bytes with
  | nil => rfl
  | cons b bytes =>
    rw [pieces, piecesFrom_cons, readByte, readFirst] at h
    split at h
    · cases h
    split at h
    · exact absurd h (piecesFrom_some_ne_nil _ bytes)
    · cases h

/-- Only no bytes at all have the empty text. -/
theorem lossy_eq_empty_iff {bytes : Bytes} : lossy bytes = "" ↔ bytes = [] := by
  rw [lossy, String.ofList_eq_empty_iff, List.map_eq_nil_iff, pieces_eq_nil_iff]

end FileSelection.Text.Utf8
