import FileSelection.Text.Utf8

/-! Encoded text reads back as itself. The bytes of a character are one piece, whatever follows
them, so the pieces of encoded text are its characters. -/

namespace FileSelection.Text.Utf8

theorem piecesFrom_cons (state : Option Begun) (b : UInt8) (rest : Bytes) :
    piecesFrom state (b :: rest) =
      (readByte state b).1 ++ piecesFrom (readByte state b).2 rest := by
  cases state <;> rfl

theorem toNat_ofNat {n : Nat} (h : n < 0x100) : (UInt8.ofNat n).toNat = n :=
  UInt8.toNat_ofNat_of_lt' h

/-! ### The first byte -/

theorem readByte_none {b : UInt8} {s : Begun} (h : begin? b = some s) (hb : 0x80 ≤ b.toNat) :
    readByte none b = ([], some s) := by
  rw [readByte, readFirst, if_neg (Nat.not_lt.2 hb), h]

theorem begin?_two {n : Nat} (h : 2 ≤ n) (h' : n < 0x20) :
    begin? (UInt8.ofNat (0xC0 + n)) = some ⟨[UInt8.ofNat (0xC0 + n)], n, 1, 0x80, 0xBF⟩ := by
  rw [begin?, toNat_ofNat (by omega), if_pos (by omega), Nat.add_sub_cancel_left]

theorem begin?_three {n : Nat} (h : n < 0x10) :
    begin? (UInt8.ofNat (0xE0 + n)) = some ⟨[UInt8.ofNat (0xE0 + n)], n, 2,
      if n = 0 then 0xA0 else 0x80, if n = 0xD then 0x9F else 0xBF⟩ := by
  rw [begin?, toNat_ofNat (by omega)]
  grind

theorem begin?_four {n : Nat} (h : n < 5) :
    begin? (UInt8.ofNat (0xF0 + n)) = some ⟨[UInt8.ofNat (0xF0 + n)], n, 3,
      if n = 0 then 0x90 else 0x80, if n = 4 then 0x8F else 0xBF⟩ := by
  rw [begin?, toNat_ofNat (by omega)]
  grind

/-! ### The bytes after it -/

/-- A byte in the range that a begun character asks for continues it. -/
theorem readByte_some {s : Begun} {n : Nat} (hn : n < 0x40) (hlow : s.low.toNat ≤ 0x80 + n)
    (hhigh : 0x80 + n ≤ s.high.toNat) :
    readByte (some s) (UInt8.ofNat (0x80 + n)) =
      if s.owed = 1 then ([.char (Char.ofNat (s.value * 0x40 + n))], none)
      else ([], some ⟨s.seen ++ [UInt8.ofNat (0x80 + n)], s.value * 0x40 + n, s.owed - 1,
        0x80, 0xBF⟩) := by
  have hb : (UInt8.ofNat (0x80 + n)).toNat = 0x80 + n := toNat_ofNat (by omega)
  have hrange : s.low ≤ UInt8.ofNat (0x80 + n) ∧ UInt8.ofNat (0x80 + n) ≤ s.high := by
    rw [UInt8.le_iff_toNat_le, UInt8.le_iff_toNat_le, hb]
    exact ⟨hlow, hhigh⟩
  rw [readByte, if_pos hrange, hb, Nat.add_sub_cancel_left]

/-- The last byte completes the character. -/
theorem piecesFrom_last {s : Begun} {n : Nat} {rest : Bytes} (howed : s.owed = 1) (hn : n < 0x40)
    (hlow : s.low.toNat ≤ 0x80 + n) (hhigh : 0x80 + n ≤ s.high.toNat) :
    piecesFrom (some s) (UInt8.ofNat (0x80 + n) :: rest) =
      .char (Char.ofNat (s.value * 0x40 + n)) :: pieces rest := by
  rw [piecesFrom_cons, readByte_some hn hlow hhigh, if_pos howed]
  rfl

/-- A byte before the last one adds its six bits to the value. -/
theorem piecesFrom_more {s : Begun} {n : Nat} {rest : Bytes} (howed : s.owed ≠ 1) (hn : n < 0x40)
    (hlow : s.low.toNat ≤ 0x80 + n) (hhigh : 0x80 + n ≤ s.high.toNat) :
    piecesFrom (some s) (UInt8.ofNat (0x80 + n) :: rest) =
      piecesFrom (some ⟨s.seen ++ [UInt8.ofNat (0x80 + n)], s.value * 0x40 + n, s.owed - 1,
        0x80, 0xBF⟩) rest := by
  rw [piecesFrom_cons, readByte_some hn hlow hhigh, if_neg howed]
  rfl

theorem piecesFrom_begin {b : UInt8} {s : Begun} {rest : Bytes} (h : begin? b = some s)
    (hb : 0x80 ≤ b.toNat) : piecesFrom none (b :: rest) = piecesFrom (some s) rest := by
  rw [piecesFrom_cons, readByte_none h hb]
  rfl

/-! ### Characters and text -/

theorem pieces_encodeChar_append (c : Char) (rest : Bytes) :
    pieces (encodeChar c ++ rest) = .char c :: pieces rest := by
  have hvalid : c.toNat < 0xD800 ∨ 0xDFFF < c.toNat ∧ c.toNat < 0x110000 := c.valid
  have hc : Char.ofNat c.toNat = c := Char.ofNat_toNat c
  generalize hv : c.toNat = v at *
  simp only [encodeChar, hv]
  by_cases h1 : v < 0x80
  · simp [h1, pieces, piecesFrom_cons, readByte, readFirst, toNat_ofNat (by omega : v < 0x100), hc]
  by_cases h2 : v < 0x800
  · simp only [if_neg h1, if_pos h2, List.cons_append, List.nil_append]
    rw [pieces, piecesFrom_begin (begin?_two (by omega) (by omega))
        (by rw [toNat_ofNat (by omega)]; omega),
      piecesFrom_last rfl (by omega) (by simp) (by simp; omega)]
    rw [show v / 0x40 * 0x40 + v % 0x40 = v by omega, hc]
  by_cases h3 : v < 0x10000
  · simp only [if_neg h1, if_neg h2, if_pos h3, List.cons_append, List.nil_append]
    rw [pieces, piecesFrom_begin (begin?_three (by omega)) (by rw [toNat_ofNat (by omega)]; omega),
      piecesFrom_more (by simp) (by omega) (by dsimp only; split <;> simp; omega)
        (by dsimp only; split <;> simp <;> omega),
      piecesFrom_last rfl (by omega) (by simp) (by simp; omega)]
    rw [show (v / 0x1000 * 0x40 + v / 0x40 % 0x40) * 0x40 + v % 0x40 = v by omega, hc]
  · simp only [if_neg h1, if_neg h2, if_neg h3, List.cons_append, List.nil_append]
    rw [pieces, piecesFrom_begin (begin?_four (by omega)) (by rw [toNat_ofNat (by omega)]; omega),
      piecesFrom_more (by simp) (by omega) (by dsimp only; split <;> simp; omega)
        (by dsimp only; split <;> simp <;> omega),
      piecesFrom_more (by simp) (by omega) (by simp) (by simp; omega),
      piecesFrom_last rfl (by omega) (by simp) (by simp; omega)]
    rw [show ((v / 0x40000 * 0x40 + v / 0x1000 % 0x40) * 0x40 + v / 0x40 % 0x40) * 0x40 + v % 0x40
      = v by omega, hc]

theorem pieces_encode (text : String) : pieces (encode text) = text.toList.map .char := by
  rw [encode]
  induction text.toList with
  | nil => rfl
  | cons c rest ih => rw [List.flatMap_cons, pieces_encodeChar_append, ih, List.map_cons]

theorem mapM_char? (text : List Char) : (text.map Piece.char).mapM Piece.char? = some text := by
  induction text with
  | nil => rfl
  | cons c rest ih => simp [ih, Piece.char?]

theorem decode?_encode (text : String) : decode? (encode text) = some text := by
  rw [decode?, pieces_encode, mapM_char?, Option.map_some, String.ofList_toList]

theorem lossy_encode (text : String) : lossy (encode text) = text := by
  rw [lossy, pieces_encode, List.map_map]
  simp [Function.comp_def, Piece.replaced]

end FileSelection.Text.Utf8
