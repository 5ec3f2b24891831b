import FileSelection.Text.Split
import FileSelection.Text.Utf8.RoundTrip
import Mathlib.Algebra.Group.Nat.Defs
import Mathlib.Data.List.Basic

/-! Strict decoding inverts encoding: bytes are the text of exactly one encoding, so the bytes that
decode are the encodings of texts and nothing else. A begun character tracks every character that
its bytes may still become, and one byte keeps that up until the last one settles which it is. Bytes
below 0x80 stand for themselves, wherever they are, so lines can be cut before they are decoded. -/

namespace FileSelection.Text.Utf8

/-! ### Begun characters -/

/-- The last `n` bytes of the encoding of a code point, each with six of its bits. -/
def continuation : ℕ → ℕ → Bytes
  | 0, _ => []
  | n + 1, v => UInt8.ofNat (0x80 + v / 0x40 ^ n % 0x40) :: continuation n v

/-- The bytes read so far begin the encoding of every code point that has their value in front and
continues with a byte in the range. -/
structure Begun.Tracks (s : Begun) : Prop where
  owed_pos : 0 < s.owed
  low_ge : 0x80 ≤ s.low.toNat
  high_le : s.high.toNat ≤ 0xBF
  encodes : ∀ v, v / 0x40 ^ s.owed = s.value →
    s.low.toNat ≤ 0x80 + v / 0x40 ^ (s.owed - 1) % 0x40 →
    0x80 + v / 0x40 ^ (s.owed - 1) % 0x40 ≤ s.high.toNat →
    encodeChar (Char.ofNat v) = s.seen ++ continuation s.owed v

theorem toNat_char_ofNat {v : ℕ} (h : v.isValidChar) : (Char.ofNat v).toNat = v := by
  rw [Char.ofNat, dif_pos h]
  rfl

theorem encodeChar_ofNat_two {v : ℕ} (h : 0x80 ≤ v) (h' : v < 0x800) :
    encodeChar (Char.ofNat v) =
      [UInt8.ofNat (0xC0 + v / 0x40), UInt8.ofNat (0x80 + v % 0x40)] := by
  rw [encodeChar, toNat_char_ofNat (Or.inl (by omega)), if_neg (by omega), if_pos h']

theorem encodeChar_ofNat_three {v : ℕ} (h : 0x800 ≤ v) (h' : v < 0x10000) (hv : v.isValidChar) :
    encodeChar (Char.ofNat v) =
      [UInt8.ofNat (0xE0 + v / 0x1000), UInt8.ofNat (0x80 + v / 0x40 % 0x40),
        UInt8.ofNat (0x80 + v % 0x40)] := by
  rw [encodeChar, toNat_char_ofNat hv, if_neg (by omega), if_neg (by omega), if_pos h']

theorem encodeChar_ofNat_four {v : ℕ} (h : 0x10000 ≤ v) (h' : v < 0x110000) :
    encodeChar (Char.ofNat v) =
      [UInt8.ofNat (0xF0 + v / 0x40000), UInt8.ofNat (0x80 + v / 0x1000 % 0x40),
        UInt8.ofNat (0x80 + v / 0x40 % 0x40), UInt8.ofNat (0x80 + v % 0x40)] := by
  rw [encodeChar, toNat_char_ofNat (Or.inr ⟨by omega, by omega⟩), if_neg (by omega),
    if_neg (by omega), if_neg (by omega)]

theorem ofNat_lead {b : UInt8} {base q : ℕ} (h : q = b.toNat - base) (hb : base ≤ b.toNat) :
    UInt8.ofNat (base + q) = b := by
  rw [h, Nat.add_sub_cancel' hb, UInt8.ofNat_toNat]

theorem continuation_one (v : ℕ) : continuation 1 v = [UInt8.ofNat (0x80 + v % 0x40)] := by
  simp [continuation]

theorem continuation_two (v : ℕ) :
    continuation 2 v =
      [UInt8.ofNat (0x80 + v / 0x40 % 0x40), UInt8.ofNat (0x80 + v % 0x40)] := by
  simp [continuation]

theorem continuation_three (v : ℕ) :
    continuation 3 v =
      [UInt8.ofNat (0x80 + v / 0x1000 % 0x40), UInt8.ofNat (0x80 + v / 0x40 % 0x40),
        UInt8.ofNat (0x80 + v % 0x40)] := by
  simp [continuation]

theorem tracks_two {b : UInt8} (h : 0xC2 ≤ b.toNat) (h' : b.toNat ≤ 0xDF) :
    Begun.Tracks ⟨[b], b.toNat - 0xC0, 1, 0x80, 0xBF⟩ where
  owed_pos := Nat.one_pos
  low_ge := Nat.le_refl _
  high_le := Nat.le_refl _
  encodes v hv _ _ := by
    simp only [Nat.reducePow] at hv
    rw [encodeChar_ofNat_two (by omega) (by omega), continuation_one,
      ofNat_lead hv (by omega)]
    rfl

theorem tracks_three {b low high : UInt8} {value : ℕ} (hvalue : value = b.toNat - 0xE0)
    (h : 0xE0 ≤ b.toNat) (h' : b.toNat ≤ 0xEF)
    (hlow : 0x80 ≤ low.toNat) (hhigh : high.toNat ≤ 0xBF)
    (he0 : b.toNat = 0xE0 → 0xA0 ≤ low.toNat) (hed : b.toNat = 0xED → high.toNat ≤ 0x9F) :
    Begun.Tracks ⟨[b], value, 2, low, high⟩ where
  owed_pos := Nat.two_pos
  low_ge := hlow
  high_le := hhigh
  encodes v hv hl hh := by
    simp only [Nat.reduceSub, Nat.reducePow] at hv hl hh
    have hvalid : v.isValidChar := by
      rcases Nat.lt_or_ge v 0xD800 with hd | hd
      · exact Or.inl hd
      · exact Or.inr ⟨by omega, by omega⟩
    rw [encodeChar_ofNat_three (by omega) (by omega) hvalid, continuation_two,
      ofNat_lead (hv.trans hvalue) (by omega)]
    rfl

theorem tracks_four {b low high : UInt8} {value : ℕ} (hvalue : value = b.toNat - 0xF0)
    (h : 0xF0 ≤ b.toNat) (h' : b.toNat ≤ 0xF4)
    (hlow : 0x80 ≤ low.toNat) (hhigh : high.toNat ≤ 0xBF)
    (hf0 : b.toNat = 0xF0 → 0x90 ≤ low.toNat) (hf4 : b.toNat = 0xF4 → high.toNat ≤ 0x8F) :
    Begun.Tracks ⟨[b], value, 3, low, high⟩ where
  owed_pos := Nat.succ_pos 2
  low_ge := hlow
  high_le := hhigh
  encodes v hv hl hh := by
    simp only [Nat.reduceSub, Nat.reducePow] at hv hl hh
    rw [encodeChar_ofNat_four (by omega) (by omega), continuation_three,
      ofNat_lead (hv.trans hvalue) (by omega)]
    rfl

/-- A first byte tracks the characters that it may begin. -/
theorem tracks_of_begin? {b : UInt8} {s : Begun} (h : begin? b = some s) :
    s.Tracks ∧ s.seen = [b] := by
  simp only [begin?] at h
  split at h
  · next hb =>
    cases h
    exact ⟨tracks_two hb.1 hb.2, rfl⟩
  split at h
  · next hb =>
    cases h
    have hlow : b.toNat = 0xE0 → 0xA0 ≤ (0xA0 : UInt8).toNat := fun _ => Nat.le_refl _
    exact ⟨tracks_three (by omega) (by omega) (by omega) (by decide) (by decide) hlow (by omega),
      rfl⟩
  split at h
  · next hb =>
    cases h
    have hhigh : b.toNat = 0xED → (0x9F : UInt8).toNat ≤ 0x9F := fun _ => Nat.le_refl _
    exact ⟨tracks_three (by omega) (by omega) (by omega) (by decide) (by decide) (by omega) hhigh,
      rfl⟩
  split at h
  · next hb =>
    cases h
    exact ⟨tracks_three rfl (by omega) hb.2 (by decide) (by decide) (by omega) (by omega), rfl⟩
  split at h
  · next hb =>
    cases h
    have hlow : b.toNat = 0xF0 → 0x90 ≤ (0x90 : UInt8).toNat := fun _ => Nat.le_refl _
    exact ⟨tracks_four (by omega) (by omega) (by omega) (by decide) (by decide) hlow (by omega),
      rfl⟩
  split at h
  · next hb =>
    cases h
    have hhigh : b.toNat = 0xF4 → (0x8F : UInt8).toNat ≤ 0x8F := fun _ => Nat.le_refl _
    exact ⟨tracks_four (by omega) (by omega) (by omega) (by decide) (by decide) (by omega) hhigh,
      rfl⟩
  split at h
  · next hb =>
    cases h
    exact ⟨tracks_four rfl (by omega) (by omega) (by decide) (by decide) (by omega) (by omega),
      rfl⟩
  · cases h

theorem Begun.Tracks.toNat_bounds {s : Begun} (h : s.Tracks) {b : UInt8} (hlow : s.low ≤ b)
    (hhigh : b ≤ s.high) : 0x80 ≤ b.toNat ∧ b.toNat ≤ 0xBF :=
  ⟨Nat.le_trans h.low_ge (UInt8.le_iff_toNat_le.1 hlow),
    Nat.le_trans (UInt8.le_iff_toNat_le.1 hhigh) h.high_le⟩

/-- One more byte in the range keeps a character tracked. -/
theorem Begun.Tracks.continued {s : Begun} (h : s.Tracks) {b : UInt8} (howed : s.owed ≠ 1)
    (hlow : s.low ≤ b) (hhigh : b ≤ s.high) :
    Begun.Tracks ⟨s.seen ++ [b], s.value * 0x40 + (b.toNat - 0x80), s.owed - 1, 0x80, 0xBF⟩ where
  owed_pos := by have := h.owed_pos; simp only; omega
  low_ge := Nat.le_refl _
  high_le := Nat.le_refl _
  encodes v hv _ _ := by
    obtain ⟨n, hn⟩ : ∃ n, s.owed = n + 1 := ⟨s.owed - 1, by have := h.owed_pos; omega⟩
    have hb := h.toNat_bounds hlow hhigh
    simp only [hn, Nat.add_one_sub_one] at hv ⊢
    have hvalue : v / 0x40 ^ s.owed = s.value := by
      rw [hn, Nat.pow_succ, ← Nat.div_div_eq_div_mul, hv]
      omega
    have hbyte : 0x80 + v / 0x40 ^ n % 0x40 = b.toNat := by omega
    have := h.encodes v hvalue
    rw [hn, Nat.add_one_sub_one, hbyte] at this
    rw [this (UInt8.le_iff_toNat_le.1 hlow) (UInt8.le_iff_toNat_le.1 hhigh), continuation, hbyte,
      UInt8.ofNat_toNat, List.append_assoc]
    rfl

/-- The last byte that a character needs completes its encoding. -/
theorem Begun.Tracks.completed {s : Begun} (h : s.Tracks) {b : UInt8} (howed : s.owed = 1)
    (hlow : s.low ≤ b) (hhigh : b ≤ s.high) :
    encodeChar (Char.ofNat (s.value * 0x40 + (b.toNat - 0x80))) = s.seen ++ [b] := by
  have hb := h.toNat_bounds hlow hhigh
  have hbyte : 0x80 + (s.value * 0x40 + (b.toNat - 0x80)) % 0x40 = b.toNat := by omega
  have := h.encodes (s.value * 0x40 + (b.toNat - 0x80))
  simp only [howed, Nat.reducePow, Nat.reduceSub, Nat.div_one, hbyte] at this
  rw [this (by omega) (UInt8.le_iff_toNat_le.1 hlow) (UInt8.le_iff_toNat_le.1 hhigh),
    continuation_one, hbyte, UInt8.ofNat_toNat]

/-! ### Decoded bytes -/

/-- The bytes of the character that is begun, if one is. -/
def pending : Option Begun → Bytes
  | none => []
  | some s => s.seen

theorem encodeChar_ofNat_ascii {b : UInt8} (h : b.toNat < 0x80) :
    encodeChar (Char.ofNat b.toNat) = [b] := by
  rw [encodeChar, toNat_char_ofNat (Or.inl (by omega)), if_pos h, UInt8.ofNat_toNat]

/-- A byte leaves a character begun, completes one, or leaves bytes stray. -/
theorem readByte_cases {state : Option Begun} (h : ∀ s, state = some s → s.Tracks) (b : UInt8) :
    (∃ s, readByte state b = ([], some s) ∧ s.Tracks ∧ s.seen = pending state ++ [b]) ∨
      (∃ c, readByte state b = ([.char c], none) ∧ encodeChar c = pending state ++ [b]) ∨
      ∃ bytes, .stray bytes ∈ (readByte state b).1 := by
  cases state with
  | none =>
    rw [readByte, readFirst]
    by_cases hb : b.toNat < 0x80
    · rw [if_pos hb]
      exact .inr (.inl ⟨_, rfl, encodeChar_ofNat_ascii hb⟩)
    · rw [if_neg hb]
      cases hbegin : begin? b with
      | none => exact .inr (.inr ⟨[b], List.mem_singleton_self _⟩)
      | some s => exact .inl ⟨s, rfl, tracks_of_begin? hbegin⟩
  | some s =>
    have hs := h s rfl
    rw [readByte]
    by_cases hrange : s.low ≤ b ∧ b ≤ s.high
    · rw [if_pos hrange]
      by_cases howed : s.owed = 1
      · rw [if_pos howed]
        exact .inr (.inl ⟨_, rfl, hs.completed howed hrange.1 hrange.2⟩)
      · rw [if_neg howed]
        exact .inl ⟨_, rfl, hs.continued howed hrange.1 hrange.2, rfl⟩
    · rw [if_neg hrange]
      exact .inr (.inr ⟨s.seen, List.mem_cons_self⟩)

/-- Bytes that are read as characters alone are the encodings of these characters. The induction is
over the bytes, from any state between two of them. -/
theorem encode_of_piecesFrom {state : Option Begun} (h : ∀ s, state = some s → s.Tracks)
    {bytes : Bytes} {text : List Char} (hp : piecesFrom state bytes = text.map .char) :
    pending state ++ bytes = text.flatMap encodeChar := by
  induction bytes generalizing state text with
  | nil =>
    cases state with
    | none =>
      have : text = [] := by simpa [piecesFrom] using hp.symm
      rw [this]
      rfl
    | some s => cases text <;> simp [piecesFrom] at hp
  | cons b rest ih =>
    rw [piecesFrom_cons] at hp
    rcases readByte_cases h b with ⟨s, hread, hs, hseen⟩ | ⟨c, hread, hc⟩ | ⟨stray, hstray⟩
    · rw [hread, List.nil_append] at hp
      have hnext : ∀ s', some s = some s' → s'.Tracks := fun s' hs' => by cases hs'; exact hs
      have := ih hnext hp
      rw [← this, pending, hseen, List.append_assoc]
      rfl
    · rw [hread] at hp
      cases text with
      | nil => simp at hp
      | cons c' text =>
        obtain ⟨hc', hrest⟩ := List.cons.inj hp
        cases hc'
        have hnext : ∀ s', (none : Option Begun) = some s' → s'.Tracks := by simp
        have := ih hnext hrest
        rw [List.flatMap_cons, hc, ← this, List.append_assoc]
        rfl
    · have hmem : Piece.stray stray ∈ text.map Piece.char := by
        rw [← hp]
        exact List.mem_append_left _ hstray
      simp at hmem

theorem map_char_of_mapM_char? {found : List Piece} {text : List Char}
    (h : found.mapM Piece.char? = some text) : found = text.map .char := by
  induction found generalizing text with
  | nil =>
    cases h
    rfl
  | cons piece found ih =>
    cases piece with
    | stray _ => simp [Piece.char?] at h
    | char c =>
      rw [List.mapM_cons] at h
      cases hfound : found.mapM Piece.char? with
      | none => simp [Piece.char?, hfound] at h
      | some rest =>
        have : c :: rest = text := by simpa [Piece.char?, hfound] using h
        rw [← this, List.map_cons, ih hfound]

/-- The bytes that decode to a text are its encoding. -/
theorem decode?_eq_some_iff {bytes : Bytes} {text : String} :
    decode? bytes = some text ↔ bytes = encode text := by
  constructor
  · intro h
    obtain ⟨chars, hchars, rfl⟩ := Option.map_eq_some_iff.1 h
    have hstart : ∀ s, (none : Option Begun) = some s → s.Tracks := by simp
    have := encode_of_piecesFrom hstart (map_char_of_mapM_char? hchars)
    rw [encode, String.toList_ofList, ← this]
    rfl
  · rintro rfl
    exact decode?_encode text

theorem encode_injective : Function.Injective encode := fun text _ h =>
  Option.some.inj ((decode?_encode text).symm.trans (decode?_eq_some_iff.2 h))

/-! ### Bytes below 0x80 -/

@[simp] theorem encode_empty : encode "" = [] := rfl

theorem encode_append (text text' : String) :
    encode (text ++ text') = encode text ++ encode text' := by
  simp [encode]

theorem le_toNat_of_mem_encodeChar {c : Char} (h : 0x80 ≤ c.toNat) {b : UInt8}
    (hb : b ∈ encodeChar c) : 0x80 ≤ b.toNat := by
  have hc : c.toNat < 0x110000 := by
    have : c.toNat < 0xD800 ∨ 0xDFFF < c.toNat ∧ c.toNat < 0x110000 := c.valid
    omega
  have hbyte : ∀ n, 0x80 ≤ n → n < 0x100 → b = UInt8.ofNat n → 0x80 ≤ b.toNat := by
    rintro n hn hn' rfl
    rwa [toNat_ofNat hn']
  simp only [encodeChar, if_neg (Nat.not_lt.2 h)] at hb
  split at hb
  · simp only [List.mem_cons, List.not_mem_nil, or_false] at hb
    rcases hb with hb | hb <;> exact hbyte _ (by omega) (by omega) hb
  split at hb
  · simp only [List.mem_cons, List.not_mem_nil, or_false] at hb
    rcases hb with hb | hb | hb <;> exact hbyte _ (by omega) (by omega) hb
  · simp only [List.mem_cons, List.not_mem_nil, or_false] at hb
    rcases hb with hb | hb | hb | hb <;> exact hbyte _ (by omega) (by omega) hb

/-- A byte below 0x80 is a character of its own. -/
theorem eq_ofNat_of_mem_encodeChar {c : Char} {b : UInt8} (h : b.toNat < 0x80)
    (hb : b ∈ encodeChar c) : c = Char.ofNat b.toNat := by
  have hc : c.toNat < 0x80 := by
    by_contra hc
    have := le_toNat_of_mem_encodeChar (Nat.not_lt.1 hc) hb
    omega
  rw [encodeChar, if_pos hc, List.mem_singleton] at hb
  rw [hb, toNat_ofNat (by omega), Char.ofNat_toNat]

theorem mem_encode_iff {b : UInt8} (h : b.toNat < 0x80) {text : String} :
    b ∈ encode text ↔ Char.ofNat b.toNat ∈ text.toList := by
  rw [encode, List.mem_flatMap]
  constructor
  · rintro ⟨c, hc, hb⟩
    rwa [← eq_ofNat_of_mem_encodeChar h hb]
  · intro hc
    exact ⟨_, hc, by rw [encodeChar_ofNat_ascii h]; exact List.mem_singleton_self b⟩

/-- Encoded text is cut at a byte below 0x80 like the text itself at that character. -/
theorem cut_flatMap_encodeChar {b : UInt8} (h : b.toNat < 0x80) (chars : List Char) :
    cut b (chars.flatMap encodeChar) =
      (cut (Char.ofNat b.toNat) chars).map fun piece => piece.flatMap encodeChar := by
  induction chars with
  | nil => rfl
  | cons c chars ih =>
    rw [List.flatMap_cons, cut_cons]
    by_cases hc : c = Char.ofNat b.toNat
    · rw [if_pos hc, hc, encodeChar_ofNat_ascii h, List.singleton_append, cut_cons, if_pos rfl, ih]
      rfl
    · obtain ⟨piece, pieces, hcut⟩ :=
        List.exists_cons_of_ne_nil (cut_ne_nil (Char.ofNat b.toNat) chars)
      have hfree : b ∉ encodeChar c := fun hmem => hc (eq_ofNat_of_mem_encodeChar h hmem)
      rw [hcut] at ih ⊢
      rw [if_neg hc, cut_append_of_not_mem hfree ih]
      rfl

theorem encode_push_ascii {b : UInt8} (h : b.toNat < 0x80) (text : String) :
    encode (text.push (Char.ofNat b.toNat)) = encode text ++ [b] := by
  rw [encode, String.toList_push, List.flatMap_append, List.flatMap_singleton,
    encodeChar_ofNat_ascii h]
  rfl

/-- A byte below 0x80 at the end is the last character. -/
theorem eq_push_of_encode_eq {b : UInt8} (h : b.toNat < 0x80) {text : String} {bytes : Bytes}
    (ht : encode text = bytes ++ [b]) :
    ∃ front, text = front.push (Char.ofNat b.toNat) ∧ encode front = bytes := by
  rcases List.eq_nil_or_concat text.toList with hnil | ⟨front, c, hfront⟩
  · rw [encode, hnil] at ht
    simp at ht
  · rw [List.concat_eq_append] at hfront
    rw [encode, hfront, List.flatMap_append, List.flatMap_singleton] at ht
    have hlast : b ∈ encodeChar c := by
      have hne : encodeChar c ≠ [] := by unfold encodeChar; grind
      have := congrArg List.getLast? ht
      rw [List.getLast?_append_of_ne_nil _ hne, List.getLast?_append_of_ne_nil _ (by simp)] at this
      exact List.mem_of_getLast? this
    have hc := eq_ofNat_of_mem_encodeChar h hlast
    rw [hc, encodeChar_ofNat_ascii h] at ht
    refine ⟨String.ofList front, ?_, ?_⟩
    · apply String.toList_injective
      rw [hfront, String.toList_push, String.toList_ofList, hc]
    · rw [encode, String.toList_ofList]
      exact List.append_cancel_right ht

/-- A byte below 0x80 after a line never decides whether the line decodes. -/
theorem decode?_append_ascii {b : UInt8} (h : b.toNat < 0x80) (line : Bytes) :
    decode? (line ++ [b]) = (decode? line).map (·.push (Char.ofNat b.toNat)) := by
  apply Option.ext
  intro text
  rw [decode?_eq_some_iff, Option.map_eq_some_iff]
  constructor
  · intro ht
    obtain ⟨front, hfront, hline⟩ := eq_push_of_encode_eq h ht.symm
    exact ⟨front, decode?_eq_some_iff.2 hline.symm, hfront.symm⟩
  · rintro ⟨front, hfront, rfl⟩
    rw [encode_push_ascii h, ← decode?_eq_some_iff.1 hfront]

end FileSelection.Text.Utf8
