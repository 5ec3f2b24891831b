/-! Text as bytes. A byte sequence is read as a list of pieces: a character where the bytes
are well formed, and otherwise a stray part, which is the longest run of bytes that could
still have begun a character. Strict reading, lossy reading and quoting are three ways to
write the pieces out. -/

namespace FileSelection

abbrev Bytes := List UInt8

namespace Text.Utf8

/-- One to four bytes for a character. -/
def encodeChar (c : Char) : Bytes :=
  let v := c.toNat
  if v < 0x80 then [UInt8.ofNat v]
  else if v < 0x800 then [UInt8.ofNat (0xC0 + v / 0x40), UInt8.ofNat (0x80 + v % 0x40)]
  else if v < 0x10000 then
    [UInt8.ofNat (0xE0 + v / 0x1000), UInt8.ofNat (0x80 + v / 0x40 % 0x40),
      UInt8.ofNat (0x80 + v % 0x40)]
  else
    [UInt8.ofNat (0xF0 + v / 0x40000), UInt8.ofNat (0x80 + v / 0x1000 % 0x40),
      UInt8.ofNat (0x80 + v / 0x40 % 0x40), UInt8.ofNat (0x80 + v % 0x40)]

def encode (text : String) : Bytes := text.toList.flatMap encodeChar

inductive Piece
  | char (c : Char)
  | stray (bytes : Bytes)
  deriving DecidableEq, Repr

/-- A character of which some bytes have been read: those bytes, the value they give, how
many bytes it still needs, and the range in which the next of them must lie. -/
structure Begun where
  seen : Bytes
  value : Nat
  owed : Nat
  low : UInt8
  high : UInt8

/-- The bytes that may begin a character of several bytes. The narrower ranges after `E0`,
`ED`, `F0` and `F4` keep out overlong forms, surrogates and values past the last one. -/
def begin? (b : UInt8) : Option Begun :=
  let n := b.toNat
  if 0xC2 ≤ n ∧ n ≤ 0xDF then some ⟨[b], n - 0xC0, 1, 0x80, 0xBF⟩
  else if n = 0xE0 then some ⟨[b], 0, 2, 0xA0, 0xBF⟩
  else if n = 0xED then some ⟨[b], 0xD, 2, 0x80, 0x9F⟩
  else if 0xE1 ≤ n ∧ n ≤ 0xEF then some ⟨[b], n - 0xE0, 2, 0x80, 0xBF⟩
  else if n = 0xF0 then some ⟨[b], 0, 3, 0x90, 0xBF⟩
  else if n = 0xF4 then some ⟨[b], 4, 3, 0x80, 0x8F⟩
  else if 0xF1 ≤ n ∧ n ≤ 0xF3 then some ⟨[b], n - 0xF0, 3, 0x80, 0xBF⟩
  else none

/-- Reads a byte between characters. -/
def readFirst (b : UInt8) : List Piece × Option Begun :=
  if b.toNat < 0x80 then ([.char (Char.ofNat b.toNat)], none)
  else
    match begin? b with
    | some begun => ([], some begun)
    | none => ([.stray [b]], none)

/-- Reads a byte: the pieces that it completes, and the character that it leaves begun. A byte
that cannot continue a begun character leaves the bytes of that character stray. -/
def readByte : Option Begun → UInt8 → List Piece × Option Begun
  | none, b => readFirst b
  | some s, b =>
    if s.low ≤ b ∧ b ≤ s.high then
      let value := s.value * 0x40 + (b.toNat - 0x80)
      if s.owed = 1 then ([.char (Char.ofNat value)], none)
      else ([], some ⟨s.seen ++ [b], value, s.owed - 1, 0x80, 0xBF⟩)
    else (.stray s.seen :: (readFirst b).1, (readFirst b).2)

def piecesFrom : Option Begun → Bytes → List Piece
  | none, [] => []
  | some s, [] => [.stray s.seen]
  | state, b :: rest => (readByte state b).1 ++ piecesFrom (readByte state b).2 rest

def pieces (bytes : Bytes) : List Piece := piecesFrom none bytes

def Piece.char? : Piece → Option Char
  | .char c => some c
  | .stray _ => none

/-- The text of well formed bytes. -/
def decode? (bytes : Bytes) : Option String :=
  ((pieces bytes).mapM Piece.char?).map String.ofList

def Piece.replaced : Piece → Char
  | .char c => c
  | .stray _ => '\uFFFD'

/-- The text of any bytes, with one replacement character for each stray part. -/
def lossy (bytes : Bytes) : String := String.ofList ((pieces bytes).map Piece.replaced)

end Text.Utf8

end FileSelection
