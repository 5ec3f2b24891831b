import FileSelection.Text.Concealed
import FileSelection.Text.Utf8

/-! Quoted text, as messages show the text of a command file or a path. Between the two quotes
every control character, and every character that would not be seen by itself, is written by an
escape, so a quoted text stays on one line and can be read back. -/

namespace FileSelection.Text.Quoted

/-- The escape by code point, in lower case hexadecimal without leading zeros. -/
def codePoint (c : Char) : List Char :=
  ['\\', 'u', '\x7b'] ++ Nat.toDigits 16 c.toNat ++ ['\x7d']

def escape (c : Char) : List Char :=
  if c = '\x00' then ['\\', '0']
  else if c = '\t' then ['\\', 't']
  else if c = '\r' then ['\\', 'r']
  else if c = '\n' then ['\\', 'n']
  else if c = '"' then ['\\', '"']
  else if c = '\\' then ['\\', '\\']
  else if isConcealed c then codePoint c
  else [c]

def quote (text : String) : String :=
  String.ofList ('"' :: text.toList.flatMap escape ++ ['"'])

/-- A byte outside any character, in two upper case hexadecimal digits. -/
def escapeByte (b : UInt8) : List Char :=
  let digit (n : Nat) := (Nat.digitChar n).toUpper
  ['\\', 'x', digit (b.toNat / 16), digit (b.toNat % 16)]

def escapePiece : Utf8.Piece → List Char
  | .char c => escape c
  | .stray bytes => bytes.flatMap escapeByte

/-- Quotes a file name or path, which may hold any bytes. -/
def quoteBytes (bytes : Bytes) : String :=
  String.ofList ('"' :: (Utf8.pieces bytes).flatMap escapePiece ++ ['"'])

end FileSelection.Text.Quoted
