import FileSelection.Text.Decimal

/-! Compact JSON objects of texts and whole numbers. In a text only the quote, the backslash and
the control characters below the space are escaped, so an object stays on one line. -/

namespace FileSelection.Text.Json

inductive Value
  | text (s : String)
  | number (n : Nat)
  deriving DecidableEq, Repr

def escape (c : Char) : List Char :=
  if c = '"' then ['\\', '"']
  else if c = '\\' then ['\\', '\\']
  else if c = '\x08' then ['\\', 'b']
  else if c = '\t' then ['\\', 't']
  else if c = '\n' then ['\\', 'n']
  else if c = '\x0c' then ['\\', 'f']
  else if c = '\r' then ['\\', 'r']
  else if c.toNat < 0x20 then
    ['\\', 'u', '0', '0', Nat.digitChar (c.toNat / 16), Nat.digitChar (c.toNat % 16)]
  else [c]

def writeText (s : String) : List Char := '"' :: s.toList.flatMap escape ++ ['"']

def Value.write : Value → List Char
  | .text s => writeText s
  | .number n => (Decimal.write n).toList

def writeField (field : String × Value) : List Char :=
  writeText field.1 ++ ':' :: field.2.write

/-- An object with its fields in the given order. -/
def writeObject (fields : List (String × Value)) : String :=
  String.ofList ('\x7b' :: [','].intercalate (fields.map writeField) ++ ['\x7d'])

end FileSelection.Text.Json
