import FileSelection.File.Inventory
import FileSelection.Text.Decimal

/-! Manifests: the regular files of a directory as text, for a program that does not look into
directories itself. Every entry ends with a NUL and has three fields with a blank between them: the
length in bytes, the letters of what is allowed (`w` for writing, `x` for executing, or none), and
the name, which may hold blanks of its own. -/

namespace FileSelection.Manifest

def terminator : UInt8 := 0

def blank : UInt8 := 0x20

def writableLetter : UInt8 := 0x77

def executableLetter : UInt8 := 0x78

/-- The first field, and what stands after its blank. -/
def field (text : Bytes) : Bytes × Bytes :=
  (text.takeWhile (· != blank), (text.dropWhile (· != blank)).drop 1)

/-- A length that is no number makes an entry that cannot be used. -/
def readEntry (text : Bytes) : DirectoryEntry :=
  let (length, rest) := field text
  let (allowed, name) := field rest
  let status (size : Nat) : FileStatus :=
    { isRegular := true
      size := UInt64.ofNat size
      writable := writableLetter ∈ allowed
      executable := executableLetter ∈ allowed }
  match (Text.Utf8.decode? length).bind (Text.Decimal.value? ·.toList) with
  | some size => { name, status := .ok (status size) }
  | none => { name, status := .error (.other "malformed entry") }

/-- The listing of a directory from its manifest. -/
def read (directory text : Bytes) : Listing where
  directory
  entries := ((Text.cut terminator text).filter (· ≠ [])).map readEntry

end FileSelection.Manifest
