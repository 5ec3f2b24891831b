import FileSelection.File.Path

/-! What is known of a listed file. The facts are taken once, so every section of a run sees the
same file. -/

namespace FileSelection

/-- What the operating system allows with a file, and whether its name begins with a dot. -/
structure Attributes where
  writable : Bool := false
  executable : Bool := false
  hidden : Bool := false
  deriving DecidableEq, Repr

/-- A regular file: its own name, its whole path, its length in bytes and its attributes. -/
structure FileInfo where
  name : String
  path : String
  size : UInt64
  attributes : Attributes
  deriving DecidableEq, Repr

namespace FileInfo

/-- Bytes of a path that are no text are shown by replacement characters. -/
def ofPath (path : Bytes) (size : UInt64) (attributes : Attributes) : FileInfo where
  name := Text.Utf8.lossy (Path.baseName path)
  path := Text.Utf8.lossy path
  size
  attributes

/-- The length in whole kilobytes. -/
def kilobytes (file : FileInfo) : UInt64 := file.size / 1024

/-- The part of a name after its last dot. A dot at the very front only hides a file and begins
no extension. -/
def extension (name : String) : String :=
  match (Text.cut '.' name.toList).reverse with
  | last :: stem :: rest => if rest = [] ∧ stem = [] then "" else String.ofList last
  | _ => ""

end FileInfo

end FileSelection
