import FileSelection.IoError
import FileSelection.Text.Split
import FileSelection.Text.Utf8

/-! Paths as bytes. A path is a sequence of parts between separators. Empty parts and single dots
lead nowhere; two dots go up. -/

namespace FileSelection.Path

def separator : UInt8 := 0x2F

/-- The part that stays in place. -/
def dot : Bytes := [0x2E]

/-- The part that goes up. -/
def dotDot : Bytes := [0x2E, 0x2E]

def parts (path : Bytes) : List Bytes := (Text.cut separator path).filter (· ≠ [])

/-- The parts that lead from one place to another. -/
def components (path : Bytes) : List Bytes := (parts path).filter (· ≠ dot)

/-- The last component. There is none where the path goes up at its end or leads nowhere. -/
def baseName (path : Bytes) : Bytes :=
  match (components path).getLast? with
  | none => []
  | some part => if part = dotDot then [] else part

def endsWithSeparator (path : Bytes) : Bool := path.getLast? = some separator

/-- The path of an entry of a directory. An empty name gives the directory's own path with a
separator at its end. -/
def join (directory name : Bytes) : Bytes :=
  if directory = [] ∨ endsWithSeparator directory then directory ++ name
  else directory ++ separator :: name

def isAbsolute (path : Bytes) : Bool := path.head? = some separator

/-- A path as seen from the root, where `current` is the working directory. Single dots and
repeated separators go, but two separators at the front stay two, and one at the end stays. -/
def absolute (current path : Bytes) : Except IoError Bytes :=
  if path = [] then .error .emptyPath
  else
    let front :=
      if !isAbsolute path then current
      else if (path.takeWhile (· = separator)).length = 2 then [separator, separator]
      else [separator]
    let whole := (components path).foldl join front
    .ok (if endsWithSeparator path then join whole [] else whole)

/-- The parts that are looked up in turn. A separator at the end asks for a directory, as one
more dot would. -/
def lookups (path : Bytes) : List Bytes :=
  if endsWithSeparator path then parts path ++ [dot] else parts path

end FileSelection.Path
