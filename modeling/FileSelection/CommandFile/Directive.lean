import FileSelection.Text.Split

/-! One directive line of a command file: a name, then parameters, then modifier words, all
separated by `#`. Separators at the end of the line count for nothing, so an empty parameter can
only stand in front of something else. -/

namespace FileSelection

/-- The words that modify a directive. -/
inductive Modifier
  | not
  | reverse
  deriving DecidableEq, Repr

def Modifier.word : Modifier → String
  | .not => "NOT"
  | .reverse => "REVERSE"

/-- A line taken apart, with the number of modifier words at its end. -/
structure Directive where
  name : String
  params : List String
  modifiers : Nat
  deriving DecidableEq, Repr

namespace Directive

def separator : Char := '#'

/-- The tokens of a line. The first one is always there; after it, empty tokens at the end of
the line are left out. -/
def tokens (line : String) : List String :=
  match (Text.cut separator line.toList).map String.ofList with
  | [] => []
  | name :: rest => name :: Text.dropTrailing (· == "") rest

/-- Takes a line apart. The modifier is recognised only after the name, so that a line of one
modifier word names a directive. -/
def ofLine (line modifier : String) : Directive :=
  match tokens line with
  | [] => { name := "", params := [], modifiers := 0 }
  | name :: rest =>
    let params := Text.dropTrailing (· == modifier) rest
    { name, params, modifiers := rest.length - params.length }

def isModified (d : Directive) : Bool := 0 < d.modifiers

end Directive

end FileSelection
