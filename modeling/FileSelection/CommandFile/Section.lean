import FileSelection.CommandFile.Rejection
import FileSelection.IoError

/-! Sections of a command file, and what can be wrong with the file around them. A section is one
pair of a filter line and an order line. -/

namespace FileSelection

/-- A rejected directive and the number of its line. -/
structure Warning where
  line : Nat
  rejection : Rejection
  deriving DecidableEq, Repr

def Warning.message (w : Warning) : String := s!"line {w.line}: {w.rejection.message}"

/-- Lines that should be there and are not. `found` is the line in place of a header, and
`none` the end of the file. -/
inductive LayoutFault
  | missingFilterHeader (found : String)
  | missingFilterDirective
  | missingOrderHeader (found : Option String)
  | missingOrderDirective
  deriving DecidableEq, Repr

def LayoutFault.message : LayoutFault → String
  | .missingFilterHeader found =>
    "FILTER subsection is missing (found " ++ Text.Quoted.quote found ++ ")"
  | .missingFilterDirective => "FILTER subsection has no filter directive"
  | .missingOrderHeader (some found) =>
    "ORDER subsection is missing (found " ++ Text.Quoted.quote found ++ ")"
  | .missingOrderHeader none => "ORDER subsection is missing (found end of input)"
  | .missingOrderDirective => "ORDER subsection has no order directive"

/-- Why reading a command file stops, with the number of lines read up to there. -/
inductive ReadError
  | layout (line : Nat) (fault : LayoutFault)
  | unreadable (line : Nat) (cause : IoError)
  deriving DecidableEq, Repr

namespace ReadError

def line : ReadError → Nat
  | .layout line _ => line
  | .unreadable line _ => line

def message : ReadError → String
  | .layout line fault => s!"line {line}: {fault.message}"
  | .unreadable line cause => s!"line {line}: failed to read command stream: {cause.message}"

end ReadError

/-- A half whose line was rejected holds its default, and the rejection is among the warnings. -/
structure Section where
  selector : Selector
  ranking : Ranking
  warnings : List Warning
  deriving DecidableEq, Repr

namespace Section

/-- The items whose files the section selects, in its order. Items that the ranking does not tell
apart stay as they were given. -/
def selectBy {α : Type} (file : α → FileInfo) (s : Section) (items : List α) : List α :=
  (items.filter fun item => s.selector.accepts (file item)).mergeSort
    fun a b => (s.ranking.compare (file a) (file b)).isLE

/-- The selected files in the order of the section. -/
def select (s : Section) (files : List FileInfo) : List FileInfo := s.selectBy id files

end Section

end FileSelection
