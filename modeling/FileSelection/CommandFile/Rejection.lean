import FileSelection.CommandFile.Directive
import FileSelection.Selection.Filter
import FileSelection.Selection.Ranking
import FileSelection.Text.Decimal
import FileSelection.Text.Quoted

/-! Why a directive line is rejected. A rejected line does not end a run: its section falls back to
a default and carries the rejection as a warning. -/

namespace FileSelection

open Text.Quoted (quote)

/-- Why the part of a line after its name is rejected. -/
inductive SyntaxFault
  | wrongParamCount (expected found : Nat)
  | negativeSize (token : String)
  | invalidSize (token : String)
  | invertedBounds (min max : UInt64)
  | repeatedModifier (modifier : Modifier)
  | unexpectedToken (token : String)
  deriving DecidableEq, Repr

def SyntaxFault.message : SyntaxFault → String
  | .wrongParamCount expected found => s!"expected {expected} parameter(s), found {found}"
  | .negativeSize token => "size value " ++ quote token ++ " must be non-negative"
  | .invalidSize token => quote token ++ " is not a valid size"
  | .invertedBounds min max =>
    "lower bound " ++ Text.Decimal.write min.toNat ++ " exceeds upper bound "
      ++ Text.Decimal.write max.toNat
  | .repeatedModifier modifier => modifier.word ++ " may appear only once"
  | .unexpectedToken token => "unexpected token " ++ quote token

inductive Rejection
  | unknownFilterName (name : String)
  | illegalFilter (filter : FilterName) (reason : SyntaxFault)
  | invalidBoolean (filter : FilterName) (token : String)
  | unknownOrderName (name : String)
  | illegalOrder (key : SortKey) (reason : SyntaxFault)
  deriving DecidableEq, Repr

def Rejection.message : Rejection → String
  | .unknownFilterName name => "unknown filter name " ++ quote name
  | .illegalFilter filter reason => "illegal " ++ filter.word ++ " filter: " ++ reason.message
  | .invalidBoolean filter token =>
    filter.word ++ " filter expects YES or NO, got " ++ quote token
  | .unknownOrderName name => "unknown order name " ++ quote name
  | .illegalOrder key reason => "illegal " ++ key.word ++ " order: " ++ reason.message

end FileSelection
