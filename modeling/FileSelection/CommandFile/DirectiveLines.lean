import FileSelection.CommandFile.Rejection

/-! Selectors from filter lines and rankings from order lines. A filter line is rejected for the
first of these rules that it breaks: its name is a filter's name, it has at most one `NOT`, it has
as many parameters as the filter takes, each parameter from the left is valid, and the bounds of
`between` are in order. An order line is a key, with at most one `REVERSE` and nothing else. -/

namespace FileSelection

/-! ### Sizes

A size is in kilobytes: digits, with any number of leading zeros and an optional plus sign, below 2
to the power 64. A minus sign makes a size negative unless all its digits are zeros. -/

namespace Size

/-- The digits after an optional plus sign. -/
def unsigned : List Char → List Char
  | '+' :: digits => digits
  | digits => digits

def ofToken (token : String) : Except SyntaxFault UInt64 :=
  match token.toList with
  | '-' :: digits =>
    match Text.Decimal.value? digits with
    | none => .error (.invalidSize token)
    | some 0 => .ok 0
    | some _ => .error (.negativeSize token)
  | chars =>
    match Text.Decimal.value? (unsigned chars) with
    | none => .error (.invalidSize token)
    | some n => if n < UInt64.size then .ok (UInt64.ofNat n) else .error (.invalidSize token)

end Size

/-! ### Filter lines -/

/-- What becomes of a `between` whose lower bound is above its upper bound. -/
inductive BoundsRule
  /-- The line is rejected. -/
  | strict
  /-- The line is accepted, and the filter takes no file. -/
  | lax
  deriving DecidableEq, Repr

namespace Filter

def sizeParam (name : FilterName) (token : String) : Except Rejection UInt64 :=
  (Size.ofToken token).mapError (.illegalFilter name)

def boolParam (name : FilterName) (token : String) : Except Rejection Bool :=
  if token = "YES" then .ok true
  else if token = "NO" then .ok false
  else .error (.invalidBoolean name token)

def bounded (rule : BoundsRule) (min max : UInt64) : Except Rejection Filter :=
  if max < min ∧ rule = .strict then .error (.illegalFilter .between (.invertedBounds min max))
  else .ok (.between min max)

/-- The filter of a name and its parameters. -/
def ofParams (rule : BoundsRule) :
    (name : FilterName) → (params : List String) → Except Rejection Filter
  | .greaterThan, [size] => (sizeParam .greaterThan size).map .greaterThan
  | .smallerThan, [size] => (sizeParam .smallerThan size).map .smallerThan
  | .between, [low, high] => do
    let min ← sizeParam .between low
    let max ← sizeParam .between high
    bounded rule min max
  | .file, [name] => .ok (.file name)
  | .contains, [part] => .ok (.contains part)
  | .startsWith, [part] => .ok (.startsWith part)
  | .endsWith, [part] => .ok (.endsWith part)
  | .writable, [wanted] => (boolParam .writable wanted).map .writable
  | .executable, [wanted] => (boolParam .executable wanted).map .executable
  | .hidden, [wanted] => (boolParam .hidden wanted).map .hidden
  | .all, [] => .ok .all
  | name, params => .error (.illegalFilter name (.wrongParamCount name.arity params.length))

end Filter

namespace Selector

def ofLine (rule : BoundsRule) (line : String) : Except Rejection Selector :=
  let directive := Directive.ofLine line Modifier.not.word
  match FilterName.ofWord? directive.name with
  | none => .error (.unknownFilterName directive.name)
  | some name =>
    if 1 < directive.modifiers then .error (.illegalFilter name (.repeatedModifier .not))
    else (Filter.ofParams rule name directive.params).map fun filter =>
      if directive.isModified then .not (.filter filter) else .filter filter

end Selector

/-! ### Order lines -/

namespace Ranking

def ofLine (line : String) : Except Rejection Ranking :=
  let directive := Directive.ofLine line Modifier.reverse.word
  match SortKey.ofWord? directive.name with
  | none => .error (.unknownOrderName directive.name)
  | some k =>
    if 1 < directive.modifiers then .error (.illegalOrder k (.repeatedModifier .reverse))
    else
      match directive.params with
      | token :: _ => .error (.illegalOrder k (.unexpectedToken token))
      | [] => .ok (if directive.isModified then .reverse (.key k) else .key k)

end Ranking

end FileSelection
