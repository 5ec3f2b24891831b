import FileSelection.File.Info

/-! Filters and selectors. A filter tests one property of a file; a selector is a filter under
any number of negations. Sizes are compared in whole kilobytes, and name tests look at the file's
own name. -/

namespace FileSelection

namespace Text

variable {α : Type} [DecidableEq α]

/-- Whether a list stands somewhere in another one, without gaps. -/
def occursIn (part : List α) : List α → Bool
  | [] => part.isEmpty
  | x :: rest => part.isPrefixOf (x :: rest) || occursIn part rest

theorem occursIn_iff {part xs : List α} : occursIn part xs ↔ part <:+: xs := by
  induction xs with
  | nil => simp [occursIn, List.isEmpty_iff]
  | cons x rest ih => simp [occursIn, ih, List.infix_cons_iff]

end Text

/-- The names of the filters. -/
inductive FilterName
  | greaterThan
  | smallerThan
  | between
  | file
  | contains
  | startsWith
  | endsWith
  | writable
  | executable
  | hidden
  | all
  deriving DecidableEq, Repr

namespace FilterName

def values : List FilterName :=
  [.greaterThan, .smallerThan, .between, .file, .contains, .startsWith, .endsWith, .writable,
    .executable, .hidden, .all]

/-- The word that stands for a filter in a command file. -/
def word : FilterName → String
  | .greaterThan => "greater_than"
  | .smallerThan => "smaller_than"
  | .between => "between"
  | .file => "file"
  | .contains => "contains"
  | .startsWith => "prefix"
  | .endsWith => "suffix"
  | .writable => "writable"
  | .executable => "executable"
  | .hidden => "hidden"
  | .all => "all"

def ofWord? (word : String) : Option FilterName := values.find? (·.word == word)

/-- How many parameters a filter takes. -/
def arity : FilterName → Nat
  | .all => 0
  | .between => 2
  | _ => 1

theorem mem_values (n : FilterName) : n ∈ values := by cases n <;> decide

theorem word_injective {m n : FilterName} (h : m.word = n.word) : m = n := by
  cases m <;> cases n <;> simp_all [word]

theorem ofWord?_eq_some_iff {word : String} {n : FilterName} :
    ofWord? word = some n ↔ n.word = word := by
  constructor
  · intro h
    simpa using List.find?_some h
  · rintro rfl
    cases h : ofWord? n.word with
    | none => simpa using List.find?_eq_none.1 h n (mem_values n)
    | some m => rw [word_injective (by simpa using List.find?_some h : m.word = n.word)]

end FilterName

inductive Filter
  | greaterThan (kilobytes : UInt64)
  | smallerThan (kilobytes : UInt64)
  | between (min max : UInt64)
  | file (name : String)
  | contains (part : String)
  | startsWith (part : String)
  | endsWith (part : String)
  | writable (wanted : Bool)
  | executable (wanted : Bool)
  | hidden (wanted : Bool)
  | all
  deriving DecidableEq, Repr

namespace Filter

def filterName : Filter → FilterName
  | .greaterThan _ => .greaterThan
  | .smallerThan _ => .smallerThan
  | .between _ _ => .between
  | .file _ => .file
  | .contains _ => .contains
  | .startsWith _ => .startsWith
  | .endsWith _ => .endsWith
  | .writable _ => .writable
  | .executable _ => .executable
  | .hidden _ => .hidden
  | .all => .all

def accepts : Filter → FileInfo → Bool
  | .greaterThan kb, info => kb < info.kilobytes
  | .smallerThan kb, info => info.kilobytes < kb
  | .between min max, info => min ≤ info.kilobytes && info.kilobytes ≤ max
  | .file name, info => info.name == name
  | .contains part, info => Text.occursIn part.toList info.name.toList
  | .startsWith part, info => part.toList.isPrefixOf info.name.toList
  | .endsWith part, info => part.toList.isSuffixOf info.name.toList
  | .writable wanted, info => info.attributes.writable == wanted
  | .executable wanted, info => info.attributes.executable == wanted
  | .hidden wanted, info => info.attributes.hidden == wanted
  | .all, _ => true

end Filter

inductive Selector
  | filter (f : Filter)
  | not (s : Selector)
  deriving DecidableEq, Repr

namespace Selector

/-- The selector of a section whose filter line is rejected: it takes every file. -/
def all : Selector := .filter .all

def accepts : Selector → FileInfo → Bool
  | .filter f, file => f.accepts file
  | .not s, file => !s.accepts file

/-- The filter under the negations. -/
def base : Selector → Filter
  | .filter f => f
  | .not s => s.base

/-- The number of negations. -/
def negations : Selector → Nat
  | .filter _ => 0
  | .not s => s.negations + 1

end Selector

end FileSelection
