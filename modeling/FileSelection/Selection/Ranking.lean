import FileSelection.File.Info

/-! Rankings order files by one key, and files that share the key by their path. Reversing a
ranking turns the order of the keys round and leaves the order within a key alone. Text is
compared character by character, by code point. -/

namespace FileSelection

/-- What files are ordered by first. -/
inductive SortKey
  | path
  | extension
  | size
  deriving DecidableEq, Repr

namespace SortKey

def values : List SortKey := [.path, .extension, .size]

/-- The word that stands for a key in a command file. -/
def word : SortKey → String
  | .path => "abs"
  | .extension => "type"
  | .size => "size"

def ofWord? (word : String) : Option SortKey := values.find? (·.word == word)

def compare : SortKey → FileInfo → FileInfo → Ordering
  | .path, a, b => Ord.compare a.path b.path
  | .extension, a, b => Ord.compare (FileInfo.extension a.name) (FileInfo.extension b.name)
  | .size, a, b => Ord.compare a.size b.size

theorem ofWord?_eq_some_iff {word : String} {k : SortKey} :
    ofWord? word = some k ↔ k.word = word := by
  constructor
  · intro h
    simpa using List.find?_some h
  · rintro rfl
    cases k <;> decide

end SortKey

inductive Ranking
  | key (k : SortKey)
  | reverse (r : Ranking)
  deriving DecidableEq, Repr

namespace Ranking

/-- The ranking of a section whose order line is rejected. -/
def ascendingPath : Ranking := .key .path

/-- The order of the keys alone. -/
def compareKeys : Ranking → FileInfo → FileInfo → Ordering
  | .key k, a, b => k.compare a b
  | .reverse r, a, b => (r.compareKeys a b).swap

def compare (r : Ranking) (a b : FileInfo) : Ordering :=
  (r.compareKeys a b).then (Ord.compare a.path b.path)

/-- The key under the reversals. -/
def base : Ranking → SortKey
  | .key k => k
  | .reverse r => r.base

/-- The number of reversals. -/
def reversals : Ranking → Nat
  | .key _ => 0
  | .reverse r => r.reversals + 1

end Ranking

end FileSelection
