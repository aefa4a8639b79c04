import FoodTable.Binary64.Layout
import FoodTable.Vocabulary

/-!
# Queries

What a client can ask for: foods of some categories, with a text in their names, with amounts beyond
thresholds, narrowed to some nutrients, in some order, one page at a time.

Sets are lists in a fixed order without repetition, so equal sets are equal lists: category codes
ascending, tags by column.
-/

namespace FoodTable

inductive Comparison where
  | below
  | above
  deriving DecidableEq, Repr

namespace Comparison

def ofChar? : Char → Option Comparison
  | '<' => some below
  | '>' => some above
  | _ => none

def toChar : Comparison → Char
  | below => '<'
  | above => '>'

/-- The strict comparison of a value with a threshold. -/
def holds : Comparison → Binary64 → Binary64 → Bool
  | below, value, threshold => value.less threshold
  | above, value, threshold => threshold.less value

end Comparison

/-- An amount below or above a threshold. -/
structure Condition where
  tag : Tag
  comparison : Comparison
  threshold : Binary64
  deriving DecidableEq, Repr

/-- The condition as a client writes it. -/
def Condition.text (c : Condition) : String :=
  c.tag.name ++ String.ofList (c.comparison.toChar :: c.threshold.text .plain)

/-- A nutrient to sort by. -/
structure SortKey where
  tag : Tag
  descending : Bool
  deriving DecidableEq, Repr

/-- The number of foods on a page when the client gives none. -/
def defaultLimit : Nat := 10

/-- The greatest number of foods on a page. -/
def maxLimit : Nat := 100

structure Query where
  categories : Option (List Nat) := none
  name : Option String := none
  conditions : Option (List Condition) := none
  nutrients : Option (List Tag) := none
  /-- Earlier keys first. -/
  order : Option (List SortKey) := none
  offset : Nat := 0
  limit : Nat := defaultLimit
  deriving DecidableEq, Repr

/-- A request for one food. -/
structure FoodQuery where
  id : String
  nutrients : Option (List Tag) := none
  deriving DecidableEq, Repr

end FoodTable
