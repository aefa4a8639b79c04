import Std.Data.HashMap

/-!
# Nutrient vocabulary

The nutrients of a table in column order, with their units and descriptions, and an index from their
names. A name stands for at most one column.
-/

namespace FoodTable

/-- A nutrient column, by its name and position. -/
structure Tag where
  name : String
  column : Nat
  deriving DecidableEq, Repr

/-- What the metadata table says about a nutrient. -/
structure TagRecord where
  name : String
  unit : String
  description : String
  deriving DecidableEq, Repr

structure Vocabulary where
  tags : Array Tag
  records : Array TagRecord
  /-- The column of each name. -/
  columns : Std.HashMap String Nat

namespace Vocabulary

def empty : Vocabulary := ⟨#[], #[], ∅⟩

/-- The vocabulary with one more column, or the name if it has a column already. -/
def push (v : Vocabulary) (r : TagRecord) : Except String Vocabulary :=
  if v.columns.contains r.name then .error r.name
  else .ok {
    tags := v.tags.push ⟨r.name, v.tags.size⟩
    records := v.records.push r
    columns := v.columns.insert r.name v.tags.size }

/-- The vocabulary of a metadata table, or the first name that repeats an earlier one. -/
def ofRecords (records : List TagRecord) : Except String Vocabulary := records.foldlM push empty

def size (v : Vocabulary) : Nat := v.tags.size

def isEmpty (v : Vocabulary) : Bool := v.size == 0

/-- The tag of a name. -/
def lookup? (v : Vocabulary) (name : String) : Option Tag :=
  v.columns[name]?.bind fun column => v.tags[column]?

/-- The tags with their records, in column order. -/
def entries (v : Vocabulary) : List (Tag × TagRecord) := v.tags.toList.zip v.records.toList

end Vocabulary

end FoodTable
