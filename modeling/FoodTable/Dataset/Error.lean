import FoodTable.Text.Numeral

/-!
# Faults of a table

Why rows and metadata do not make a dataset. Rows are numbered from 0.
-/

namespace FoodTable

/-- The columns that every row begins with. -/
inductive FixedColumn where
  | category
  | foodId
  | index
  | foodName
  deriving DecidableEq, Repr

namespace FixedColumn

def position : FixedColumn → Nat
  | category => 0
  | foodId => 1
  | index => 2
  | foodName => 3

def name : FixedColumn → String
  | category => "category"
  | foodId => "foodId"
  | index => "index"
  | foodName => "foodName"

/-- How many there are. -/
def count : Nat := 4

end FixedColumn

inductive TableError where
  | duplicateTag (name : String)
  | rowLength (row expected found : Nat)
  | missingField (row : Nat) (column : FixedColumn)
  | invalidCategory (row : Nat) (value : String)
  | invalidFoodId (row : Nat) (value : String)
  | duplicateFoodId (id : String)
  deriving DecidableEq, Repr

open Text in
def TableError.message : TableError → String
  | duplicateTag name => "Metadata lists tag '" ++ name ++ "' more than once"
  | rowLength row expected found =>
    "Row " ++ numeral row ++ ": expected " ++ numeral expected ++ " columns, found " ++
      numeral found
  | missingField row column => "Row " ++ numeral row ++ ": missing " ++ column.name
  | invalidCategory row value => "Row " ++ numeral row ++ ": invalid category '" ++ value ++ "'"
  | invalidFoodId row value => "Row " ++ numeral row ++ ": invalid food id '" ++ value ++ "'"
  | duplicateFoodId id => "Food id '" ++ id ++ "' appears more than once"

end FoodTable
