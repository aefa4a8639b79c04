import FoodTable.Binary64.Basic

/-!
# JSON values

The values that answers are made of. Whole numbers are kept apart from binary64 numbers, because
they are written without a point, and the fields of a record keep their order.
-/

namespace FoodTable.Json

inductive Value where
  | null
  | bool (b : Bool)
  | natural (n : Nat)
  | number (x : Binary64)
  | text (s : String)
  | list (items : List Value)
  | record (fields : List (String × Value))

namespace Value

/-- A value that may be absent. -/
def orNull {α : Type} (f : α → Value) : Option α → Value
  | some a => f a
  | none => null

end Value

end FoodTable.Json
