import FoodTable.Text.Blank
import FoodTable.Text.Numeral

/-!
# Food categories

Foods fall into 18 numbered categories. A category is written as a numeral, blanks around it and
leading zeros allowed.
-/

namespace FoodTable.Category

/-- The codes in ascending order. -/
def codes : List Nat := (List.range 18).map (· + 1)

/-- The code that a text denotes. -/
def code? (s : List Char) : Option Nat :=
  (Text.unsigned? (Text.trim s)).filter fun n => codes.contains n

end FoodTable.Category
