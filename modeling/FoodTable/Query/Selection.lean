import FoodTable.Food
import FoodTable.Query.Basic
import FoodTable.Text.Pieces

/-!
# Selection

The foods that a query asks for, in the order they come.
-/

namespace FoodTable

open Text

/-- Whether a food has an amount other than zero on the right side of the threshold. -/
def Condition.satisfiedBy (c : Condition) (f : Food) : Bool :=
  match f.value? c.tag with
  | some value => !value.isZero && c.comparison.holds value c.threshold
  | none => false

namespace Selection

def byCategory (codes : List Nat) (foods : List Food) : List Food :=
  foods.filter fun f => codes.contains f.categoryCode

/-- Foods whose name contains a text. -/
def byName (text : String) (foods : List Food) : List Food :=
  foods.filter fun f => occursIn text.toList f.name.toList

/-- Foods that satisfy every condition. -/
def byConditions (conditions : List Condition) (foods : List Food) : List Food :=
  foods.filter fun f => conditions.all (·.satisfiedBy f)

/-- A selection made only if it is asked for. -/
def whenGiven {α : Type} (select : α → List Food → List Food) : Option α → List Food → List Food
  | some a, foods => select a foods
  | none, foods => foods

end Selection

open Selection in
/-- The foods that pass everything a query asks for. -/
def Query.select (q : Query) (foods : List Food) : List Food :=
  whenGiven byConditions q.conditions <|
    whenGiven byName q.name <| whenGiven byCategory q.categories foods

end FoodTable
