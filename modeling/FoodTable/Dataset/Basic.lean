import FoodTable.Category
import FoodTable.Dataset.Error
import FoodTable.Food

/-!
# Datasets

Rows and a metadata table joined by position. Joining stops at the first fault in reading order, so
a dataset always holds every row, and no two of its foods share an id.
-/

namespace FoodTable

/-- The cells of a row: the fixed columns, then one for each nutrient. -/
abbrev Row := List Cell

/-- Food ids are five digits. -/
def isFoodId (s : String) : Bool := s.toList.length == 5 && s.toList.all Char.isDigit

namespace Row

/-- The content of a fixed column, which must not be missing. -/
def field (row : Row) (number : Nat) (column : FixedColumn) : Except TableError String :=
  match row[column.position]? with
  | some (some text) => .ok text
  | _ => .error (.missingField number column)

/-- The cells of the nutrients. -/
def amounts (row : Row) : List Cell := row.drop FixedColumn.count

/-- The measurements that the nutrient cells give, column by column. -/
def measurements (row : Row) (v : Vocabulary) : List Measurement :=
  let measurement (cell : Cell) (entry : Tag × TagRecord) : Measurement :=
    ⟨entry.1, cell.read, entry.2.unit, entry.2.description⟩
  row.amounts.zipWith measurement v.entries

/-- The food of the row with a number. -/
def toFood (row : Row) (number : Nat) (v : Vocabulary) : Except TableError Food := do
  let expected := FixedColumn.count + v.size
  if row.length ≠ expected then throw (.rowLength number expected row.length)
  let category ← row.field number .category
  let id ← row.field number .foodId
  let index ← row.field number .index
  let name ← row.field number .foodName
  let some code := Category.code? category.toList | throw (.invalidCategory number category)
  if !isFoodId id then throw (.invalidFoodId number id)
  return { id, category, index, name, measurements := row.measurements v, categoryCode := code }

end Row

structure Dataset where
  vocabulary : Vocabulary
  /-- The foods in row order. -/
  foods : Array Food
  /-- The position of each id. -/
  positions : Std.HashMap String Nat

namespace Dataset

/-- The dataset with the food of the next row. -/
def push (d : Dataset) (row : Row) : Except TableError Dataset := do
  let food ← row.toFood d.foods.size d.vocabulary
  if d.positions.contains food.id then throw (.duplicateFoodId food.id)
  return { d with
    foods := d.foods.push food
    positions := d.positions.insert food.id d.foods.size }

/-- The dataset of a table. -/
def ofTable (rows : List Row) (records : List TagRecord) : Except TableError Dataset :=
  match Vocabulary.ofRecords records with
  | .error name => .error (.duplicateTag name)
  | .ok vocabulary => rows.foldlM push { vocabulary, foods := #[], positions := ∅ }

def size (d : Dataset) : Nat := d.foods.size

def isEmpty (d : Dataset) : Bool := d.size == 0

/-- The food with an id. -/
def food? (d : Dataset) (id : String) : Option Food :=
  d.positions[id]?.bind fun position => d.foods[position]?

end Dataset

end FoodTable
