import FoodTable.Cell.Reading
import FoodTable.Vocabulary

/-!
# Foods

A food with its measurements in column order, the measurement of a tag, and the food narrowed to
some tags.
-/

namespace FoodTable

/-- What the table says about one nutrient of a food. -/
structure Measurement where
  tag : Tag
  reading : Cell.Reading
  unit : String
  description : String
  deriving DecidableEq, Repr

structure Food where
  id : String
  category : String
  index : String
  name : String
  measurements : List Measurement
  /-- The number that `category` denotes. -/
  categoryCode : Nat
  deriving DecidableEq, Repr

namespace Food

/-- The measurement of a tag. In a food of the table it stands at the tag's column; a narrowed food
is searched. -/
def measurement? (f : Food) (t : Tag) : Option Measurement :=
  let search := f.measurements.find? (·.tag = t)
  match f.measurements[t.column]? with
  | some m => if m.tag = t then some m else search
  | none => search

/-- The amount of a tag, if the food has the tag and the table gives an amount. -/
def value? (f : Food) (t : Tag) : Option Binary64 :=
  (f.measurement? t).bind (·.reading.value)

/-- The food with only the measurements of some tags, in the same order. -/
def narrow (tags : List Tag) (f : Food) : Food :=
  { f with measurements := f.measurements.filter fun m => tags.contains m.tag }

/-- The food narrowed if tags are asked for. -/
def narrowTo (tags : Option (List Tag)) (f : Food) : Food :=
  match tags with
  | some ts => f.narrow ts
  | none => f

end Food

end FoodTable
