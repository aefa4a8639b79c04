import FoodTable.Json.Writer
import FoodTable.Query.Page
import FoodTable.Service.Build

/-!
# Bodies

The JSON of what the service answers with.
-/

namespace FoodTable

open Json

def Measurement.toJson (m : Measurement) : Value :=
  .record [
    ("tagName", .text m.tag.name),
    ("value", .orNull .number m.reading.value),
    ("unit", .text m.unit),
    ("isTraceAmount", .bool m.reading.isTrace),
    ("estimated", .bool m.reading.isEstimate),
    ("description", .text m.description)]

def Food.toJson (f : Food) : Value :=
  .record [
    ("foodId", .text f.id),
    ("category", .text f.category),
    ("index", .text f.index),
    ("foodName", .text f.name),
    ("nutrients", .list (f.measurements.map (·.toJson)))]

def Page.toJson (p : Page) : Value :=
  .record [
    ("contents", .list (p.foods.map (·.toJson))),
    ("totalCount", .natural p.total),
    ("offset", .natural p.offset),
    ("limit", .natural p.limit)]

def TagRecord.toJson (r : TagRecord) : Value :=
  .record [
    ("tagName", .text r.name),
    ("unit", .text r.unit),
    ("description", .text r.description)]

def Vocabulary.toJson (v : Vocabulary) : Value := .list (v.records.toList.map (·.toJson))

/-- The body of a refusal. -/
def refusalBody (message : String) : Value := .record [("error", .text message)]

end FoodTable
