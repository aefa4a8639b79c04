import FoodTable.Benchmark.Plan
import FoodTable.Dataset.File
import FoodTable.Powers
import FoodTable.Query.Grammar
import FoodTable.Query.Page

/-!
# Benchmark reports

What a benchmark prints, given the times it took. Looked-up foods are found at a stride, so that
neighbouring lookups differ. The first foods of the energy range are listed.
-/

namespace FoodTable.Benchmark

open Text

/-- The lines that were printed, and whether the benchmark came to its end. -/
structure Report where
  lines : List String
  finished : Bool
  deriving DecidableEq, Repr

/-- The texts of the times that the two parts took. -/
structure Times where
  lookups : String
  searches : String

/-! ### Lookups -/

/-- The distance between neighbouring lookups. -/
def stride : Nat := 7919

/-- The position that lookup `i` asks for in a table of `size` foods. Products are words of 64
bits. -/
def position (size i : Nat) : Nat := i * stride % pow2 64 % size

/-- What lookup `i` finds. -/
def lookup (d : Dataset) (i : Nat) : Except QueryError (Option Food) := do
  let some food := d.foods[position d.size i]? | return none
  let q ← FoodQuery.ofParameters d.vocabulary food.id {}
  return q.food? d

/-- Takes lookup `i` into account. -/
def countFound (d : Dataset) (count i : Nat) : Except QueryError Nat := do
  return if (← lookup d i).isSome then count + 1 else count

/-- How many of the first `n` lookups find a food, if none is refused. -/
def found (d : Dataset) (n : Nat) : Except QueryError Nat := (List.range n).foldlM (countFound d) 0

/-! ### Searches -/

/-- The tag of the energy in kcal. -/
def energyTag : String := "ENERC_KCAL"

/-- The search for foods within the energy range. -/
def search (plan : Plan) : Parameters := .ofPairs [
  ("where", energyTag ++ ">" ++ numeral plan.minEnergy ++ "," ++
    energyTag ++ "<" ++ numeral plan.maxEnergy),
  ("nutrients", energyTag),
  ("limit", "5")]

/-- The line of a food. -/
def foodLine (f : Food) : String :=
  "- " ++ f.name ++ ": " ++
    match f.measurements.head?.bind (·.reading.value) with
    | some x => String.ofList (x.text .plain) ++ " kcal"
    | none => "-"

/-! ### Lines -/

def loadedLine (d : Dataset) : String :=
  "Loaded " ++ numeral d.size ++ " foods, " ++ numeral d.vocabulary.size ++ " nutrient tags"

def lookupsLine (plan : Plan) (count : Nat) (time : String) : String :=
  "Lookups: " ++ numeral plan.lookups ++ " in " ++ time ++ " (" ++ numeral count ++ " found)"

def searchLines (plan : Plan) (page : Page) (time : String) : List String :=
  [ "Range searches: " ++ numeral plan.searches ++ " in " ++ time,
    "Foods with " ++ numeral plan.minEnergy ++ ".." ++ numeral plan.maxEnergy ++ " kcal: " ++
      numeral page.total,
    "First " ++ numeral page.foods.length ++ ":" ] ++ page.foods.map foodLine

/-- The report on a dataset. A refused lookup ends it before the line of the lookups, and without the
energy tag it ends before the searches. -/
def report (plan : Plan) (times : Times) (d : Dataset) : Report :=
  if d.isEmpty || d.vocabulary.isEmpty then ⟨[loadedLine d, "Nothing to benchmark"], true⟩
  else match found d plan.lookups with
    | .error _ => ⟨[loadedLine d], false⟩
    | .ok count =>
      let lines := [loadedLine d, lookupsLine plan count times.lookups]
      match Query.ofParameters d.vocabulary (search plan) with
      | .ok q => ⟨lines ++ searchLines plan (q.page d) times.searches, true⟩
      | .error _ => ⟨lines, false⟩

/-- The report on two files. -/
def reportFiles (plan : Plan) (times : Times) (foods metadata : File) : Report :=
  match Dataset.load foods metadata with
  | .ok d => report plan times d
  | .error _ => ⟨[], false⟩

end FoodTable.Benchmark
