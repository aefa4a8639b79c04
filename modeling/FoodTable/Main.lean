import FoodTable.Benchmark.Duration
import FoodTable.Benchmark.Report

/-!
# The benchmark program

Reads the data files, times lookups and range searches, and prints the report.
-/

open FoodTable

namespace FoodTable.Benchmark

/-- What is found at a path. -/
def readFile (path : String) : IO File := do
  try
    return .content (← IO.FS.readBinFile path).data.toList
  catch
    | .noFileOrDirectory .. => return .absent
    | _ => return .folder

/-- How many nanoseconds some rounds of an action take. -/
def time (rounds : Nat) (action : Nat → Bool) : IO Nat := do
  let start ← IO.monoNanosNow
  let count ← IO.mkRef 0
  for i in [0:rounds] do
    if action i then count.modify (· + 1)
  return (← IO.monoNanosNow) - start

/-- The times of both parts on a dataset. -/
def measure (plan : Plan) (d : Dataset) : IO Times := do
  let lookups ← time plan.lookups fun i => (lookup d i).toOption.join.isSome
  let searches ← match Query.ofParameters d.vocabulary (search plan) with
    | .ok q => time plan.searches fun i => i < (q.page d).total
    | .error _ => pure 0
  return ⟨durationText lookups, durationText searches⟩

/-- Where the files of a plan are. -/
def locate (plan : Plan) : IO (String × String) := do
  let folder := DataFiles.defaultFolder (← IO.appPath).toString
  return (plan.files.foodsPath folder, plan.files.metadataPath folder)

/-- Carries out a plan. -/
def carryOut (plan : Plan) : IO UInt32 := do
  let (foodsPath, metadataPath) ← locate plan
  let metadata ← readFile metadataPath
  let foods ← readFile foodsPath
  match Dataset.load foods metadata with
  | .error _ =>
    IO.eprintln "Error: the dataset cannot be loaded"
    return 1
  | .ok d =>
    let times ← if d.isEmpty || d.vocabulary.isEmpty then pure ⟨"", ""⟩ else measure plan d
    let r := report plan times d
    r.lines.forM (IO.println ·)
    return if r.finished then 0 else 1

/-- The environment variables that options fall back on. -/
def readEnvironment : IO (String → Option String) := do
  let names := Plan.options.filterMap (·.fallback)
  let found ← names.mapM fun name => return (name, ← IO.getEnv name)
  return fun name => (found.find? (·.1 = name)).bind (·.2)

end FoodTable.Benchmark

open FoodTable.Benchmark in
def main (arguments : List String) : IO UInt32 := do
  let environment ← readEnvironment
  match Plan.ofArguments arguments environment with
  | .ok plan => carryOut plan
  | .error .helpWanted =>
    (Plan.help environment).forM (IO.println ·)
    return 0
  | .error _ =>
    IO.eprintln "error: bad arguments; for more information, try '--help'"
    return 2
