import FoodTable.CommandLine.DataFiles
import FoodTable.CommandLine.Help
import FoodTable.Powers
import FoodTable.Text.Numeral

/-!
# Benchmark plans

What a benchmark of the queries does: how many foods it looks up by id, how many times it searches a
range of energy, and the bounds of that range.
-/

namespace FoodTable.Benchmark

open CommandLine Text

structure Plan where
  files : DataFiles := {}
  lookups : Nat := 1000000
  searches : Nat := 10000
  /-- The energy above which foods are searched. -/
  minEnergy : Nat := 403
  /-- The energy below which foods are searched. -/
  maxEnergy : Nat := 801
  deriving DecidableEq, Repr

namespace Plan

/-- A number of rounds, below `2 ^ 64`. -/
def rounds (s : String) : Except Rejection Nat :=
  match (unsigned? s.toList).filter (· < pow2 64) with
  | some n => .ok n
  | none => .error .valueInvalid

/-- An amount of energy, below `2 ^ 32`. A sign may stand in front, as long as the number is not
negative. -/
def energy (s : String) : Except Rejection Nat :=
  match signed? s.toList with
  | some n => if 0 ≤ n ∧ n < pow2 32 then .ok n.toNat else .error .valueInvalid
  | none => .error .valueInvalid

/-- The options of the benchmark. -/
def options : List (Setter Plan) :=
  DataFiles.options (fun f plan => { plan with files := f plan.files }) ++ [
    { name := "lookups"
      summary := "Number of id lookups"
      initial := some (numeral ({} : Plan).lookups)
      set := fun s plan => return { plan with lookups := ← rounds s } },
    { name := "searches"
      summary := "Number of range searches"
      initial := some (numeral ({} : Plan).searches)
      set := fun s plan => return { plan with searches := ← rounds s } },
    { name := "min-kcal"
      summary := "Lower energy bound in kcal (exclusive)"
      initial := some (numeral ({} : Plan).minEnergy)
      set := fun s plan => return { plan with minEnergy := ← energy s } },
    { name := "max-kcal"
      summary := "Upper energy bound in kcal (exclusive)"
      initial := some (numeral ({} : Plan).maxEnergy)
      set := fun s plan => return { plan with maxEnergy := ← energy s } }]

/-- The plan that a command line gives. -/
def ofArguments (arguments : List String) (environment : String → Option String) :
    Except Rejection Plan :=
  CommandLine.read options {} arguments environment

/-- The answer to a request for help. -/
def help (environment : String → Option String) : List String :=
  CommandLine.help "bench_queries" "Time food lookups and range searches" options environment

end Plan

end FoodTable.Benchmark
