import FoodTable.Powers
import FoodTable.Text.Numeral

/-!
# Durations

The text of a time in the greatest unit that it fills, with as many decimals as it needs.
-/

namespace FoodTable.Benchmark

open Text

/-- The units from the greatest down, each by its name, its nanoseconds and how many decimals a
nanosecond takes. -/
def timeUnits : List (String × Nat × Nat) :=
  [("s", pow10 9, 9), ("ms", pow10 6, 6), ("µs", pow10 3, 3)]

/-- The decimals of a fraction of `10 ^ places`, without trailing zeros. -/
def decimals (places fraction : Nat) : List Char :=
  let ds := digits fraction
  let ds := List.replicate (places - ds.length) '0' ++ ds
  (ds.reverse.dropWhile (· = '0')).reverse

/-- The text of a number of nanoseconds. -/
def durationText (nanoseconds : Nat) : String :=
  match timeUnits.find? fun (_, unit, _) => unit ≤ nanoseconds with
  | none => numeral nanoseconds ++ "ns"
  | some (name, unit, places) =>
    let fraction := decimals places (nanoseconds % unit)
    let point := if fraction.isEmpty then "" else "."
    numeral (nanoseconds / unit) ++ point ++ String.ofList fraction ++ name

end FoodTable.Benchmark
