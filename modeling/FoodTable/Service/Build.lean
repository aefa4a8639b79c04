import FoodTable.Text.Numeral

/-!
# Builds

How the program names itself.
-/

namespace FoodTable

/-- The number and the time of a compilation. -/
structure Build where
  number : Nat := 0
  timestamp : String := "unknown"
  deriving DecidableEq, Repr

namespace Build

def name : String := "hyakumi"

def version : String := "1.0.0"

/-- One line about a build, from the texts of its number and its time. -/
def bannerOf (number timestamp : String) : String :=
  name ++ " " ++ version ++ " (build " ++ number ++ ", compiled " ++ timestamp ++ ")"

def banner (b : Build) : String := bannerOf (Text.numeral b.number) b.timestamp

end Build

end FoodTable
