import FoodTable.CommandLine.Basic
import FoodTable.Text.Pieces

/-!
# Where the data files are

Two options name the files of the dataset. Without them the files are looked for in a folder `data`
near the program.
-/

namespace FoodTable

open CommandLine

/-- The paths that options give. -/
structure DataFiles where
  foods : Option String := none
  metadata : Option String := none
  deriving DecidableEq, Repr

namespace DataFiles

def foodsPath (files : DataFiles) (folder : String) : String :=
  files.foods.getD (folder ++ "/foods.json")

def metadataPath (files : DataFiles) (folder : String) : String :=
  files.metadata.getD (folder ++ "/metadata.json")

/-- Paths are any texts but the empty one. -/
def path (s : String) : Except Rejection String :=
  if s.isEmpty then .error .valueMissing else .ok s

/-- The options for the paths, in a structure that holds them. -/
def options {α : Type} (modify : (DataFiles → DataFiles) → α → α) : List (Setter α) := [
  { name := "foods-path"
    summary := "Food rows JSON file (default: data/foods.json under the project root)"
    fallback := some "HYAKUMI_FOODS_PATH"
    set := fun s a => return modify ({ · with foods := ← path s }) a },
  { name := "metadata-path"
    summary := "Nutrient metadata JSON file (default: data/metadata.json under the project root)"
    fallback := some "HYAKUMI_METADATA_PATH"
    set := fun s a => return modify ({ · with metadata := ← path s }) a }]

/-- The data folder for the path of a program. A program in `release` or `debug` belongs to the
folder two levels up. -/
def defaultFolder (program : String) : String :=
  let home := (Text.pieces '/' program.toList).dropLast
  let home :=
    match home.reverse with
    | last :: _ :: folder :: upper =>
      if last = "release".toList ∨ last = "debug".toList then (folder :: upper).reverse else home
    | _ => home
  String.ofList (Text.join '/' (home ++ ["data".toList]))

end DataFiles

end FoodTable
