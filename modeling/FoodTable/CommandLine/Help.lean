import FoodTable.CommandLine.Basic

/-!
# Help

What a program does, how it is called, and one line for each option. These lines have two columns:
how the option is written, and what it sets. The second column starts two blanks after the longest
form, so that its entries stand below each other.
-/

namespace FoodTable.CommandLine

/-- A line in two columns. -/
structure Entry where
  form : String
  text : String
  deriving DecidableEq, Repr

namespace Entry

/-- The line whose first column has a given width. -/
def line (e : Entry) (width : Nat) : String :=
  e.form ++ String.ofList (List.replicate (width - e.form.length) ' ') ++ "  " ++ e.text

/-- The lines of a table, whose first column is as wide as its longest form. -/
def table (es : List Entry) : List String :=
  let width := es.foldl (fun w e => max w e.form.length) 0
  es.map (·.line width)

end Entry

/-- The entry of the request for help. -/
def helpEntry : Entry := ⟨"  -h, --help", "Print help"⟩

/-- A remark that follows a text. -/
def remark (label text : String) : String := " [" ++ label ++ ": " ++ text ++ "]"

namespace Setter

variable {α : Type}

/-- What stands for the value: the name in capitals, with an underscore for each hyphen. -/
def placeholder (o : Setter α) : String :=
  String.ofList (o.name.toList.map fun c => if c = '-' then '_' else c.toUpper)

/-- The entry of an option. Its remarks tell what its variable holds and which value it has when it
is not given; a variable that is not set looks like an empty one. -/
def entry (environment : String → Option String) (o : Setter α) : Entry where
  form := "      --" ++ o.name ++ " <" ++ o.placeholder ++ ">"
  text := o.summary ++
    (o.fallback.elim "" fun name => remark "env" (name ++ "=" ++ (environment name).getD "")) ++
    o.initial.elim "" (remark "default")

end Setter

/-- The help of a program with the given name. -/
def help {α : Type} (program purpose : String) (options : List (Setter α))
    (environment : String → Option String) : List String :=
  [purpose, "", "Usage: " ++ program ++ " [OPTIONS]", "", "Options:"] ++
    Entry.table (options.map (·.entry environment) ++ [helpEntry])

end FoodTable.CommandLine
