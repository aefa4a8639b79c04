/-!
# Command lines

Options with a value, as `--name value` or `--name=value`, each given at most once, and a request
for help. An option that is not given may be set by an environment variable.

Arguments are read from the left. The value of an option is checked when the next option begins or
the line ends, but an attached value at once; an unknown argument is refused before a value that
still waits for its check.
-/

namespace FoodTable.CommandLine

/-- Why a command line is not carried out. -/
inductive Rejection where
  | valueMissing
  | valueInvalid
  | valueNeedless
  | unknownArgument
  | repeatedOption
  /-- The line asks for help. -/
  | helpWanted
  deriving DecidableEq, Repr

/-- An option that sets a part of `α`. -/
structure Setter (α : Type) where
  name : String
  /-- What the option sets, in a few words. -/
  summary : String
  /-- The environment variable that stands in for the option. -/
  fallback : Option String := none
  /-- The value of an option that is not given, if there is one to show. -/
  initial : Option String := none
  set : String → α → Except Rejection α

/-- One argument by its form. -/
inductive Argument where
  /-- `--`, after which no options are read. -/
  | separator
  | long (name : String) (value : Option String)
  /-- The first letter after a single hyphen. -/
  | short (letter : Char)
  | plain (text : String)
  deriving DecidableEq, Repr

/-- The form of an argument. A lone hyphen is plain. -/
def Argument.ofText (s : String) : Argument :=
  match s.toList with
  | ['-', '-'] => separator
  | '-' :: '-' :: s =>
    long (String.ofList (s.takeWhile (· ≠ '=')))
      (match s.dropWhile (· ≠ '=') with
        | [] => none
        | _ :: value => some (String.ofList value))
  | '-' :: c :: _ => short c
  | _ => plain s

/-- A line that has been read in part. -/
structure Scan (α : Type) where
  result : α
  /-- The options that have been given. -/
  given : List String := []
  /-- An option whose value is not yet checked, or not yet read. -/
  pending : Option (Setter α × Option String) := none

namespace Scan

variable {α : Type}

/-- Checks a value and takes it. -/
def take (s : Scan α) (o : Setter α) (value : String) : Except Rejection (Scan α) := do
  if s.given.contains o.name then throw .repeatedOption
  return { result := ← o.set value s.result, given := o.name :: s.given }

/-- Checks the value that waits. -/
def settle (s : Scan α) : Except Rejection (Scan α) :=
  match s.pending with
  | none => .ok s
  | some (_, none) => .error .valueMissing
  | some (o, some value) => s.take o value

/-- Reads a long argument. -/
def long (options : List (Setter α)) (s : Scan α) (name : String) (value : Option String) :
    Except Rejection (Scan α) := do
  if name = "help" then
    if value.isSome then throw .valueNeedless
    let _ ← s.settle
    throw .helpWanted
  let some o := options.find? (·.name = name) | throw .unknownArgument
  let s ← s.settle
  match value with
  | some value => s.take o value
  | none => return { s with pending := some (o, none) }

/-- Reads a short argument. Only `h` is one. -/
def short (s : Scan α) (letter : Char) : Except Rejection (Scan α) := do
  if letter = 'h' then
    let _ ← s.settle
    throw .helpWanted
  throw .unknownArgument

/-- Reads a text that is no option. Only a waiting option has use for it. -/
def plain (s : Scan α) (text : String) : Except Rejection (Scan α) :=
  match s.pending with
  | some (o, none) => .ok { s with pending := some (o, some text) }
  | _ => .error .unknownArgument

/-- Reads arguments. -/
def run (options : List (Setter α)) : Scan α → List String → Except Rejection (Scan α)
  | s, [] => s.settle
  | s, a :: rest => do
    match Argument.ofText a with
    | .separator => if rest.isEmpty then s.settle else throw .unknownArgument
    | .long name value => run options (← s.long options name value) rest
    | .short letter => run options (← s.short letter) rest
    | .plain text => run options (← s.plain text) rest

/-- Sets an option that is not given from its variable. -/
def fill (environment : String → Option String) (s : Scan α) (o : Setter α) :
    Except Rejection (Scan α) :=
  if s.given.contains o.name then .ok s
  else match o.fallback.bind environment with
    | some value => s.take o value
    | none => .ok s

end Scan

/-- What arguments and environment variables make of the defaults. Variables are read in the order
of the options, after all arguments. -/
def read {α : Type} (options : List (Setter α)) (defaults : α) (arguments : List String)
    (environment : String → Option String) : Except Rejection α := do
  let s ← Scan.run options { result := defaults } arguments
  let s ← options.foldlM (Scan.fill environment) s
  return s.result

end FoodTable.CommandLine
