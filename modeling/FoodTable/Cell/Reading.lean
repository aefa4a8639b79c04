import FoodTable.Cell.Number

/-!
# Cell readings

What a cell of the table says about an amount: nothing, a trace, or a number, each as measured or as
an estimate in brackets. A cell that says nothing known is read as a measured zero.
-/

namespace FoodTable

/-- The content of a cell, if the table gives one. -/
abbrev Cell := Option String

namespace Cell

/-- The cell text of an amount that was not measured. -/
def missingMark : List Char := ['-']

/-- The cell text of a trace. -/
def traceMark : List Char := ['T', 'r']

/-- An amount with its flags. -/
structure Reading where
  value : Option Binary64
  isTrace : Bool
  isEstimate : Bool
  deriving DecidableEq, Repr

def Reading.missing : Reading := ⟨none, false, false⟩

def Reading.number (x : Binary64) (isEstimate : Bool) : Reading := ⟨some x, false, isEstimate⟩

def Reading.trace (isEstimate : Bool) : Reading := ⟨some .zero, true, isEstimate⟩

/-- The text inside brackets that enclose the whole text. -/
def bracketed? : List Char → Option (List Char)
  | '(' :: s => if s.getLast? = some ')' then some s.dropLast else none
  | _ => none

/-- The estimate that the text inside brackets gives. -/
def estimate? (inner : List Char) : Option Reading :=
  if inner = traceMark then some (.trace true)
  else (leadingNumber? inner).map fun x => .number x true

/-- The reading of a text without blanks at its ends. -/
def readTrimmed (t : List Char) : Reading :=
  if t.isEmpty ∨ t = missingMark then .missing
  else match (bracketed? t).bind estimate? with
    | some r => r
    | none =>
      if t = traceMark then .trace false
      else .number ((leadingNumber? t).getD .zero) false

/-- The reading of a cell. -/
def read : Cell → Reading
  | none => .missing
  | some s => readTrimmed (Text.trim s.toList)

end Cell

end FoodTable
