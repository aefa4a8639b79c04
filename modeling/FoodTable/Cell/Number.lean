import FoodTable.Binary64.Rounding
import FoodTable.Text.Blank
import FoodTable.Text.Numeral

/-!
# The number at the front of a text

The longest front of a text of the form sign, digits with an optional fraction, optional exponent.
What follows it, such as a unit, plays no part.
-/

namespace FoodTable.Cell

open Text

/-- Whether a minus sign stands in front, and the text after the sign. -/
def takeSign : List Char → Bool × List Char
  | '-' :: s => (true, s)
  | '+' :: s => (false, s)
  | s => (false, s)

/-- The digits in front and the text after them. -/
def takeDigits (s : List Char) : List Char × List Char :=
  (s.takeWhile Char.isDigit, s.dropWhile Char.isDigit)

/-- The digits after a point, and the text after them. -/
def takeFraction : List Char → List Char × List Char
  | '.' :: s => takeDigits s
  | s => ([], s)

/-- The exponent in front, 0 if there is none. A mark without digits is no exponent. -/
def exponentInFront : List Char → Int
  | [] => 0
  | c :: s =>
    if c = 'e' ∨ c = 'E' then
      let (negative, rest) := takeSign s
      let n := digitsValue (takeDigits rest).1
      if negative then -n else n
    else 0

/-- The sign and the decimal in front of a text, if a digit stands there. -/
def decimalInFront? (s : List Char) : Option (Bool × Decimal) :=
  let (negative, s) := takeSign s
  let (whole, s) := takeDigits s
  let (fraction, s) := takeFraction s
  if whole.isEmpty && fraction.isEmpty then none
  else some (negative, ⟨digitsValue (whole ++ fraction), exponentInFront s - fraction.length⟩)

/-- The number in front of a text after blanks, if there is one and it is finite. -/
def leadingNumber? (s : List Char) : Option Binary64 :=
  match decimalInFront? (trimStart s) with
  | none => none
  | some (negative, d) =>
    let x := Binary64.ofDecimal negative d
    if x.isFinite then some x else none

end FoodTable.Cell
