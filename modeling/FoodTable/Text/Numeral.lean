/-!
# Decimal numerals

Digit strings and their values, numerals with an optional sign, and the shortest digit string of a
number. Leading zeros are allowed when a numeral is read and never written.
-/

namespace FoodTable.Text

/-- The value of a digit string, first digit highest. -/
def digitsValue (ds : List Char) : Nat := ds.foldl (fun n c => 10 * n + (c.toNat - 48)) 0

/-- One or more of the characters `0` to `9`. -/
def isDigits (s : List Char) : Bool := !s.isEmpty && s.all Char.isDigit

/-- The value of a digit string, if it is one. -/
def digits? (s : List Char) : Option Nat := if isDigits s then some (digitsValue s) else none

/-- The value of digits after an optional `+`. -/
def unsigned? : List Char → Option Nat
  | '+' :: s => digits? s
  | s => digits? s

/-- The value of digits after an optional `+` or `-`. -/
def signed? : List Char → Option Int
  | '-' :: s => (digits? s).map fun n => -(n : Int)
  | s => (unsigned? s).map fun n => (n : Int)

def digitChar (d : Nat) : Char := Char.ofNat (48 + d)

/-- The digits of a number without leading zeros. -/
def digits (n : Nat) : List Char :=
  if n < 10 then [digitChar n] else digits (n / 10) ++ [digitChar (n % 10)]

/-- The digits of a number as a text. -/
def numeral (n : Nat) : String := String.ofList (digits n)

theorem digitsValue_append_one (ds : List Char) (c : Char) :
    digitsValue (ds ++ [c]) = 10 * digitsValue ds + (c.toNat - 48) := by
  simp [digitsValue, List.foldl_append]

end FoodTable.Text
