import FoodTable.Text.Numeral

/-!
# Hexadecimal digits

Both cases are read, lower case is written.
-/

namespace FoodTable.Text

/-- The value of a hexadecimal digit. -/
def hexValue? (c : Char) : Option Nat :=
  if c.isDigit then some (c.toNat - 48)
  else if 'a' ≤ c ∧ c ≤ 'f' then some (c.toNat - 87)
  else if 'A' ≤ c ∧ c ≤ 'F' then some (c.toNat - 55)
  else none

/-- The digit of a number below 16. -/
def hexDigit (n : Nat) : Char := if n < 10 then digitChar n else Char.ofNat (87 + n)

/-- The digits of a number without leading zeros. -/
def hexDigits (n : Nat) : List Char :=
  if n < 16 then [hexDigit n] else hexDigits (n / 16) ++ [hexDigit (n % 16)]

theorem hexValue?_hexDigit : ∀ n < 16, hexValue? (hexDigit n) = some n := by decide

end FoodTable.Text
