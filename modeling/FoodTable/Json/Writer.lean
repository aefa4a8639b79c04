import FoodTable.Binary64.Layout
import FoodTable.Json.Value
import FoodTable.Text.Hexadecimal

/-!
# Writing JSON

The compact text of a value. Inside quotes only quotes, backslashes and control characters are
escaped.
-/

namespace FoodTable.Json

open Text

/-- Shortest digits, a tie to the even one. The point stands among or near the digits when at most
16 places stand before it and at most four zeros follow it; whole numbers end in `.0`. -/
def layout : Layout := ⟨.toEven, fun p => -5 < p && p ≤ 16, true⟩

/-- A character as it stands between quotes. -/
def escaped (c : Char) : List Char :=
  match c with
  | '"' => ['\\', '"']
  | '\\' => ['\\', '\\']
  | '\x08' => ['\\', 'b']
  | '\t' => ['\\', 't']
  | '\n' => ['\\', 'n']
  | '\x0c' => ['\\', 'f']
  | '\r' => ['\\', 'r']
  | c =>
    if c.toNat < 0x20 then ['\\', 'u', '0', '0', hexDigit (c.toNat / 16), hexDigit (c.toNat % 16)]
    else [c]

/-- A text in quotes. -/
def quoted (s : String) : List Char := '"' :: (s.toList.flatMap escaped ++ ['"'])

/-- The text of a number. Infinities and patterns that stand for no number are written `null`. -/
def numberText (x : Binary64) : List Char := if x.isFinite then x.text layout else "null".toList

namespace Value

mutual

/-- The characters of a value. -/
def write : Value → List Char
  | null => "null".toList
  | bool b => if b then "true".toList else "false".toList
  | natural n => digits n
  | number x => numberText x
  | text s => quoted s
  | list items => '[' :: writeItems items
  | record fields => '{' :: writeFields fields

/-- The items up to the closing bracket. -/
def writeItems : List Value → List Char
  | [] => [']']
  | v :: items => v.write ++ writeFurtherItems items

def writeFurtherItems : List Value → List Char
  | [] => [']']
  | v :: items => ',' :: (v.write ++ writeFurtherItems items)

/-- The fields up to the closing brace. -/
def writeFields : List (String × Value) → List Char
  | [] => ['}']
  | (name, v) :: fields => quoted name ++ ':' :: (v.write ++ writeFurtherFields fields)

def writeFurtherFields : List (String × Value) → List Char
  | [] => ['}']
  | (name, v) :: fields => ',' :: (quoted name ++ ':' :: (v.write ++ writeFurtherFields fields))

end

/-- The text of a value. -/
def toText (v : Value) : String := String.ofList v.write

end Value

end FoodTable.Json
