import FoodTable.Text.Utf8

/-!
# Reading JSON bytes

A reading step takes bytes and leaves the bytes after what it has read. The first fault in reading
order ends the reading.
-/

namespace FoodTable.Json

/-- Why bytes are refused. -/
inductive Fault where
  /-- No JSON text begins like this. -/
  | malformed
  /-- A value has a shape that is not expected at its place. -/
  | mismatched
  /-- The bytes end inside a value. -/
  | truncated
  deriving DecidableEq, Repr

/-- Spaces and the ends of lines between values. -/
def isBlankByte (b : UInt8) : Bool :=
  match Char.ofUInt8 b with
  | ' ' | '\n' | '\t' | '\r' => true
  | _ => false

def skipBlank (s : Bytes) : Bytes := s.dropWhile isBlankByte

/-- The bytes after some characters that must stand in front. -/
def skipWord : List Char → Bytes → Except Fault (Bytes)
  | [], s => .ok s
  | _ :: _, [] => .error .truncated
  | c :: w, b :: s => if Char.ofUInt8 b = c then skipWord w s else .error .malformed

end FoodTable.Json
