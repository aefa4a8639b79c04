import FoodTable.Text.Hexadecimal
import FoodTable.Text.Pieces
import FoodTable.Text.Utf8

/-!
# Request targets

The path and the query of a request. Bytes that may not stand in a target are written `%` and two
hexadecimal digits; a `%` without them stands for itself. A query is a form: pairs of a key and a
value, with `+` for a space.
-/

namespace FoodTable

open Text

namespace Url

/-- The byte of a percent sign and two characters after it. -/
def escapedByte? (percent high low : UInt8) : Option UInt8 :=
  if Char.ofUInt8 percent = '%' then do
    let h ← hexValue? (Char.ofUInt8 high)
    let l ← hexValue? (Char.ofUInt8 low)
    some (16 * h + l).toUInt8
  else none

/-- The bytes that a text with percent signs stands for. -/
def percentDecode : Bytes → Bytes
  | a :: b :: c :: s =>
    match escapedByte? a b c with
    | some x => x :: percentDecode s
    | none => a :: percentDecode (b :: c :: s)
  | s => s

/-- The text of a path segment, if its bytes are well formed. -/
def segment? (s : List Char) : Option String :=
  (ofUtf8? (percentDecode (toUtf8 s))).map String.ofList

/-- The text of one side of a form pair. -/
def formText (s : List Char) : String :=
  String.ofList (ofUtf8Lossy (percentDecode (toUtf8 (s.map fun c => if c = '+' then ' ' else c))))

/-- A form pair. Without an equals sign the value is empty. -/
def formPair (s : List Char) : String × String :=
  (formText (s.takeWhile (· ≠ '=')), formText ((s.dropWhile (· ≠ '=')).drop 1))

/-- The pairs of a form. Empty pieces are left out. -/
def formPairs (s : List Char) : List (String × String) :=
  ((pieces '&' s).filter (! ·.isEmpty)).map formPair

end Url

/-- A path, as it is, and the pairs of a query. -/
structure Target where
  path : List Char
  pairs : List (String × String)
  deriving DecidableEq, Repr

namespace Target

/-- A text without the scheme and the host that may stand before a path. -/
def dropHost : List Char → List Char
  | '/' :: s => '/' :: s
  | s =>
    match cut? "://".toList s with
    | some (_, rest) => rest.dropWhile fun c => c ≠ '/' && c ≠ '?'
    | none => s

/-- The target that a text gives, its fragment dropped. -/
def ofText (s : String) : Target :=
  let s := dropHost (s.toList.takeWhile (· ≠ '#'))
  ⟨s.takeWhile (· ≠ '?'), Url.formPairs ((s.dropWhile (· ≠ '?')).drop 1)⟩

end Target

end FoodTable
