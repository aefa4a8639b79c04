import FoodTable.Binary64.Shortest

/-!
# Number texts

How the digits of a binary64 number are laid out: where the point stands, when an exponent is
written, and whether whole numbers keep a fraction.
-/

namespace FoodTable

open Text

/-- The decisions of a number format. -/
structure Layout where
  tie : Tie
  /-- Whether a number whose point stands after `p` digits is written without an exponent. -/
  positional : Int → Bool
  /-- Whether whole numbers end in `.0`. -/
  wholeFraction : Bool

/-- All digits, no exponent, whole numbers as integers. -/
def Layout.plain : Layout := ⟨.up, fun _ => true, false⟩

namespace Decimal

/-- The digits around the point, with zeros where the digits do not reach it. -/
def positional (wholeFraction : Bool) (d : Decimal) : List Char :=
  let ds := digits d.coefficient
  if 0 ≤ d.exponent then
    ds ++ List.replicate d.exponent.toNat '0' ++ (if wholeFraction then ".0".toList else [])
  else
    let places := (-d.exponent).toNat
    if places < ds.length then
      ds.take (ds.length - places) ++ '.' :: ds.drop (ds.length - places)
    else "0.".toList ++ List.replicate (places - ds.length) '0' ++ ds

/-- One digit before the point and the power of ten that is left. -/
def scientific (d : Decimal) : List Char :=
  let ds := digits d.coefficient
  let e := d.exponent + ds.length - 1
  let fraction := if ds.length = 1 then [] else '.' :: ds.drop 1
  ds.take 1 ++ fraction ++ 'e' :: (if e < 0 then '-' else '+') :: digits e.natAbs

/-- The text of a decimal. -/
def text (l : Layout) (d : Decimal) : List Char :=
  if d.coefficient = 0 ∨ l.positional ((digits d.coefficient).length + d.exponent) then
    d.positional l.wholeFraction
  else d.scientific

end Decimal

namespace Binary64

/-- The text of a magnitude. -/
def magnitudeText (l : Layout) (x : Binary64) : List Char :=
  if x.isNan then "NaN".toList
  else if !x.isFinite then "inf".toList
  else if x.isZero then Decimal.text l ⟨0, 0⟩
  else (shortest l.tie x.magnitude x.magnitude_lt).text l

/-- The text of a number. A pattern that stands for no number has no sign. -/
def text (l : Layout) (x : Binary64) : List Char :=
  if x.negative && !x.isNan then '-' :: x.magnitudeText l else x.magnitudeText l

end Binary64

end FoodTable
