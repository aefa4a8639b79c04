import FoodTable.Powers

/-!
# Binary64 numbers

Floating-point numbers of 64 bits as a sign and a magnitude pattern of 63 bits. Patterns grow with
the number they stand for, so numbers are compared through their signed patterns, and every finite
magnitude is a whole number of `units`, the least positive magnitude.
-/

namespace FoodTable

/-- A sign and the pattern of a magnitude. Patterns above that of infinity stand for no number. -/
structure Binary64 where
  negative : Bool
  magnitude : Nat
  magnitude_lt : magnitude < pow2 63
  deriving DecidableEq, Repr

namespace Binary64

/-- The pattern of an infinite magnitude. -/
def infinity : Nat := 0x7FF * pow2 52

def zero : Binary64 := ⟨false, 0, by decide⟩

def isNan (x : Binary64) : Bool := infinity < x.magnitude

def isFinite (x : Binary64) : Bool := x.magnitude < infinity

def isZero (x : Binary64) : Bool := x.magnitude == 0

/-! ### Bits -/

/-- The number with the 64 bits of `n`, higher bits dropped. -/
def ofBits (n : Nat) : Binary64 :=
  ⟨n / pow2 63 % 2 == 1, n % pow2 63, Nat.mod_lt _ (by decide)⟩

def toBits (x : Binary64) : Nat := (if x.negative then pow2 63 else 0) + x.magnitude

/-! ### Order -/

/-- The signed pattern. Both zeros have 0. -/
def index (x : Binary64) : Int := if x.negative then -x.magnitude else x.magnitude

/-- How two numbers compare, if both are numbers. -/
def compare? (x y : Binary64) : Option Ordering :=
  if x.isNan || y.isNan then none else some (compare x.index y.index)

/-- Strictly less. Never holds of a pattern that stands for no number. -/
def less (x y : Binary64) : Bool := x.compare? y == some .lt

/-! ### Exact values -/

/-- The magnitude of a finite pattern as a multiple of the least positive magnitude `2 ^ -1074`. -/
def unitsOf (m : Nat) : Nat :=
  if m < pow2 52 then m else (pow2 52 + m % pow2 52) * pow2 (m / pow2 52 - 1)

def units (x : Binary64) : Nat := unitsOf x.magnitude

theorem infinity_lt : infinity < pow2 63 := by decide

theorem isNan_eq_false_of_isFinite {x : Binary64} (h : x.isFinite = true) : x.isNan = false := by
  simp only [isFinite, isNan, decide_eq_true_eq, decide_eq_false_iff_not] at *
  omega

end Binary64

end FoodTable
