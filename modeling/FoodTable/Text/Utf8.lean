/-!
# UTF-8

Decoding of bytes one at a time. An ill-formed sequence is read as one missing character for each
maximal part of it that could have begun a character, so a strict reading refuses and a lenient one
substitutes.
-/

namespace FoodTable

abbrev Bytes := List UInt8

namespace Text

/-- What a character that has begun still owes: the range of its next byte, how many bytes follow
that one, and the bits read so far. -/
structure Owed where
  low : Nat
  high : Nat
  further : Nat
  bits : Nat

/-- The state after the first byte of a character of two to four bytes. -/
def Owed.ofLead? (b : Nat) : Option Owed :=
  if 0xC2 ≤ b ∧ b ≤ 0xDF then some ⟨0x80, 0xBF, 0, b - 0xC0⟩
  else if b = 0xE0 then some ⟨0xA0, 0xBF, 1, 0⟩
  else if b = 0xED then some ⟨0x80, 0x9F, 1, 0x0D⟩
  else if 0xE1 ≤ b ∧ b ≤ 0xEF then some ⟨0x80, 0xBF, 1, b - 0xE0⟩
  else if b = 0xF0 then some ⟨0x90, 0xBF, 2, 0⟩
  else if 0xF1 ≤ b ∧ b ≤ 0xF3 then some ⟨0x80, 0xBF, 2, b - 0xF0⟩
  else if b = 0xF4 then some ⟨0x80, 0x8F, 2, 4⟩
  else none

/-- A byte between characters: what it completes and what is owed after it. -/
def beginChar (b : Nat) : List (Option Char) × Option Owed :=
  if b < 0x80 then ([some (Char.ofNat b)], none)
  else match Owed.ofLead? b with
    | some o => ([], some o)
    | none => ([none], none)

/-- A byte inside a character. One out of range ends the character and begins anew. -/
def Owed.step (o : Owed) (b : Nat) : List (Option Char) × Option Owed :=
  if o.low ≤ b ∧ b ≤ o.high then
    let bits := o.bits * 64 + (b - 0x80)
    match o.further with
    | 0 => ([some (Char.ofNat bits)], none)
    | n + 1 => ([], some ⟨0x80, 0xBF, n, bits⟩)
  else
    let (out, next) := beginChar b
    (none :: out, next)

/-- The characters of the bytes after a state, `none` for each ill-formed part. -/
def decodeFrom : Option Owed → Bytes → List (Option Char)
  | none, [] => []
  | some _, [] => [none]
  | none, b :: s => let (out, next) := beginChar b.toNat; out ++ decodeFrom next s
  | some o, b :: s => let (out, next) := o.step b.toNat; out ++ decodeFrom next s

/-- The text of well-formed bytes. -/
def ofUtf8? (s : Bytes) : Option (List Char) := (decodeFrom none s).mapM id

/-- The text of any bytes, with U+FFFD for each ill-formed part. -/
def ofUtf8Lossy (s : Bytes) : List Char := (decodeFrom none s).map (·.getD '\uFFFD')

/-- The bytes of a character. -/
def encodeChar (c : Char) : Bytes :=
  let n := c.toNat
  if n < 0x80 then [n.toUInt8]
  else if n < 0x800 then [(0xC0 + n / 64).toUInt8, (0x80 + n % 64).toUInt8]
  else if n < 0x10000 then
    [(0xE0 + n / 4096).toUInt8, (0x80 + n / 64 % 64).toUInt8, (0x80 + n % 64).toUInt8]
  else
    [(0xF0 + n / 262144).toUInt8, (0x80 + n / 4096 % 64).toUInt8, (0x80 + n / 64 % 64).toUInt8,
      (0x80 + n % 64).toUInt8]

/-- The bytes of a text. -/
def toUtf8 (s : List Char) : Bytes := s.flatMap encodeChar

end Text

end FoodTable
