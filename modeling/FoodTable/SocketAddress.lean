import FoodTable.Powers
import FoodTable.Text.Hexadecimal
import FoodTable.Text.Pieces

/-!
# Socket addresses

A network address and the number of a service on it, as `127.0.0.1:8787` or `[::1]:8787`. Several
texts name one address; the text that is written is the usual short one.
-/

namespace FoodTable

open Text

inductive NetworkAddress where
  /-- Four octets. -/
  | v4 (octets : List Nat)
  /-- Eight groups of 16 bits. -/
  | v6 (groups : List Nat)
  deriving DecidableEq, Repr

structure SocketAddress where
  address : NetworkAddress
  /-- The zone of an address of groups, 0 if none is given. -/
  scope : Nat := 0
  portNumber : Nat
  deriving DecidableEq, Repr

/-! ### Reading -/

/-- A numeral below a bound, leading zeros allowed. -/
def numeralBelow? (bound : Nat) (s : List Char) : Option Nat := (digits? s).filter (· < bound)

namespace NetworkAddress

/-- A number below 256 without leading zeros. -/
def octet? (s : List Char) : Option Nat :=
  if s.head? = some '0' ∧ s ≠ ['0'] then none else numeralBelow? 256 s

/-- Four octets between points. -/
def octets? (s : List Char) : Option (List Nat) := do
  let octets ← (pieces '.' s).mapM octet?
  if octets.length = 4 then some octets else none

/-- One to four hexadecimal digits. -/
def group? (s : List Char) : Option Nat := do
  let ds ← s.mapM hexValue?
  if 1 ≤ ds.length ∧ ds.length ≤ 4 then some (ds.foldl (fun n d => 16 * n + d) 0) else none

/-- The two groups of four octets. -/
def groupsOfOctets : List Nat → List Nat
  | [a, b, c, d] => [256 * a + b, 256 * c + d]
  | _ => []

/-- The groups between colons. The last piece may be four octets, which make two groups. -/
def groupsOfPieces? : List (List Char) → Option (List Nat)
  | [] => some []
  | [p] => ((group? p).map ([·])) <|> (octets? p).map groupsOfOctets
  | p :: ps => do
    let g ← group? p
    let gs ← groupsOfPieces? ps
    some (g :: gs)

/-- The groups of a text, none of an empty text. -/
def groups? (s : List Char) : Option (List Nat) :=
  if s.isEmpty then some [] else groupsOfPieces? (pieces ':' s)

/-- Eight groups, of which one or more zeros may be left out between two colons. No octets stand
before the gap. -/
def eightGroups? (s : List Char) : Option (List Nat) := do
  match cut? [':', ':'] s with
  | none =>
    let gs ← groups? s
    if gs.length = 8 then some gs else none
  | some (before, after) =>
    let front ← if before.isEmpty then some [] else (pieces ':' before).mapM group?
    let back ← groups? after
    if front.length + back.length ≤ 7 then
      some (front ++ List.replicate (8 - front.length - back.length) 0 ++ back)
    else none

end NetworkAddress

namespace SocketAddress

def portNumber? (s : List Char) : Option Nat := numeralBelow? (pow2 16) s

/-- Groups with an optional zone. -/
def zoned? (s : List Char) (number : Nat) : Option SocketAddress :=
  match pieces '%' s with
  | [address] => (NetworkAddress.eightGroups? address).map fun gs => ⟨.v6 gs, 0, number⟩
  | [address, zone] => do
    let gs ← NetworkAddress.eightGroups? address
    let scope ← numeralBelow? (pow2 32) zone
    some ⟨.v6 gs, scope, number⟩
  | _ => none

/-- The address that a text names. -/
def ofText? (s : String) : Option SocketAddress :=
  match s.toList with
  | '[' :: s => do
    let (address, number) ← cut? [']', ':'] s
    zoned? address (← portNumber? number)
  | s =>
    match pieces ':' s with
    | [address, number] => do
      let octets ← NetworkAddress.octets? address
      some { address := .v4 octets, portNumber := ← portNumber? number }
    | _ => none

end SocketAddress

/-! ### Writing -/

namespace NetworkAddress

/-- The groups between colons. -/
def groupsText (gs : List Nat) : List Char := join ':' (gs.map hexDigits)

def octetsText (os : List Nat) : List Char := join '.' (os.map digits)

/-- How many zeros stand in front. -/
def zerosInFront (gs : List Nat) : Nat := (gs.takeWhile (· == 0)).length

/-- The start and the length of the longest run of zeros, the first of several. -/
def longestGap (gs : List Nat) : Nat × Nat :=
  (List.range gs.length).foldl (fun (start, length) i =>
    let n := zerosInFront (gs.drop i)
    if length < n then (i, n) else (start, length)) (0, 0)

/-- The text of eight groups. The longest run of two or more zeros is left out, and octets in
disguise are written as octets. -/
def groupsAddressText (gs : List Nat) : List Char :=
  match gs with
  | [0, 0, 0, 0, 0, 0xFFFF, a, b] =>
    "::ffff:".toList ++ octetsText [a / 256, a % 256, b / 256, b % 256]
  | _ =>
    let (start, length) := longestGap gs
    if 2 ≤ length then
      groupsText (gs.take start) ++ ':' :: ':' :: groupsText (gs.drop (start + length))
    else groupsText gs

def text : NetworkAddress → String
  | v4 octets => String.ofList (octetsText octets)
  | v6 groups => String.ofList (groupsAddressText groups)

end NetworkAddress

/-- The text of an address and its number. -/
def SocketAddress.text (a : SocketAddress) : String :=
  let zone := if a.scope = 0 then "" else "%" ++ numeral a.scope
  match a.address with
  | .v4 _ => a.address.text ++ ":" ++ numeral a.portNumber
  | .v6 _ => "[" ++ a.address.text ++ zone ++ "]:" ++ numeral a.portNumber

end FoodTable
