import FoodTable.Json.Number
import FoodTable.Json.Quoted

/-!
# Reading values

Reading goes by the shape that is expected, so a value of another shape is refused where it begins.
Lists and records are read member by member; members of records that are not asked for are skipped.

Every loop takes a bound on the number of its rounds. A round takes at least one byte, so the number
of bytes is bound enough.
-/

namespace FoodTable.Json

/-! ### Members -/

/-- What stands where a member of a list or record may stand. -/
inductive Next where
  /-- The closing bracket, before these bytes. -/
  | closed (rest : Bytes)
  /-- These bytes, to be read as a member. -/
  | member (rest : Bytes)

/-- What comes next up to the bracket `close`. A comma stands before every member but the first. -/
def next (close : Char) (first : Bool) (s : Bytes) : Except Fault Next :=
  match skipBlank s with
  | [] => .error .truncated
  | b :: r =>
    if Char.ofUInt8 b = close then .ok (.closed r)
    else if first then .ok (.member (b :: r))
    else if Char.ofUInt8 b = ',' then
      match skipBlank r with
      | [] => .error .truncated
      | c :: r => if Char.ofUInt8 c = close then .error .malformed else .ok (.member (c :: r))
    else .error .malformed

/-- The bytes after the bracket that closes a list. -/
def closeList (s : Bytes) : Except Fault Bytes := skipWord [']'] (skipBlank s)

/-- The items of a list up to its closing bracket. -/
def items {α : Type} (item : Bytes → Except Fault (α × Bytes)) :
    Nat → Bool → Bytes → Except Fault (List α × Bytes)
  | 0, _, _ => .error .truncated
  | bound + 1, first, s => do
    match ← next ']' first s with
    | .closed s => return ([], s)
    | .member s =>
      let (a, s) ← item s
      let (as, s) ← items item bound false s
      return (a :: as, s)

/-- The bytes after an opening quote, which the name of a field needs. -/
def openName (s : Bytes) : Except Fault Bytes := skipWord ['"'] s

/-- The bytes after the colon between a name and its value. -/
def skipColon (s : Bytes) : Except Fault Bytes := skipWord [':'] (skipBlank s)

/-- The fields of a record up to its closing bracket. Each is taken into account by `field`, which
is given what is known before it and the bytes from its name on. -/
def fields {α : Type} (field : α → Bytes → Except Fault (α × Bytes)) :
    Nat → Bool → α → Bytes → Except Fault (α × Bytes)
  | 0, _, _, _ => .error .truncated
  | bound + 1, first, known, s => do
    match ← next '}' first s with
    | .closed s => return (known, s)
    | .member s =>
      let (known, s) ← field known s
      fields field bound false known s

/-! ### Values that are not read -/

/-- The bytes after a value of any shape. -/
def skipValue : Nat → Bytes → Except Fault Bytes
  | 0, _ => .error .truncated
  | bound + 1, s =>
    match skipBlank s with
    | [] => .error .truncated
    | b :: r =>
      match Char.ofUInt8 b with
      | 'n' => skipWord "ull".toList r
      | 't' => skipWord "rue".toList r
      | 'f' => skipWord "alse".toList r
      | '"' => skipQuoted r
      | '-' => skipNumber r
      | '[' => do
        let item (s : Bytes) : Except Fault (Unit × Bytes) := do
          return ((), ← skipValue bound s)
        let (_, s) ← items item bound true r
        return s
      | '{' => do
        let field (_ : Unit) (s : Bytes) : Except Fault (Unit × Bytes) := do
          let s ← skipColon (← skipQuoted (← openName s))
          return ((), ← skipValue bound s)
        let (_, s) ← fields field bound true () r
        return s
      | c => if c.isDigit then skipNumber (b :: r) else .error .malformed

/-- The fault of a value whose first byte shows that it has not the expected shape. Texts, numbers
and words are still read to their end, lists and records are not. -/
def wrongShape (s : Bytes) : Fault :=
  let ending : Except Fault Bytes :=
    match s with
    | [] => .error .truncated
    | b :: r =>
      match Char.ofUInt8 b with
      | 'n' => skipWord "ull".toList r
      | 't' => skipWord "rue".toList r
      | 'f' => skipWord "alse".toList r
      | '"' => (quotedText r).map (·.2)
      | '-' => passNumber r
      | '[' | '{' => .ok r
      | c => if c.isDigit then passNumber (b :: r) else .error .malformed
  match ending with
  | .error e => e
  | .ok _ => .mismatched

/-! ### Values that are read -/

/-- A text. -/
def text (s : Bytes) : Except Fault (String × Bytes) :=
  match skipBlank s with
  | [] => .error .truncated
  | b :: r => if Char.ofUInt8 b = '"' then quotedText r else .error (wrongShape (b :: r))

/-- A text or `null`. -/
def optionalText (s : Bytes) : Except Fault (Option String × Bytes) :=
  match skipBlank s with
  | [] => .error .truncated
  | b :: r =>
    if Char.ofUInt8 b = 'n' then do
      return (none, ← skipWord "ull".toList r)
    else do
      let (t, s) ← text (b :: r)
      return (some t, s)

/-- A list. -/
def list {α : Type} (bound : Nat) (item : Bytes → Except Fault (α × Bytes)) (s : Bytes) :
    Except Fault (List α × Bytes) :=
  match skipBlank s with
  | [] => .error .truncated
  | b :: r => if Char.ofUInt8 b = '[' then items item bound true r else .error (wrongShape (b :: r))

/-- A record, written by its fields' names or as the list of its fields. Both readers begin after
the opening bracket. -/
def record {α : Type} (byName byPlace : Bytes → Except Fault (α × Bytes)) (s : Bytes) :
    Except Fault (α × Bytes) :=
  match skipBlank s with
  | [] => .error .truncated
  | b :: r =>
    match Char.ofUInt8 b with
    | '{' => byName r
    | '[' => byPlace r
    | _ => .error (wrongShape (b :: r))

/-- The value of a field that may be given once. -/
def once {α : Type} (known : Option α) (value : Bytes → Except Fault (α × Bytes)) (s : Bytes) :
    Except Fault (Option α × Bytes) :=
  if known.isSome then .error .mismatched
  else do
    let (a, s) ← value (← skipColon s)
    return (some a, s)

/-- The name of a field. -/
def fieldName (s : Bytes) : Except Fault (String × Bytes) := do
  quotedText (← openName s)

/-- A value that is all there is, apart from blanks. -/
def whole {α : Type} (value : Nat → Bytes → Except Fault (α × Bytes)) (s : Bytes) :
    Except Fault α := do
  let (a, s) ← value (s.length + 1) s
  if (skipBlank s).isEmpty then return a else throw .malformed

end FoodTable.Json
