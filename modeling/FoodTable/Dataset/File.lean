import FoodTable.Dataset.Basic
import FoodTable.Json.Reader

/-!
# Dataset files

A dataset is kept in two files of JSON. The foods file is a list of rows, each a record whose field
`data` holds the cells. The metadata file is a list of records with the fields `name` (also
`tagName`), `unit` and `description`, of which the last two may be left out. Fields with other names
are skipped.
-/

namespace FoodTable

open Json

/-- What is found where a file should be. -/
inductive File where
  | absent
  | folder
  | content (bytes : Bytes)
  deriving DecidableEq

inductive FileName where
  | foods
  | metadata
  deriving DecidableEq, Repr

/-- Why files do not make a dataset. -/
inductive LoadError where
  | absent (file : FileName)
  | unreadable (file : FileName)
  | faulty (file : FileName) (fault : Fault)
  | table (error : TableError)
  deriving DecidableEq, Repr

namespace Row

/-- The cells of a row. -/
def cells (bound : Nat) (s : Bytes) : Except Fault (Row × Bytes) := list bound optionalText s

/-- Takes one field of a row into account. -/
def readField (bound : Nat) (known : Option Row) (s : Bytes) :
    Except Fault (Option Row × Bytes) := do
  let (name, s) ← fieldName s
  if name = "data" then once known (cells bound) s
  else return (known, ← skipValue bound (← skipColon s))

def byName (bound : Nat) (s : Bytes) : Except Fault (Row × Bytes) := do
  let (known, s) ← fields (readField bound) bound true none s
  match known with
  | some row => return (row, s)
  | none => throw .mismatched

def byPlace (bound : Nat) (s : Bytes) : Except Fault (Row × Bytes) := do
  match ← next ']' true s with
  | .closed _ => throw .mismatched
  | .member s =>
    let (row, s) ← cells bound s
    return (row, ← closeList s)

/-- A row of the foods file. -/
def read (bound : Nat) (s : Bytes) : Except Fault (Row × Bytes) :=
  record (byName bound) (byPlace bound) s

end Row

namespace TagRecord

/-- The fields of a tag record that are known so far. -/
structure Known where
  name : Option String := none
  unit : Option String := none
  description : Option String := none

/-- Takes one field of a tag record into account. -/
def readField (bound : Nat) (known : Known) (s : Bytes) : Except Fault (Known × Bytes) := do
  let (name, s) ← fieldName s
  if name = "name" ∨ name = "tagName" then
    let (t, s) ← once known.name text s
    return ({ known with name := t }, s)
  else if name = "unit" then
    let (t, s) ← once known.unit text s
    return ({ known with unit := t }, s)
  else if name = "description" then
    let (t, s) ← once known.description text s
    return ({ known with description := t }, s)
  else return (known, ← skipValue bound (← skipColon s))

def byName (bound : Nat) (s : Bytes) : Except Fault (TagRecord × Bytes) := do
  let (known, s) ← fields (readField bound) bound true {} s
  match known.name with
  | some name => return (⟨name, known.unit.getD "", known.description.getD ""⟩, s)
  | none => throw .mismatched

def byPlace (s : Bytes) : Except Fault (TagRecord × Bytes) := do
  match ← next ']' true s with
  | .closed _ => throw .mismatched
  | .member s =>
    let (name, s) ← text s
    match ← next ']' false s with
    | .closed s => return (⟨name, "", ""⟩, s)
    | .member s =>
      let (unit, s) ← text s
      match ← next ']' false s with
      | .closed s => return (⟨name, unit, ""⟩, s)
      | .member s =>
        let (description, s) ← text s
        return (⟨name, unit, description⟩, ← closeList s)

/-- A record of the metadata file. -/
def read (bound : Nat) (s : Bytes) : Except Fault (TagRecord × Bytes) :=
  record (byName bound) byPlace s

end TagRecord

/-- The rows that bytes spell. -/
def readRows (s : Bytes) : Except Fault (List Row) :=
  whole (fun bound => list bound (Row.read bound)) s

/-- The tag records that bytes spell. -/
def readTagRecords (s : Bytes) : Except Fault (List TagRecord) :=
  whole (fun bound => list bound (TagRecord.read bound)) s

/-- What a reader makes of a file. -/
def File.read {α : Type} (name : FileName) (reader : Bytes → Except Fault α) :
    File → Except LoadError α
  | absent => .error (.absent name)
  | folder => .error (.unreadable name)
  | content bytes => (reader bytes).mapError (.faulty name)

/-- The dataset of two files. The metadata is read first. -/
def Dataset.load (foods metadata : File) : Except LoadError Dataset := do
  let records ← metadata.read .metadata readTagRecords
  let rows ← foods.read .foods readRows
  (Dataset.ofTable rows records).mapError .table

end FoodTable
