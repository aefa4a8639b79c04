import FoodTable.Binary64.Rounding
import FoodTable.Proofs.Text.Numeral

/-!
# The grammar of JSON

What a JSON text says, apart from how it is written and read. A text says a tree (`Says`). Blanks
between the parts, the spelling of characters between quotes, the order of fields and the form of
numbers are free; the tree keeps the fields in the order of the text and numbers as exact decimals.
-/

namespace FoodTable.Json

open Text

/-- What a JSON text says. Escapes between quotes need not make characters, since half of a
surrogate pair may be escaped; such a text is `none`. -/
inductive Tree where
  | null
  | bool (b : Bool)
  | number (negative : Bool) (d : Decimal)
  | text (t : Option String)
  | list (items : List Tree)
  | record (fields : List (Option String × Tree))

/-- What is checked of each of the characters holds of all of them. -/
theorem forall_mem_of_all {p : Char → Prop} [DecidablePred p] {cs : List Char}
    (h : cs.all (decide <| p ·) = true) : ∀ c ∈ cs, p c :=
  fun c hc => of_decide_eq_true (List.all_eq_true.1 h c hc)

/-- Spaces and the ends of lines. -/
def IsBlanks (s : List Char) : Prop := ∀ c ∈ s, c ∈ [' ', '\n', '\t', '\r']

/-! ## Texts between quotes -/

/-- The hexadecimal digit of a number below 16, in either case. -/
def HexDigit (c : Char) (n : Nat) : Prop :=
  ['0', '1', '2', '3', '4', '5', '6', '7', '8', '9', 'a', 'b', 'c', 'd', 'e', 'f'][n]? = some c ∨
    ['0', '1', '2', '3', '4', '5', '6', '7', '8', '9', 'A', 'B', 'C', 'D', 'E', 'F'][n]? = some c

/-- Four hexadecimal digits. -/
inductive SpellsUnit : List Char → Nat → Prop
  | mk {a b c d : Char} {i j k l : Nat} (ha : HexDigit a i) (hb : HexDigit b j) (hc : HexDigit c k)
      (hd : HexDigit d l) : SpellsUnit [a, b, c, d] (16 * (16 * (16 * i + j) + k) + l)

/-- What may stand after a backslash, and the character that it stands for. -/
def shortEscapes : List (Char × Char) :=
  [('"', '"'), ('\\', '\\'), ('/', '/'), ('b', '\x08'), ('f', '\x0c'), ('n', '\n'), ('r', '\r'),
    ('t', '\t')]

/-- Whether a character may stand between quotes as itself. -/
def MayStand (c : Char) : Prop := c ≠ '"' ∧ c ≠ '\\' ∧ 0x20 ≤ c.toNat

/-- The ways to spell a character. -/
inductive SpellsChar : List Char → Char → Prop
  | self {c : Char} (hc : MayStand c) : SpellsChar [c] c
  | short {letter c : Char} (h : (letter, c) ∈ shortEscapes) : SpellsChar ['\\', letter] c
  | unit {ds : List Char} {c : Char} (h : SpellsUnit ds c.toNat) : SpellsChar ('\\' :: 'u' :: ds) c
  /-- A character above U+FFFF as the two halves of a surrogate pair. -/
  | pair {ds ds' : List Char} {n m : Nat} {c : Char} (h : SpellsUnit ds n) (h' : SpellsUnit ds' m)
      (hn : 0xD800 ≤ n ∧ n ≤ 0xDBFF) (hm : 0xDC00 ≤ m ∧ m ≤ 0xDFFF)
      (hc : c.toNat = 0x10000 + (n - 0xD800) * 0x400 + (m - 0xDC00)) :
      SpellsChar ('\\' :: 'u' :: (ds ++ '\\' :: 'u' :: ds')) c

inductive SpellsChars : List Char → List Char → Prop
  | nil : SpellsChars [] []
  | cons {p s t : List Char} {c : Char} (hp : SpellsChar p c) (hs : SpellsChars s t) :
      SpellsChars (p ++ s) (c :: t)

/-- A character or an escape, whether or not the escape is a character by itself. -/
inductive IsPiece : List Char → Prop
  | self {c : Char} (hc : MayStand c) : IsPiece [c]
  | short {letter c : Char} (h : (letter, c) ∈ shortEscapes) : IsPiece ['\\', letter]
  | unit {ds : List Char} {n : Nat} (h : SpellsUnit ds n) : IsPiece ('\\' :: 'u' :: ds)

inductive ArePieces : List Char → Prop
  | nil : ArePieces []
  | cons {p s : List Char} (hp : IsPiece p) (hs : ArePieces s) : ArePieces (p ++ s)

/-- The quoted characters of a text. -/
def SpellsText (s : List Char) (t : String) : Prop :=
  ∃ body, SpellsChars body t.toList ∧ s = '"' :: (body ++ ['"'])

/-- Anything between quotes. -/
def IsQuoted (s : List Char) : Prop := ∃ body, ArePieces body ∧ s = '"' :: (body ++ ['"'])

/-- What is quoted: a text, or escapes that make none. -/
def SpellsQuoted (s : List Char) : Option String → Prop
  | some t => SpellsText s t
  | none => IsQuoted s ∧ ∀ t, ¬ SpellsText s t

/-! ## Numbers -/

/-- Digits without a needless zero in front. -/
structure IsWhole (ds : List Char) : Prop where
  nonempty : ds ≠ []
  digits : ∀ c ∈ ds, c.isDigit = true
  leading : ds.head? = some '0' → ds = ['0']

/-- A point and the digits after it, or nothing. -/
inductive SpellsFraction : List Char → List Char → Prop
  | absent : SpellsFraction [] []
  | point {ds : List Char} (hne : ds ≠ []) (hds : ∀ c ∈ ds, c.isDigit = true) :
      SpellsFraction ('.' :: ds) ds

/-- A mark and the exponent after it, or nothing. -/
inductive SpellsExponent : List Char → Int → Prop
  | absent : SpellsExponent [] 0
  | marked {mark : Char} {s : List Char} {e : Int} (hmark : mark = 'e' ∨ mark = 'E')
      (hs : IsSigned s e) : SpellsExponent (mark :: s) e

def signText (negative : Bool) : List Char := if negative then ['-'] else []

/-- A number with the sign and the decimal that it denotes. -/
inductive SpellsNumber : List Char → Bool → Decimal → Prop
  | mk {negative : Bool} {whole fraction exponent ds : List Char} {coefficient : Nat} {e : Int}
      (hwhole : IsWhole whole) (hfraction : SpellsFraction fraction ds)
      (hexponent : SpellsExponent exponent e) (hvalue : IsDecimal (whole ++ ds) coefficient) :
      SpellsNumber (signText negative ++ (whole ++ (fraction ++ exponent))) negative
        ⟨coefficient, e - ds.length⟩

/-! ## Values -/

/-- What stands before a member of a list or record: blanks, and a comma before every member but
the first. -/
inductive Opening : Bool → List Char → Prop
  | first {b : List Char} (hb : IsBlanks b) : Opening true b
  | further {b b' : List Char} (hb : IsBlanks b) (hb' : IsBlanks b') :
      Opening false (b ++ ',' :: b')

/-- Members up to the closing bracket. -/
inductive Members {α : Type} (close : Char) (member : List Char → α → Prop) :
    Bool → List Char → List α → Prop
  | nil {first : Bool} {b : List Char} (hb : IsBlanks b) :
      Members close member first (b ++ [close]) []
  | cons {first : Bool} {o m s : List Char} {a : α} {as : List α} (ho : Opening first o)
      (hm : member m a) (hs : Members close member false s as) :
      Members close member first (o ++ (m ++ s)) (a :: as)

/-- A name, a colon and a value. -/
inductive Field {α : Type} (value : List Char → α → Prop) : List Char → Option String × α → Prop
  | mk {n b b' v : List Char} {name : Option String} {a : α} (hn : SpellsQuoted n name)
      (hb : IsBlanks b) (hb' : IsBlanks b') (hv : value v a) :
      Field value (n ++ (b ++ ':' :: (b' ++ v))) (name, a)

def boolText (b : Bool) : List Char :=
  if b then ['t', 'r', 'u', 'e'] else ['f', 'a', 'l', 's', 'e']

/-- The text of a value says the tree. -/
inductive Spells : List Char → Tree → Prop
  | null : Spells ['n', 'u', 'l', 'l'] .null
  | bool {b : Bool} : Spells (boolText b) (.bool b)
  | number {s : List Char} {negative : Bool} {d : Decimal} (h : SpellsNumber s negative d) :
      Spells s (.number negative d)
  | text {s : List Char} {t : Option String} (h : SpellsQuoted s t) : Spells s (.text t)
  | list {s : List Char} {items : List Tree} (h : Members ']' Spells true s items) :
      Spells ('[' :: s) (.list items)
  | record {s : List Char} {fields : List (Option String × Tree)}
      (h : Members '}' (Field Spells) true s fields) : Spells ('{' :: s) (.record fields)

/-- A JSON text says the tree: it is a value with blanks around it. -/
inductive Says : List Char → Tree → Prop
  | mk {b s b' : List Char} {t : Tree} (hb : IsBlanks b) (hs : Spells s t) (hb' : IsBlanks b') :
      Says (b ++ (s ++ b')) t

section Inversion

variable {s : List Char}

theorem spells_number_iff {negative : Bool} {d : Decimal} :
    Spells s (.number negative d) ↔ SpellsNumber s negative d :=
  ⟨fun h => by cases h with | number h => exact h, .number⟩

theorem spells_text_iff {t : Option String} : Spells s (.text t) ↔ SpellsQuoted s t :=
  ⟨fun h => by cases h with | text h => exact h, .text⟩

theorem spells_list_iff {items : List Tree} :
    Spells s (.list items) ↔ ∃ r, s = '[' :: r ∧ Members ']' Spells true r items := by
  constructor
  · intro h
    cases h with
    | list h => exact ⟨_, rfl, h⟩
  · rintro ⟨r, rfl, h⟩
    exact .list h

theorem spells_record_iff {fields : List (Option String × Tree)} :
    Spells s (.record fields) ↔ ∃ r, s = '{' :: r ∧ Members '}' (Field Spells) true r fields := by
  constructor
  · intro h
    cases h with
    | record h => exact ⟨_, rfl, h⟩
  · rintro ⟨r, rfl, h⟩
    exact .record h

theorem says_iff {t : Tree} :
    Says s t ↔ ∃ b v b', IsBlanks b ∧ Spells v t ∧ IsBlanks b' ∧ s = b ++ (v ++ b') := by
  constructor
  · rintro ⟨hb, hs, hb'⟩
    exact ⟨_, _, _, hb, hs, hb', rfl⟩
  · rintro ⟨b, v, b', hb, hv, hb', rfl⟩
    exact .mk hb hv hb'

end Inversion

/-! ## Induction on trees -/

/-- What holds of lists and records if it holds of their members holds of every tree. -/
@[induction_eliminator]
theorem Tree.ind {P : Tree → Prop} (null : P .null) (bool : ∀ b, P (.bool b))
    (number : ∀ negative d, P (.number negative d)) (text : ∀ t, P (.text t))
    (list : ∀ items, (∀ t ∈ items, P t) → P (.list items))
    (record : ∀ fields, (∀ f ∈ fields, P f.2) → P (.record fields)) (t : Tree) : P t := by
  refine @Tree.rec P (fun items => ∀ t ∈ items, P t) (fun fields => ∀ f ∈ fields, P f.2)
    (fun f => P f.2) null bool number text list record ?_ ?_ ?_ ?_ ?_ t
  · simp
  · exact fun t items ht hitems => List.forall_mem_cons.2 ⟨ht, hitems⟩
  · simp
  · exact fun f fields hf hfields => List.forall_mem_cons.2 ⟨hf, hfields⟩
  · exact fun name t ht => ht

end FoodTable.Json
