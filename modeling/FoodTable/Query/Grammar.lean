import FoodTable.Dataset.Basic
import FoodTable.Powers
import FoodTable.Query.Basic
import FoodTable.Query.Error
import FoodTable.Query.Parameters
import FoodTable.Text.Pieces

/-!
# Query grammar

How the texts of parameters are read. Lists are separated by commas and read from the left, so the
leftmost fault is the one reported:

* `category`: numerals from 1 to 18;
* `nutrients`: tag names, as they are;
* `where`: a tag name, `<` or `>`, and digits;
* `order` and `orders`: a tag name, `-` in front for descending;
* `offset`: a number below `2 ^ 64`;
* `limit`: a number of 64 bits with a sign, brought into the range from 1 to 100.

Blanks around a token are ignored except in `nutrients`.
-/

namespace FoodTable

open Text

namespace Grammar

/-- The tokens of a list. -/
def tokens (s : String) : List String := (pieces ',' s.toList).map String.ofList

def trimmed (s : String) : String := String.ofList (trim s.toList)

/-! ### Categories and nutrients -/

def category (token : String) : Except QueryError Nat :=
  match Category.code? token.toList with
  | some code => .ok code
  | none => .error (.invalidCategory token)

/-- The codes of a list, ascending. -/
def categories (s : String) : Except QueryError (List Nat) := do
  let codes ← (tokens s).mapM category
  return Category.codes.filter codes.contains

def nutrient (v : Vocabulary) (token : String) : Except QueryError Tag :=
  match v.lookup? token with
  | some tag => .ok tag
  | none => .error (.unknownNutrient token)

/-- The tags of a list, by column. -/
def nutrients (v : Vocabulary) (s : String) : Except QueryError (List Tag) := do
  let tags ← (tokens s).mapM (nutrient v)
  return v.tags.toList.filter tags.contains

/-! ### Conditions -/

/-- Names that conditions can speak of: a capital letter, then capital letters, digits, `_` and
`-`. -/
def isConditionName : List Char → Bool
  | [] => false
  | c :: s => c.isUpper && s.all fun c => c.isUpper || c.isDigit || c == '_' || c == '-'

/-- A condition cut at the first character that compares. -/
def splitCondition? (s : List Char) : Option (List Char × Comparison × List Char) :=
  let isOther (c : Char) := (Comparison.ofChar? c).isNone
  match s.dropWhile isOther with
  | [] => none
  | c :: number =>
    (Comparison.ofChar? c).map fun comparison => (s.takeWhile isOther, comparison, number)

/-- The condition that a token states. -/
def condition (v : Vocabulary) (token : String) : Except QueryError Condition :=
  let text := trim token.toList
  match splitCondition? text with
  | none => .error (.invalidCondition token)
  | some (name, comparison, number) =>
    match digits? number with
    | none => .error (.invalidCondition token)
    | some n =>
      if !isConditionName name then .error (.invalidCondition token)
      else match v.lookup? (String.ofList name) with
        | none => .error (.unknownConditionTag (String.ofList text) (String.ofList name))
        | some tag => .ok ⟨tag, comparison, .ofNat n⟩

def conditions (v : Vocabulary) (s : String) : Except QueryError (List Condition) :=
  (tokens s).mapM (condition v)

/-! ### Order -/

/-- The sort key that a token states. -/
def sortKey (v : Vocabulary) (token : String) : Except QueryError SortKey :=
  let text := trim token.toList
  let (name, descending) := match text with
    | '-' :: rest => (rest, true)
    | _ => (text, false)
  if name.isEmpty then .error (.invalidOrder (String.ofList text))
  else match v.lookup? (String.ofList name) with
    | none => .error (.unknownNutrient (String.ofList name))
    | some tag => .ok ⟨tag, descending⟩

/-- The tokens of `order`, then those of each `orders`. -/
def orderTokens (p : Parameters) : List String := (p.order.toList ++ p.orders).flatMap tokens

/-- The sort keys of all order tokens. None are given if there is no token. -/
def order (v : Vocabulary) (p : Parameters) : Except QueryError (Option (List SortKey)) :=
  match orderTokens p with
  | [] => .ok none
  | ts => (ts.mapM (sortKey v)).map some

/-! ### Pages -/

/-- The number of foods on a page. -/
def limit : Option String → Except QueryError Nat
  | none => .ok defaultLimit
  | some s =>
    match signed? (trim s.toList) with
    | some n =>
      if -(pow2 63 : Int) ≤ n ∧ n < pow2 63 then .ok (max 1 (min n maxLimit)).toNat
      else .error (.invalidLimit s)
    | none => .error (.invalidLimit s)

/-- The number of foods before a page. -/
def offset : Option String → Except QueryError Nat
  | none => .ok 0
  | some s =>
    match unsigned? (trim s.toList) with
    | some n => if n < pow2 64 then .ok n else .error (.invalidOffset s)
    | none => .error (.invalidOffset s)

end Grammar

/-- The query that parameters state. -/
def Query.ofParameters (v : Vocabulary) (p : Parameters) : Except QueryError Query := do
  let categories ← p.category.mapM Grammar.categories
  let nutrients ← p.nutrients.mapM (Grammar.nutrients v)
  let conditions ← p.conditions.mapM (Grammar.conditions v)
  let order ← Grammar.order v p
  let offset ← Grammar.offset p.offset
  let limit ← Grammar.limit p.limit
  let name := p.name.filter (· ≠ "")
  return { categories, name, conditions, nutrients, order, offset, limit }

/-- The request for the food of an id, with the nutrients that parameters name. -/
def FoodQuery.ofParameters (v : Vocabulary) (id : String) (p : Parameters) :
    Except QueryError FoodQuery := do
  if !isFoodId id then throw (.invalidFoodId id)
  let nutrients ← p.nutrients.mapM (Grammar.nutrients v)
  return { id, nutrients }

end FoodTable
