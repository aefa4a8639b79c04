import FoodTable.Dataset.Basic
import FoodTable.Query.Order
import FoodTable.Query.Selection

/-!
# Pages

The page of foods that answers a query. Only the foods on the page are narrowed, and keys that the
narrowing would hide take no part in the order.
-/

namespace FoodTable

/-- Foods of a page, and how many there are on all pages. -/
structure Page where
  foods : List Food
  total : Nat
  offset : Nat
  limit : Nat
  deriving DecidableEq, Repr

/-- At most `limit` elements after the first `offset`. -/
def slice {α : Type} (offset limit : Nat) (xs : List α) : List α := (xs.drop offset).take limit

namespace Query

/-- The sort keys that narrowing leaves visible. -/
def visibleKeys (q : Query) : List SortKey :=
  let keys := q.order.getD []
  match q.nutrients with
  | some tags => keys.filter fun k => tags.contains k.tag
  | none => keys

/-- All foods that a query asks for, in its order. -/
def matched (q : Query) (d : Dataset) : List Food :=
  SortKey.sort q.visibleKeys (q.select d.foods.toList)

/-- The page that answers a query. -/
def page (q : Query) (d : Dataset) : Page :=
  let foods := q.matched d
  { foods := (slice q.offset q.limit foods).map (·.narrowTo q.nutrients)
    total := foods.length
    offset := q.offset
    limit := q.limit }

end Query

/-- The food that answers a request. -/
def FoodQuery.food? (q : FoodQuery) (d : Dataset) : Option Food :=
  (d.food? q.id).map (·.narrowTo q.nutrients)

end FoodTable
