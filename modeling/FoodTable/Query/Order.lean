import FoodTable.Food
import FoodTable.Query.Basic

/-!
# Order

Foods by the amounts of some nutrients. The first key decides, later keys break ties, and foods that
no key tells apart keep their order. A missing amount comes after every amount in both directions.
-/

namespace FoodTable

namespace SortKey

/-- How two foods compare on a key. -/
def compare (k : SortKey) (a b : Food) : Ordering :=
  match a.value? k.tag, b.value? k.tag with
  | some x, some y =>
    let o := (x.compare? y).getD .eq
    if k.descending then o.swap else o
  | some _, none => .lt
  | none, some _ => .gt
  | none, none => .eq

/-- How two foods compare on the first key that tells them apart. -/
def compareAll (keys : List SortKey) (a b : Food) : Ordering :=
  keys.foldr (fun k o => (k.compare a b).then o) .eq

/-- The foods in the order of the keys. -/
def sort (keys : List SortKey) (foods : List Food) : List Food :=
  foods.mergeSort fun a b => compareAll keys a b != .gt

end SortKey

end FoodTable
