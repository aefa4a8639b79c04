import FoodTable.Proofs.Query.Tokens

/-!
# Values of an order

An order may be given in several values, one under `order` and more under `orders`. It makes no
difference how the keys are spread over them: joined with commas, all the values are one value of
`order` that states the same query or is refused for the same fault.
-/

namespace FoodTable

open Text

/-- All values of the order, joined with commas. -/
def Parameters.joinedOrder (p : Parameters) : Option String :=
  match p.order.toList ++ p.orders with
  | [] => none
  | values => some (",".intercalate values)

example : Parameters.joinedOrder { order := some "WATER", orders := ["-NA,", "", ","] } =
    some "WATER,-NA,,,," := by
  decide

example : Parameters.joinedOrder { orders := [""] } = some "" := by
  decide

namespace Grammar

/-- Joined values have the tokens of all of them. -/
theorem tokens_intercalate {values : List String} (h : values ≠ []) :
    tokens (",".intercalate values) = values.flatMap tokens := by
  have htexts : values.map String.toList ≠ [] := by simpa using h
  have hjoined : (",".intercalate values).toList = [','].intercalate (values.map String.toList) :=
    String.toList_intercalate
  unfold tokens
  rw [hjoined, pieces_intercalate htexts, List.flatMap_map, List.map_flatMap]

variable {v : Vocabulary} {p p' : Parameters}

theorem orderTokens_joinedOrder (p : Parameters) :
    orderTokens { p with order := p.joinedOrder, orders := [] } = orderTokens p := by
  unfold orderTokens Parameters.joinedOrder
  cases h : p.order.toList ++ p.orders with
  | nil => rfl
  | cons value values =>
    exact (List.flatMap_singleton _ _).trans (tokens_intercalate (List.cons_ne_nil value values))

/-- The keys depend on the tokens alone. -/
theorem order_eq_of_orderTokens_eq (h : orderTokens p = orderTokens p') :
    order v p = order v p' := by
  unfold order
  rw [h]

end Grammar

/-- Parameters with all values of the order joined under `order` state the same query, and are
refused for the same fault. -/
theorem Query.ofParameters_joinedOrder (v : Vocabulary) (p : Parameters) :
    ofParameters v { p with order := p.joinedOrder, orders := [] } = ofParameters v p := by
  unfold ofParameters
  rw [Grammar.order_eq_of_orderTokens_eq (Grammar.orderTokens_joinedOrder p)]

end FoodTable
