/-!
# Query parameters

The texts that a client gives for each part of a query. The first value of a key counts, except for
`orders`, which may repeat; unknown keys are ignored.
-/

namespace FoodTable

structure Parameters where
  limit : Option String := none
  offset : Option String := none
  order : Option String := none
  /-- Values of the repeatable key `orders`, also written `orders[]`. -/
  orders : List String := []
  nutrients : Option String := none
  category : Option String := none
  conditions : Option String := none
  name : Option String := none
  deriving DecidableEq, Repr

namespace Parameters

/-- The first value of a key. -/
def first? (key : String) (pairs : List (String × String)) : Option String :=
  (pairs.find? (·.1 == key)).map (·.2)

/-- All values of keys that pass a test. -/
def all (test : String → Bool) (pairs : List (String × String)) : List String :=
  (pairs.filter fun p => test p.1).map (·.2)

/-- The parameters of decoded key and value pairs. -/
def ofPairs (pairs : List (String × String)) : Parameters where
  limit := first? "limit" pairs
  offset := first? "offset" pairs
  order := first? "order" pairs
  orders := all (fun key => key == "orders" || key == "orders[]") pairs
  nutrients := first? "nutrients" pairs
  category := first? "category" pairs
  conditions := first? "where" pairs
  name := first? "foodName" pairs

end Parameters

end FoodTable
