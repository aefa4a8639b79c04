import FoodTable.Proofs.Order.Comparison
import FoodTable.Query.Page

/-!
# Matched foods

The foods that a query asks for are those of the dataset that pass its three tests
(`Query.accepts`), and its order is the stable sort of them by the visible keys.
-/

namespace FoodTable

namespace Query

/-- Whether a food passes the tests that a query makes: on the category, the name and the amounts.
A test that is not asked for is passed. -/
def accepts (q : Query) (f : Food) : Bool :=
  q.categories.all (fun codes => codes.contains f.categoryCode) &&
    q.name.all (fun text => Text.occursIn text.toList f.name.toList) &&
    q.conditions.all fun conditions => conditions.all (·.satisfiedBy f)

/-- The foods of the dataset that pass the tests, in dataset order. -/
def accepted (q : Query) (d : Dataset) : List Food := d.foods.toList.filter q.accepts

theorem whenGiven_filter {α : Type} (test : α → Food → Bool) (given : Option α)
    (foods : List Food) :
    Selection.whenGiven (fun a fs => fs.filter (test a)) given foods =
      foods.filter fun f => given.all fun a => test a f := by
  cases given with
  | none => exact (List.filter_eq_self.2 fun _ _ => rfl).symm
  | some a => rfl

theorem select_eq_filter (q : Query) (foods : List Food) :
    q.select foods = foods.filter q.accepts := by
  unfold select Selection.byConditions Selection.byName Selection.byCategory
  rw [whenGiven_filter, whenGiven_filter, whenGiven_filter, List.filter_filter, List.filter_filter]
  refine List.filter_congr fun f _ => ?_
  rw [Bool.and_comm, Bool.and_comm (Option.all _ q.conditions), ← Bool.and_assoc]
  rfl

variable {q : Query} {d : Dataset} {rows : List Row} {records : List TagRecord} {f : Food}

theorem mem_accepted : f ∈ q.accepted d ↔ f ∈ d.foods ∧ q.accepts f = true := by
  unfold accepted
  rw [List.mem_filter, Array.mem_toList_iff]

theorem sound_of_mem_accepted (h : Dataset.ofTable rows records = .ok d)
    (hf : f ∈ q.accepted d) : f.Sound :=
  Dataset.sound_of_mem h (mem_accepted.1 hf).1

theorem matched_eq_sort (q : Query) (d : Dataset) :
    q.matched d = SortKey.sort q.visibleKeys (q.accepted d) := by
  unfold matched
  rw [select_eq_filter]
  rfl

theorem matched_perm (q : Query) (d : Dataset) : (q.matched d).Perm (q.accepted d) := by
  rw [matched_eq_sort]
  exact List.mergeSort_perm _ _

theorem length_matched (q : Query) (d : Dataset) :
    (q.matched d).length = (q.accepted d).length := (matched_perm q d).length_eq

theorem stableSort_matched (h : Dataset.ofTable rows records = .ok d) (q : Query) :
    StableSort (SortKey.compareAll q.visibleKeys) (q.accepted d) (q.matched d) := by
  rw [matched_eq_sort]
  exact stableSort_mergeSort (SortKey.totalPreorderOn_compareAll _) fun _ hf =>
    sound_of_mem_accepted h hf

/-- A query with a tag that no food has, a key that narrowing hides, and two pages of foods. -/
def sampleQuery : Query where
  categories := some [8, 11]
  nutrients := some [⟨"WATER", 1⟩, ⟨"WATER", 0⟩]
  order := some [⟨⟨"ENERC_KCAL", 0⟩, false⟩, ⟨⟨"WATER", 0⟩, false⟩, ⟨⟨"WATER", 1⟩, true⟩]
  limit := 2

end Query

end FoodTable
