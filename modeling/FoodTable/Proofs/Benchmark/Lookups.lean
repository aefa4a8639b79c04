import FoodTable.Benchmark.Report
import FoodTable.Proofs.Query.Detail

/-!
# Lookups of a benchmark

A lookup asks for the id of a food of the dataset. Every such id can be asked for and leads to its
own food, so no lookup is refused and the number of foods that are found is the number of lookups.
-/

namespace FoodTable

theorem Dataset.isEmpty_eq_false_iff {d : Dataset} : d.isEmpty = false ↔ 0 < d.size := by
  unfold isEmpty
  rw [beq_eq_false_iff_ne, Nat.pos_iff_ne_zero]

namespace Benchmark

variable {d : Dataset} {rows : List Row} {records : List TagRecord} {f : Food} {size i : Nat}

/-- A product of less than 64 bits is not cut off. -/
theorem position_of_lt (h : i * stride < pow2 64) : position size i = i * stride % size := by
  unfold position
  rw [Nat.mod_eq_of_lt h]

theorem lookup_of_getElem? (h : Dataset.ofTable rows records = .ok d)
    (hf : d.foods[position d.size i]? = some f) : lookup d i = .ok (some f) := by
  have hmem : f ∈ d.foods := Array.mem_of_getElem? hf
  have hasked : FoodQuery.ofParameters d.vocabulary f.id {} = .ok { id := f.id } :=
    FoodQuery.ofParameters_eq_ok_iff.2 ⟨Dataset.isFoodId_of_mem h hmem, rfl, rfl⟩
  have hfound : FoodQuery.food? { id := f.id } d = some f :=
    (FoodQuery.food?_eq_some_iff h).2 ⟨f, hmem, rfl, rfl⟩
  unfold lookup
  rw [hf]
  dsimp only
  rw [hasked, ← hfound]
  rfl

/-- Every lookup finds the food at its position. -/
theorem exists_lookup (h : Dataset.ofTable rows records = .ok d) (hsize : 0 < d.size) (i : Nat) :
    ∃ f, d.foods[position d.size i]? = some f ∧ lookup d i = .ok (some f) := by
  have hlt : position d.size i < d.foods.size := Nat.mod_lt _ hsize
  have hf := Array.getElem?_eq_getElem hlt
  exact ⟨_, hf, lookup_of_getElem? h hf⟩

theorem found_succ (d : Dataset) (n : Nat) :
    found d (n + 1) = found d n >>= fun count => countFound d count n := by
  unfold found
  rw [List.range_succ, foldlM_append_one]

/-- No lookup is refused, and all of them are counted. -/
theorem found_eq (h : Dataset.ofTable rows records = .ok d) (hsize : 0 < d.size) (n : Nat) :
    found d n = .ok n := by
  induction n with
  | zero => rfl
  | succ n ih =>
    obtain ⟨f, -, hf⟩ := exists_lookup h hsize n
    have hcount : countFound d n n = .ok (n + 1) := by
      unfold countFound
      rw [hf]
      rfl
    rw [found_succ, ih]
    exact hcount

end Benchmark

end FoodTable
