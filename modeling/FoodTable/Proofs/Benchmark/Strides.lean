import FoodTable.Proofs.Benchmark.Lookups
import Mathlib.Data.Int.ModEq
import Mathlib.Order.Interval.Finset.Nat
import Mathlib.Tactic.NormNum.Prime

/-!
# The stride of the lookups

Lookups walk through the foods with a prime stride. So two lookups in a row ask for different foods
unless the number of foods divides the stride, and as many lookups in a row as there are foods ask
for every food once unless the stride divides their number (`Benchmark.lookups_cover_iff`). A prime
divides or is coprime, so there is nothing between the two cases.
-/

namespace FoodTable

/-- A food is known by its id. -/
theorem Dataset.eq_of_id_eq {d : Dataset} {rows : List Row} {records : List TagRecord} {f g : Food}
    {i j : Nat} (h : ofTable rows records = .ok d) (hf : d.foods[i]? = some f)
    (hg : d.foods[j]? = some g) (hid : f.id = g.id) : i = j := by
  obtain ⟨hi, -⟩ := Array.getElem?_eq_some_iff.1 hf
  refine (List.getElem?_inj (by simpa using hi) (nodup_ids h)).1 ?_
  rw [List.getElem?_map, List.getElem?_map, Array.getElem?_toList, Array.getElem?_toList, hf, hg,
    Option.map_some, Option.map_some, hid]

namespace Benchmark

variable {d : Dataset} {rows : List Row} {records : List TagRecord} {f : Food} {n r i j k : Nat}

/-! ## Remainders of multiples -/

theorem prime_stride : stride.Prime := by norm_num [stride]

/-- Two multiples in a row leave the same remainder only if the divisor divides the stride. -/
theorem succ_mul_stride_mod_eq_iff :
    i * stride % n = (i + 1) * stride % n ↔ n = 1 ∨ n = stride := by
  have hle : i * stride ≤ (i + 1) * stride := Nat.mul_le_mul_right _ (Nat.le_succ i)
  rw [← Nat.dvd_prime prime_stride]
  refine (Nat.modEq_iff_dvd' hle).trans ?_
  rw [Nat.add_one_mul, Nat.add_sub_cancel_left]

/-- Fewer multiples in a row than the divisor leave different remainders. -/
theorem eq_of_mul_stride_mod_eq (hn : ¬ stride ∣ n) (hj : i ≤ j ∧ j < i + n)
    (hk : i ≤ k ∧ k < i + n) (heq : j * stride % n = k * stride % n) : j = k := by
  have hcoprime : n.Coprime stride := (prime_stride.coprime_iff_not_dvd.2 hn).symm
  have hmod : j ≡ k [MOD n] := Nat.ModEq.cancel_right_of_coprime hcoprime heq
  exact hmod.eq_of_abs_lt (abs_lt.2 ⟨by omega, by omega⟩)

/-- As many multiples in a row as the divisor leave every remainder. -/
theorem exists_mul_stride_mod_eq (hn : ¬ stride ∣ n) (hr : r < n) (i : Nat) :
    ∃ j, (i ≤ j ∧ j < i + n) ∧ j * stride % n = r := by
  have hmaps : Set.MapsTo (fun j => j * stride % n) (Finset.Ico i (i + n)) (Finset.range n) :=
    fun j _ => Finset.mem_coe.2 (Finset.mem_range.2 (Nat.mod_lt _ (by omega)))
  have hinj : Set.InjOn (fun j => j * stride % n) (Finset.Ico i (i + n)) := fun j hj k hk =>
    eq_of_mul_stride_mod_eq hn (Finset.mem_Ico.1 hj) (Finset.mem_Ico.1 hk)
  have hsurj := Finset.surjOn_of_injOn_of_card_le _ hmaps hinj (by simp)
  obtain ⟨j, hj, hmod⟩ := hsurj (Finset.mem_coe.2 (Finset.mem_range.2 hr))
  exact ⟨j, Finset.mem_Ico.1 hj, hmod⟩

/-- A divisor that is a multiple of the stride leaves multiples of it alone. -/
theorem mul_stride_mod_ne_one (hn : stride ∣ n) : j * stride % n ≠ 1 := by
  intro hone
  have hdvd : stride ∣ j * stride % n := (Nat.dvd_mod_iff hn).2 (Nat.dvd_mul_left _ _)
  rw [hone, Nat.dvd_one] at hdvd
  exact absurd hdvd (by decide)

theorem existsUnique_mul_stride_mod_eq_iff (hn : 0 < n) :
    (∀ r < n, ∃! j, (i ≤ j ∧ j < i + n) ∧ j * stride % n = r) ↔ ¬ stride ∣ n := by
  constructor
  · intro hall hdvd
    have hlt : 1 < n := Nat.lt_of_lt_of_le (by decide) (Nat.le_of_dvd hn hdvd)
    obtain ⟨j, ⟨-, hone⟩, -⟩ := hall 1 hlt
    exact mul_stride_mod_ne_one hdvd hone
  · intro hdvd r hr
    obtain ⟨j, hj, hmod⟩ := exists_mul_stride_mod_eq hdvd hr i
    refine ⟨j, ⟨hj, hmod⟩, fun k hk => ?_⟩
    exact eq_of_mul_stride_mod_eq hdvd hk.1 hj (hk.2.trans hmod.symm)

/-! ## Lookups in a row -/

/-- A lookup finds a food exactly if it asks for the position of the food. -/
theorem lookup_eq_ok_iff (h : Dataset.ofTable rows records = .ok d) (hf : d.foods[r]? = some f)
    (hj : j * stride < pow2 64) : lookup d j = .ok (some f) ↔ j * stride % d.size = r := by
  obtain ⟨hr, -⟩ := Array.getElem?_eq_some_iff.1 hf
  rw [← position_of_lt hj]
  constructor
  · intro hlookup
    obtain ⟨g, hg, hfound⟩ := exists_lookup h (Nat.zero_lt_of_lt hr) j
    rw [hlookup, Except.ok.injEq, Option.some.injEq] at hfound
    exact Dataset.eq_of_id_eq h hg hf (by rw [hfound])
  · rintro rfl
    exact lookup_of_getElem? h hf

section InARow

variable (h : Dataset.ofTable rows records = .ok d) (hi : (i + d.size) * stride < pow2 64)

include h hi

/-- No product is cut off while the lookups go once around. -/
theorem lookup_eq_ok_iff_of_le (hf : d.foods[r]? = some f) (hj : j ≤ i + d.size) :
    lookup d j = .ok (some f) ↔ j * stride % d.size = r :=
  lookup_eq_ok_iff h hf (Nat.lt_of_le_of_lt (Nat.mul_le_mul_right _ hj) hi)

/-- Every food is asked for once exactly if every remainder is left once. -/
theorem existsUnique_lookup_iff :
    (∀ f ∈ d.foods, ∃! j, (i ≤ j ∧ j < i + d.size) ∧ lookup d j = .ok (some f)) ↔
      ∀ r < d.size, ∃! j, (i ≤ j ∧ j < i + d.size) ∧ j * stride % d.size = r := by
  have hasks {f : Food} {r : Nat} (hf : d.foods[r]? = some f) :
      (∃! j, (i ≤ j ∧ j < i + d.size) ∧ lookup d j = .ok (some f)) ↔
        ∃! j, (i ≤ j ∧ j < i + d.size) ∧ j * stride % d.size = r := by
    refine existsUnique_congr fun j => and_congr_right fun hj => ?_
    exact lookup_eq_ok_iff_of_le h hi hf hj.2.le
  constructor
  · intro hall r hr
    have hf := Array.getElem?_eq_getElem hr
    exact (hasks hf).1 (hall _ (Array.mem_of_getElem? hf))
  · intro hall f hmem
    obtain ⟨r, hf⟩ := Array.mem_iff_getElem?.1 hmem
    obtain ⟨hr, -⟩ := Array.getElem?_eq_some_iff.1 hf
    exact (hasks hf).2 (hall r hr)

/-- Two lookups in a row ask for the same food exactly if their remainders are the same. -/
theorem exists_lookups_succ (hsize : 0 < d.size) :
    ∃ f f', lookup d i = .ok (some f) ∧ lookup d (i + 1) = .ok (some f') ∧
      (f.id = f'.id ↔ i * stride % d.size = (i + 1) * stride % d.size) := by
  obtain ⟨f, hf, hfound⟩ := exists_lookup h hsize i
  obtain ⟨f', hf', hfound'⟩ := exists_lookup h hsize (i + 1)
  have hposition := (lookup_eq_ok_iff_of_le h hi hf (by omega)).1 hfound
  have hposition' := (lookup_eq_ok_iff_of_le h hi hf' (by omega)).1 hfound'
  refine ⟨f, f', hfound, hfound', ?_⟩
  rw [hposition, hposition']
  refine ⟨Dataset.eq_of_id_eq h hf hf', fun hsame => ?_⟩
  rw [hsame, hf', Option.some.injEq] at hf
  rw [hf]

end InARow

/-- Two lookups in a row ask for different foods unless there is one food or as many as the stride
is long. As many lookups in a row as there are foods ask for every food once, unless the number of
foods is a multiple of the stride. -/
theorem lookups_cover_iff (h : Dataset.ofTable rows records = .ok d) (hsize : 0 < d.size)
    (hi : (i + d.size) * 7919 < pow2 64) :
    (∃ f f', lookup d i = .ok (some f) ∧ lookup d (i + 1) = .ok (some f') ∧
      (f.id ≠ f'.id ↔ d.size ≠ 1 ∧ d.size ≠ 7919)) ∧
    ((∀ f ∈ d.foods, ∃! j, (i ≤ j ∧ j < i + d.size) ∧ lookup d j = .ok (some f)) ↔
      ¬ 7919 ∣ d.size) := by
  constructor
  · obtain ⟨f, f', hfound, hfound', hid⟩ := exists_lookups_succ h hi hsize
    refine ⟨f, f', hfound, hfound', ?_⟩
    rw [ne_eq, hid, succ_mul_stride_mod_eq_iff, not_or]
    rfl
  · exact (existsUnique_lookup_iff h hi).trans (existsUnique_mul_stride_mod_eq_iff hsize)

/-- Three lookups in a row among three foods, the last of them before products are cut off. -/
theorem lookups_cover_iff_sample : ∃ d,
    Dataset.ofTable Dataset.sampleRows Dataset.sampleRecords = .ok d ∧ d.size = 3 ∧
    (∃ f f', lookup d 2329428472497730 = .ok (some f) ∧
      lookup d 2329428472497731 = .ok (some f') ∧ f.id ≠ f'.id) ∧
    ∀ f ∈ d.foods, ∃! j, (2329428472497730 ≤ j ∧ j < 2329428472497733) ∧
      lookup d j = .ok (some f) := by
  obtain ⟨d, hd⟩ := Dataset.exists_ofTable_sample
  have hsize : d.size = 3 := (Dataset.gives_of_ofTable hd).length_eq.symm
  obtain ⟨hdiffer, hcover⟩ := lookups_cover_iff (i := 2329428472497730) hd (by omega)
    (by rw [hsize]; decide)
  rw [hsize] at hdiffer hcover
  obtain ⟨f, f', hfound, hfound', hid⟩ := hdiffer
  exact ⟨d, hd, hsize, ⟨f, f', hfound, hfound', hid.2 (by decide)⟩, hcover.2 (by decide)⟩

end Benchmark

end FoodTable
