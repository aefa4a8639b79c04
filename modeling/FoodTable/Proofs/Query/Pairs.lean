import FoodTable.Query.Parameters
import Mathlib.Data.List.Nodup

/-!
# Pairs of parameters

Parameters as pairs of key and value. Pairs with different keys may come in any order: they are read
as the same parameters.
-/

namespace FoodTable

namespace Parameters

variable {p : Parameters} {ps : List (String × String)} {key value : String}

/-! ## First values -/

theorem first?_cons (pair : String × String) :
    first? key (pair :: ps) = if pair.1 = key then some pair.2 else first? key ps := by
  unfold first?
  rw [List.find?_cons]
  by_cases hkey : pair.1 = key
  · rw [if_pos hkey, beq_iff_eq.2 hkey]
    rfl
  · rw [if_neg hkey, beq_eq_false_iff_ne.2 hkey]

/-- Where no key repeats, the first value of a key is its only one. -/
theorem first?_eq_some_iff (h : (ps.map (·.1)).Nodup) :
    first? key ps = some value ↔ (key, value) ∈ ps := by
  induction ps with
  | nil => exact iff_of_false (nomatch ·) List.not_mem_nil
  | cons pair ps ih =>
    obtain ⟨hkey, hnodup⟩ := List.nodup_cons.1 h
    rw [first?_cons, List.mem_cons, Prod.ext_iff]
    split
    · rename_i e
      have hrest : (key, value) ∉ ps := fun hmem => hkey (List.mem_map.2 ⟨_, hmem, e.symm⟩)
      rw [or_iff_left hrest, Option.some.injEq, and_iff_right e.symm, eq_comm]
    · rename_i e
      rw [ih hnodup]
      exact (or_iff_right fun hp => e hp.1.symm).symm

/-! ## Parameters as pairs -/

/-- The parameters that do not repeat, with their keys. -/
def slots (p : Parameters) : List (String × Option String) :=
  [("limit", p.limit), ("offset", p.offset), ("order", p.order), ("nutrients", p.nutrients),
    ("category", p.category), ("where", p.conditions), ("foodName", p.name)]

/-- The pairs of the parameters that do not repeat. -/
def pairs (p : Parameters) : List (String × String) :=
  p.slots.filterMap fun slot => slot.2.map (slot.1, ·)

theorem keys_slots (p : Parameters) : p.slots.map (·.1) =
    ["limit", "offset", "order", "nutrients", "category", "where", "foodName"] := rfl

theorem nodup_keys_slots (p : Parameters) : (p.slots.map (·.1)).Nodup := by
  rw [keys_slots]
  decide

theorem mem_pairs_iff : (key, value) ∈ p.pairs ↔ (key, some value) ∈ p.slots := by
  unfold pairs
  simp only [List.mem_filterMap, Option.map_eq_some_iff, Prod.mk.injEq, Prod.exists]
  constructor
  · rintro ⟨_, _, hslot, _, rfl, rfl, rfl⟩
    exact hslot
  · exact fun hslot => ⟨_, _, hslot, _, rfl, rfl, rfl⟩

theorem sublist_keys_pairs (p : Parameters) : (p.pairs.map (·.1)).Sublist (p.slots.map (·.1)) := by
  unfold pairs
  induction p.slots with
  | nil => exact .slnil
  | cons slot slots ih =>
    cases hslot : slot.2 with
    | none =>
      rw [List.filterMap_cons_none (by rw [hslot, Option.map_none]), List.map_cons]
      exact ih.cons _
    | some value =>
      rw [List.filterMap_cons_some (by rw [hslot, Option.map_some]), List.map_cons, List.map_cons]
      exact ih.cons_cons _

section Perm

variable (hps : ps.Perm p.pairs)

include hps

theorem nodup_keys_of_perm : (ps.map (·.1)).Nodup :=
  (hps.map _).nodup_iff.2 ((nodup_keys_slots p).sublist (sublist_keys_pairs p))

theorem first?_of_perm {slot : Option String} (hslot : (key, slot) ∈ p.slots) :
    first? key ps = slot := by
  refine Option.ext fun value => ?_
  rw [first?_eq_some_iff (nodup_keys_of_perm hps), hps.mem_iff, mem_pairs_iff]
  constructor
  · intro hvalue
    exact congrArg Prod.snd (List.inj_on_of_nodup_map (nodup_keys_slots p) hslot hvalue rfl)
  · rintro rfl
    exact hslot

theorem orders_of_perm : all (fun key => key == "orders" || key == "orders[]") ps = [] := by
  unfold all
  rw [List.map_eq_nil_iff, List.filter_eq_nil_iff]
  rintro ⟨key, value⟩ hpair
  have hkey : key ∈ p.slots.map (·.1) :=
    List.mem_map_of_mem (mem_pairs_iff.1 (hps.mem_iff.1 hpair))
  have hother : ∀ key ∈ ["limit", "offset", "order", "nutrients", "category", "where", "foodName"],
      ¬ (key == "orders" || key == "orders[]") = true := by decide
  exact hother key hkey

/-- The pairs of parameters, in any order, are read as the parameters. -/
theorem ofPairs_of_perm (horders : p.orders = []) : ofPairs ps = p := by
  unfold ofPairs
  rw [orders_of_perm hps, ← horders]
  have hslots : ∀ slot ∈ p.slots, first? slot.1 ps = slot.2 := fun slot => first?_of_perm hps
  unfold slots at hslots
  simp only [List.forall_mem_cons, List.not_mem_nil, false_implies, implies_true,
    and_true] at hslots
  obtain ⟨hlimit, hoffset, horder, hnutrients, hcategory, hconditions, hname⟩ := hslots
  rw [hlimit, hoffset, horder, hnutrients, hcategory, hconditions, hname]

end Perm

end Parameters

end FoodTable
