import Mathlib.Data.List.Nodup
import Std.Data.HashMap.Lemmas

/-!
# Indexes

A table from names to positions that is kept beside a list: each name of the list leads to its
position, and nothing else leads anywhere. Only a list without repetitions has such a table, and a
new name keeps the table exact.
-/

namespace FoodTable

theorem getElem?_append_one_eq_some_iff {α : Type} {xs : List α} {x y : α} {i : Nat} :
    (xs ++ [x])[i]? = some y ↔ xs[i]? = some y ∨ i = xs.length ∧ x = y := by
  rw [List.getElem?_append]
  split
  · rename_i hi
    exact ⟨.inl, fun h => h.resolve_right fun e => absurd e.1 (Nat.ne_of_lt hi)⟩
  · rename_i hi
    rw [List.getElem?_eq_none (Nat.not_lt.1 hi), List.getElem?_singleton]
    split
    · rw [Option.some.injEq]
      exact ⟨fun h => .inr ⟨by omega, h⟩, fun h => (h.resolve_left (nomatch ·)).2⟩
    · exact iff_of_false (nomatch ·) fun h => absurd (h.resolve_left (nomatch ·)).1 (by omega)

/-- The positions are exactly those of the names in the list. -/
def Indexes (positions : Std.HashMap String Nat) (names : List String) : Prop :=
  ∀ (name : String) (i : Nat), positions[name]? = some i ↔ names[i]? = some name

namespace Indexes

variable {positions : Std.HashMap String Nat} {names : List String} {name : String}

theorem empty : Indexes ∅ [] := by
  intro name i
  simp

theorem contains_iff (h : Indexes positions names) :
    positions.contains name = true ↔ name ∈ names := by
  rw [Std.HashMap.contains_eq_isSome_getElem?, Option.isSome_iff_exists, List.mem_iff_getElem?]
  exact exists_congr fun i => h name i

theorem nodup (h : Indexes positions names) : names.Nodup := by
  rw [List.nodup_iff_getElem?_ne_getElem?]
  intro i j hij hj heq
  have hi := (h names[j] i).2 (by rw [heq, List.getElem?_eq_getElem hj])
  have hj' := (h names[j] j).2 (List.getElem?_eq_getElem hj)
  rw [hi, Option.some.injEq] at hj'
  omega

/-- There are as many entries as names. -/
theorem size (h : Indexes positions names) : positions.size = names.length := by
  have hkeys : positions.keys.Perm names := by
    refine (List.perm_ext_iff_of_nodup positions.nodup_keys h.nodup).2 fun name => ?_
    rw [Std.HashMap.mem_keys, ← Std.HashMap.contains_iff_mem, h.contains_iff]
  rw [← Std.HashMap.length_keys, hkeys.length_eq]

theorem insert (h : Indexes positions names) (hname : name ∉ names) :
    Indexes (positions.insert name names.length) (names ++ [name]) := by
  intro name' i
  rw [Std.HashMap.getElem?_insert, getElem?_append_one_eq_some_iff, ← h name' i]
  by_cases e : name = name'
  · subst e
    rw [if_pos (beq_self_eq_true name), Option.some.injEq, eq_comm]
    have hnone : ¬ positions[name]? = some i := fun hi =>
      hname (List.mem_of_getElem? ((h name i).1 hi))
    exact ⟨fun hi => .inr ⟨hi, rfl⟩, fun hi => (hi.resolve_left hnone).1⟩
  · rw [if_neg (by simpa using e)]
    exact ⟨.inl, fun hi => hi.resolve_right fun hi => e hi.2⟩

end Indexes

end FoodTable
