import FoodTable.Proofs.Order.ExactOrder

/-!
# Sorting in passes

Foods may be sorted by several keys one key at a time, the last key first (`SortKey.passes`): a pass
leaves the foods that its key does not tell apart as the passes before left them. So after the pass
for the first key the foods are in the order of all keys (`SortKey.sort_eq_passes`), and a list of
keys may be cut anywhere (`SortKey.sort_append`).
-/

namespace FoodTable

namespace SortKey

variable {foods : List Food}

theorem compareAll_append (keys keys' : List SortKey) : compareAll (keys ++ keys') =
    fun a b => (compareAll keys a b).then (compareAll keys' a b) := by
  funext a b
  induction keys with
  | nil => rfl
  | cons k keys ih =>
    rw [List.cons_append, compareAll_cons, compareAll_cons, ih, Ordering.then_assoc]

/-- Keys that are sorted by afterwards count before those that were sorted by first. -/
theorem sort_append (keys keys' : List SortKey) (hfoods : ∀ f ∈ foods, f.Sound) :
    sort (keys ++ keys') foods = sort keys (sort keys' foods) := by
  have hsound (f : Food) (hf : f ∈ sort keys' foods) : f.Sound := hfoods f (mem_sort.1 hf)
  have hpasses := (stableSort_sort keys' hfoods).lex (totalPreorderOn_compareAll keys) hfoods
    (stableSort_sort keys hsound)
  rw [← compareAll_append] at hpasses
  exact (stableSort_sort _ hfoods).unique (totalPreorderOn_compareAll _) hfoods hpasses

/-- The foods after a pass for each key, the last key first. -/
def passes (keys : List SortKey) (foods : List Food) : List Food :=
  keys.foldr (fun k foods => sort [k] foods) foods

theorem passes_cons (k : SortKey) (keys : List SortKey) (foods : List Food) :
    passes (k :: keys) foods = sort [k] (passes keys foods) := rfl

theorem sort_eq_passes (keys : List SortKey) (hfoods : ∀ f ∈ foods, f.Sound) :
    sort keys foods = passes keys foods := by
  induction keys with
  | nil =>
    refine sort_eq_self hfoods (List.pairwise_of_forall_mem_list fun a _ b _ => ?_)
    exact not_precedes_of_missing (List.forall_mem_nil _)
  | cons k keys ih =>
    rw [passes_cons, ← ih, ← sort_append [k] keys hfoods, List.singleton_append]

/-- Foods of tables, whole or narrowed, and any number of times each, may be sorted by several keys
in one pass for each key, the last key first: this gives the one list that has them in the order of
all keys. A list of keys may be cut anywhere into one to sort by first and one to sort by
afterwards. -/
theorem sort_in_passes
    (hfoods : ∀ f ∈ foods, ∃ rows records d, Dataset.ofTable rows records = .ok d ∧ d.Narrowed f) :
    (∀ keys, sort keys foods = passes keys foods) ∧
    (∀ keys sorted, passes keys foods = sorted ↔ IsOrdered keys foods sorted) ∧
    ∀ keys keys', sort (keys ++ keys') foods = sort keys (sort keys' foods) := by
  have hsound (f : Food) (hf : f ∈ foods) : f.Sound :=
    Dataset.sound_of_exists_narrowed (hfoods f hf)
  refine ⟨fun keys => sort_eq_passes keys hsound, fun keys sorted => ?_,
    fun keys keys' => sort_append keys keys' hsound⟩
  rw [← sort_eq_passes keys hsound]
  exact sort_eq_iff hsound

/-- Foods that come twice each, so that some tie, and one that has no amount of the last key. -/
theorem sort_in_passes_sample : ∃ d,
    Dataset.ofTable Dataset.sampleRows Dataset.sampleRecords = .ok d ∧
    let foods := d.foods.toList ++ d.foods.toList
    let water : SortKey := ⟨⟨"WATER", 1⟩, true⟩
    let energy : SortKey := ⟨⟨"ENERC_KCAL", 0⟩, false⟩
    sort [water, energy] foods = sort [water] (sort [energy] foods) ∧
      IsOrdered [water, energy] foods (sort [water] (sort [energy] foods)) := by
  obtain ⟨d, hd⟩ := Dataset.exists_ofTable_sample
  refine ⟨d, hd, ?_⟩
  intro foods water energy
  have hfoods (f : Food) (hf : f ∈ foods) :
      ∃ rows records d, Dataset.ofTable rows records = .ok d ∧ d.Narrowed f :=
    ⟨_, _, d, hd, .whole (Array.mem_toList_iff.1 ((List.mem_append.1 hf).elim id id))⟩
  obtain ⟨hpasses, hordered, -⟩ := sort_in_passes hfoods
  exact ⟨hpasses [water, energy], (hordered [water, energy] _).1 rfl⟩

end SortKey

end FoodTable
