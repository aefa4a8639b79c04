import FoodTable.Proofs.Query.Matched
import Mathlib.Data.List.Perm.Basic

/-!
# Steps of a selection

A query is answered by steps: filters by category, name and amounts, and a sort. On foods that come
from a dataset the filters of any run of steps may all be made first (`Step.run_eq_run_filter`), so
only the order of the sorts among themselves matters, and a run with one sort gives the same foods
in whatever order its steps are made.
-/

namespace FoodTable

/-- A filter or a sort. -/
inductive Step where
  | categories (codes : List Nat)
  | name (text : String)
  | conditions (cs : List Condition)
  | sort (keys : List SortKey)
  deriving DecidableEq, Repr

namespace Step

def apply : Step → List Food → List Food
  | categories codes => Selection.byCategory codes
  | name text => Selection.byName text
  | conditions cs => Selection.byConditions cs
  | sort keys => SortKey.sort keys

def isSort : Step → Bool
  | sort _ => true
  | _ => false

/-- Whether a food passes the step. A sort lets every food pass. -/
def keeps : Step → Food → Bool
  | categories codes, f => codes.contains f.categoryCode
  | name text, f => Text.occursIn text.toList f.name.toList
  | conditions cs, f => cs.all (·.satisfiedBy f)
  | sort _, _ => true

/-- The foods after all steps, the first of them made first. -/
def run (steps : List Step) (foods : List Food) : List Food :=
  steps.foldl (fun foods s => s.apply foods) foods

variable {s : Step} {steps steps' : List Step} {foods : List Food} {f : Food}

@[simp] theorem run_nil (foods : List Food) : run [] foods = foods := rfl

@[simp] theorem run_cons (s : Step) (steps : List Step) (foods : List Food) :
    run (s :: steps) foods = run steps (s.apply foods) := rfl

theorem run_append (steps steps' : List Step) (foods : List Food) :
    run (steps ++ steps') foods = run steps' (run steps foods) := List.foldl_append

theorem apply_eq_filter (h : s.isSort = false) (foods : List Food) :
    s.apply foods = foods.filter s.keeps := by
  cases s with
  | sort keys => cases h
  | _ => rfl

theorem mem_of_mem_apply (hf : f ∈ s.apply foods) : f ∈ foods := by
  cases s with
  | sort keys => exact SortKey.mem_sort.1 hf
  | _ => exact List.mem_of_mem_filter hf

/-! ## Filters first -/

theorem filter_apply (s : Step) (test : Food → Bool) (hfoods : ∀ f ∈ foods, f.Sound) :
    (s.apply foods).filter test = s.apply (foods.filter test) := by
  cases hs : s.isSort with
  | true =>
    cases s with
    | sort keys => exact SortKey.filter_sort keys test hfoods
    | _ => cases hs
  | false => rw [apply_eq_filter hs, apply_eq_filter hs, List.filter_comm]

/-- A run makes its sorts, in their order, on the foods that pass every step. -/
theorem run_eq_run_filter (steps : List Step) (hfoods : ∀ f ∈ foods, f.Sound) :
    run steps foods = run (steps.filter isSort) (foods.filter fun f => steps.all (·.keeps f)) := by
  induction steps generalizing foods with
  | nil => exact (List.filter_eq_self.2 fun _ _ => rfl).symm
  | cons s steps ih =>
    have hsound (f : Food) (hf : f ∈ s.apply foods) : f.Sound := hfoods f (mem_of_mem_apply hf)
    -- the filter of all later steps moves in front of `s`: past it if it sorts, else into it
    rw [run_cons, ih hsound, filter_apply s _ hfoods]
    cases hs : s.isSort with
    | true =>
      have hkeeps (f : Food) : s.keeps f = true := by
        cases s with
        | sort keys => rfl
        | _ => cases hs
      rw [List.filter_cons_of_pos hs, run_cons]
      simp only [List.all_cons, hkeeps, Bool.true_and]
    | false =>
      rw [List.filter_cons_of_neg (by simp [hs]), apply_eq_filter hs, List.filter_filter]
      rfl

/-- Only the order of the sorts among themselves matters. -/
theorem run_eq_of_perm (hfoods : ∀ f ∈ foods, f.Sound) (hsteps : steps.Perm steps')
    (hsorts : steps.filter isSort = steps'.filter isSort) : run steps foods = run steps' foods := by
  rw [run_eq_run_filter steps hfoods, run_eq_run_filter steps' hfoods, hsorts]
  simp only [hsteps.all_eq]

/-- At most one sort has no order to keep. -/
theorem filter_isSort_eq (hsteps : steps.Perm steps') (hone : steps.countP isSort ≤ 1) :
    steps.filter isSort = steps'.filter isSort := by
  have hperm := hsteps.filter isSort
  rw [List.countP_eq_length_filter] at hone
  match h : steps.filter isSort, hone with
  | [], _ => exact (h ▸ hperm).nil_eq
  | [s], _ => exact (List.perm_singleton.1 (h ▸ hperm).symm).symm

/-- A filter made once more, anywhere in the run, lets nothing less pass. -/
theorem run_repeat {before after : List Step} (hfoods : ∀ f ∈ foods, f.Sound)
    (hs : s.isSort = false) (hmem : s ∈ before ++ after) :
    run (before ++ s :: after) foods = run (before ++ after) foods := by
  have hkeeps (f : Food) :
      (before ++ s :: after).all (·.keeps f) = (before ++ after).all (·.keeps f) := by
    rw [List.perm_middle.all_eq, List.all_cons, Bool.and_eq_right_iff_imp]
    exact fun h => List.all_eq_true.1 h s hmem
  rw [run_eq_run_filter _ hfoods, run_eq_run_filter (before ++ after) hfoods]
  simp only [hkeeps, List.filter_append, List.filter_cons, hs, Bool.false_eq_true, if_false]

/-- A filter by several conditions is a filter by each of them, in any order. -/
theorem run_conditions {cs cs' : List Condition} (h : cs'.Perm cs) (foods : List Food) :
    run (cs'.map fun c => conditions [c]) foods = Selection.byConditions cs foods := by
  have hrun : run (cs'.map fun c => conditions [c]) foods = Selection.byConditions cs' foods := by
    clear h
    induction cs' generalizing foods with
    | nil => exact (List.filter_eq_self.2 fun _ _ => rfl).symm
    | cons c cs' ih =>
      rw [List.map_cons, run_cons, ih]
      simp [apply, Selection.byConditions, Bool.and_comm]
  rw [hrun]
  simp only [Selection.byConditions, h.all_eq]

/-! ## Any order of steps -/

variable {d : Dataset} {rows : List Row} {records : List TagRecord}

/-- The steps of a run with at most one sort may be made in any order, a filter may be repeated
anywhere, and a filter by several conditions may be split into filters by one of them each. -/
theorem run_confluent (h : Dataset.ofTable rows records = .ok d)
    (hfoods : ∀ f ∈ foods, d.Narrowed f) :
    (∀ steps steps' : List Step, steps.Perm steps' → steps.countP isSort ≤ 1 →
      run steps foods = run steps' foods) ∧
    (∀ (before after : List Step) (s : Step), s.isSort = false → s ∈ before ++ after →
      run (before ++ s :: after) foods = run (before ++ after) foods) ∧
    ∀ (before after : List Step) (cs cs' : List Condition), cs'.Perm cs →
      run (before ++ (cs'.map fun c => conditions [c]) ++ after) foods =
        run (before ++ conditions cs :: after) foods := by
  have hsound (f : Food) (hf : f ∈ foods) : f.Sound := (hfoods f hf).sound h
  refine ⟨fun steps steps' hsteps hone => ?_, fun before after s hs hmem => ?_,
    fun before after cs cs' hcs => ?_⟩
  · exact run_eq_of_perm hsound hsteps (filter_isSort_eq hsteps hone)
  · exact run_repeat hsound hs hmem
  · rw [run_append, run_append, run_append, run_conditions hcs, run_cons]
    rfl

/-- Whole foods and narrowed ones, sorted between two filters or after them. -/
theorem run_confluent_sample : ∃ d, Dataset.ofTable Dataset.sampleRows Dataset.sampleRecords = .ok d ∧
    let foods := d.foods.toList ++ d.foods.toList.map (·.narrow [⟨"WATER", 1⟩])
    let water : Condition := ⟨⟨"WATER", 1⟩, .below, .ofNat 30⟩
    let energy : Condition := ⟨⟨"ENERC_KCAL", 0⟩, .above, .ofNat 3⟩
    let sorted : Step := .sort [⟨⟨"WATER", 1⟩, true⟩, ⟨⟨"ENERC_KCAL", 0⟩, false⟩]
    run [categories [8], sorted, conditions [water, energy]] foods =
      run [conditions [water, energy], categories [8], sorted] foods ∧
    run [categories [8], sorted, categories [8]] foods = run [categories [8], sorted] foods ∧
    run [sorted, conditions [energy], conditions [water]] foods =
      run [sorted, conditions [water, energy]] foods := by
  obtain ⟨d, hd⟩ := Dataset.exists_ofTable_sample
  refine ⟨d, hd, ?_⟩
  intro foods water energy sorted
  have hfoods : ∀ f ∈ foods, d.Narrowed f := by
    intro f hf
    rcases List.mem_append.1 hf with hf | hf
    · exact .whole (Array.mem_toList_iff.1 hf)
    · obtain ⟨g, hg, rfl⟩ := List.mem_map.1 hf
      exact (Dataset.Narrowed.whole (Array.mem_toList_iff.1 hg)).narrow _
  obtain ⟨horder, hrepeat, hsplit⟩ := run_confluent hd hfoods
  refine ⟨horder _ _ ?_ (by decide), ?_, ?_⟩
  · exact @List.perm_append_comm Step [categories [8], sorted] [conditions [water, energy]]
  · exact hrepeat [categories [8], sorted] [] (categories [8]) rfl (by simp)
  · exact hsplit [sorted] [] [water, energy] [energy, water] (.swap _ _ _)

end Step

namespace Query

/-- The steps that answer a query. -/
def steps (q : Query) : List Step :=
  (q.categories.map .categories).toList ++ (q.name.map .name).toList ++
    (q.conditions.map .conditions).toList ++ [.sort q.visibleKeys]

theorem countP_isSort_steps (q : Query) : q.steps.countP Step.isSort ≤ 1 := by
  unfold steps
  cases q.categories <;> cases q.name <;> cases q.conditions <;> exact Nat.le_refl 1

theorem matched_eq_run (q : Query) (d : Dataset) : q.matched d = Step.run q.steps d.foods.toList := by
  unfold matched select steps
  cases q.categories <;> cases q.name <;> cases q.conditions <;> rfl

/-- The foods that a query asks for do not depend on the order of its steps. -/
theorem matched_eq_run_of_perm {d : Dataset} {rows : List Row} {records : List TagRecord}
    (h : Dataset.ofTable rows records = .ok d) {q : Query} {steps : List Step}
    (hsteps : q.steps.Perm steps) : q.matched d = Step.run steps d.foods.toList := by
  rw [matched_eq_run]
  have hsound (f : Food) (hf : f ∈ d.foods.toList) : f.Sound :=
    Dataset.sound_of_mem h (Array.mem_toList_iff.1 hf)
  exact Step.run_eq_of_perm hsound hsteps (Step.filter_isSort_eq hsteps (countP_isSort_steps q))

end Query

end FoodTable
