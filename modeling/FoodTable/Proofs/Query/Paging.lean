import FoodTable.Proofs.Query.PlainPipeline
import Mathlib.Data.List.Nodup

/-!
# Paging

All pages of a query are slices of one list (`Query.answer`), whatever the place and the size of the
page. A client that asks for page after page (`Query.walk`) gets slices that lie end to end, so it
sees every accepted food once.
-/

namespace FoodTable

section Lists

variable {α β : Type}

theorem length_slice (offset limit : Nat) (xs : List α) :
    (slice offset limit xs).length = min limit (xs.length - offset) := by
  unfold slice
  rw [List.length_take, List.length_drop]

theorem slice_append_drop (offset limit : Nat) (xs : List α) :
    slice offset limit xs ++ xs.drop (offset + limit) = xs.drop offset := by
  unfold slice
  rw [← List.drop_drop, List.take_append_drop]

theorem slice_zero_length (xs : List α) : slice 0 xs.length xs = xs := by
  unfold slice
  rw [List.drop_zero, List.take_length]

/-- A member of a list cut into parts without repetition is in exactly one part. -/
theorem existsUnique_part {part : α → List β} {xs : List α} {b : β}
    (h : (xs.flatMap part).Nodup) (hb : b ∈ xs.flatMap part) :
    ∃! i : Nat, ∃ a, xs[i]? = some a ∧ b ∈ part a := by
  obtain ⟨a, ha, hba⟩ := List.mem_flatMap.1 hb
  obtain ⟨i, hi⟩ := List.mem_iff_getElem?.1 ha
  have hdisj := List.pairwise_iff_getElem.1 (List.nodup_flatMap.1 h).2
  refine ⟨i, ⟨a, hi, hba⟩, ?_⟩
  rintro j ⟨a', hj, hba'⟩
  obtain ⟨hilt, rfl⟩ := List.getElem?_eq_some_iff.1 hi
  obtain ⟨hjlt, rfl⟩ := List.getElem?_eq_some_iff.1 hj
  rcases Nat.lt_trichotomy j i with hlt | heq | hgt
  · exact absurd hba (hdisj j i hjlt hilt hlt hba')
  · exact heq
  · exact absurd hba' (hdisj i j hilt hjlt hgt hba)

end Lists

namespace Query

/-! ## Pages as slices -/

/-- All foods that a query asks for, narrowed, in its order. -/
def answer (q : Query) (d : Dataset) : List Food := (q.matched d).map (·.narrowTo q.nutrients)

/-- The page of a query at another place and of another size. -/
def pageAt (q : Query) (d : Dataset) (offset limit : Nat) : Page :=
  { q with offset, limit }.page d

variable {q : Query} {d : Dataset} {rows : List Row} {records : List TagRecord} {f g : Food}
  {offset limit size : Nat}

theorem foods_pageAt (q : Query) (d : Dataset) (offset limit : Nat) :
    (q.pageAt d offset limit).foods = slice offset limit (q.answer d) := map_slice _ _ _ _

theorem total_pageAt (q : Query) (d : Dataset) (offset limit : Nat) :
    (q.pageAt d offset limit).total = (q.accepted d).length := length_matched _ _

theorem length_answer (q : Query) (d : Dataset) :
    (q.answer d).length = (q.accepted d).length := by
  unfold answer
  rw [List.length_map, length_matched]

theorem length_foods_pageAt (q : Query) (d : Dataset) (offset limit : Nat) :
    (q.pageAt d offset limit).foods.length = min limit ((q.accepted d).length - offset) := by
  rw [foods_pageAt, length_slice, length_answer]

theorem mem_answer : g ∈ q.answer d ↔
    ∃ f ∈ d.foods, q.accepts f = true ∧ f.narrowTo q.nutrients = g := by
  unfold answer
  simp only [List.mem_map, (matched_perm q d).mem_iff, mem_accepted, and_assoc]

theorem nodup_ids_answer (h : Dataset.ofTable rows records = .ok d) (q : Query) :
    ((q.answer d).map (·.id)).Nodup := by
  unfold answer
  rw [List.map_map, show (·.id) ∘ (·.narrowTo q.nutrients) = Food.id from
    funext fun f => Food.id_narrowTo _, ((matched_perm q d).map _).nodup_iff]
  exact (Dataset.nodup_ids h).sublist (List.filter_sublist.map _)

/-! ## Page after page -/

/-- The pages that a client gets who starts at an offset, asks for pages of one size, and stops when
the offset reaches the number of foods that a page reports. -/
def walk (q : Query) (d : Dataset) (hsize : 0 < size) (offset : Nat) : List Page :=
  if offset < (q.pageAt d offset size).total then
    q.pageAt d offset size :: q.walk d hsize (offset + size)
  else []
termination_by (q.accepted d).length - offset
decreasing_by
  rename_i h
  rw [total_pageAt] at h
  omega

/-- The pages lie end to end. -/
theorem flatMap_walk (q : Query) (d : Dataset) (hsize : 0 < size) (offset : Nat) :
    (q.walk d hsize offset).flatMap (·.foods) = (q.answer d).drop offset := by
  fun_induction walk q d hsize offset with
  | case1 offset h ih => rw [List.flatMap_cons, ih, foods_pageAt, slice_append_drop]
  | case2 offset h =>
    rw [total_pageAt, ← length_answer, Nat.not_lt] at h
    rw [List.drop_eq_nil_of_le h]
    rfl

/-- The `i`-th page starts after `i` whole pages. -/
theorem getElem?_walk (q : Query) (d : Dataset) (hsize : 0 < size) (offset i : Nat) :
    (q.walk d hsize offset)[i]? =
      if offset + i * size < (q.accepted d).length then some (q.pageAt d (offset + i * size) size)
      else none := by
  fun_induction walk q d hsize offset generalizing i with
  | case1 offset h ih =>
    rw [total_pageAt] at h
    cases i with
    | zero => rw [List.getElem?_cons_zero, Nat.zero_mul, Nat.add_zero, if_pos h]
    | succ i => rw [List.getElem?_cons_succ, ih, Nat.add_one_mul, Nat.add_assoc, Nat.add_comm size]
  | case2 offset h =>
    rw [total_pageAt] at h
    rw [if_neg (by omega)]
    rfl

theorem exists_pageAt_of_mem_walk {hsize : 0 < size} {p : Page} (hp : p ∈ q.walk d hsize offset) :
    ∃ i, p = q.pageAt d (offset + i * size) size := by
  obtain ⟨i, hi⟩ := List.mem_iff_getElem?.1 hp
  rw [getElem?_walk] at hi
  split at hi
  · exact ⟨i, (Option.some.inj hi).symm⟩
  · cases hi

/-! ## No food lost, none repeated -/

/-- The pages show every accepted food on one of them, and nothing else, in the order of one page
for all, and each reports the number of all accepted foods. -/
structure IsTiling (q : Query) (d : Dataset) (pages : List Page) : Prop where
  foods : pages.flatMap (·.foods) = (q.pageAt d 0 (q.accepted d).length).foods
  total : ∀ p ∈ pages, p.total = (q.accepted d).length
  once : ∀ f ∈ d.foods, q.accepts f = true →
    ∃! i : Nat, ∃ p, pages[i]? = some p ∧ f.narrowTo q.nutrients ∈ p.foods
  distinct : ((pages.flatMap (·.foods)).map (·.id)).Nodup
  only : ∀ p ∈ pages, ∀ g ∈ p.foods, ∃ f ∈ d.foods, q.accepts f = true ∧ f.narrowTo q.nutrients = g

theorem isTiling_of_flatMap {pages : List Page} (h : Dataset.ofTable rows records = .ok d)
    (hfoods : pages.flatMap (·.foods) = q.answer d)
    (htotal : ∀ p ∈ pages, p.total = (q.accepted d).length) : q.IsTiling d pages where
  foods := by rw [hfoods, foods_pageAt, ← length_answer, slice_zero_length]
  total := htotal
  once f hf ha := by
    apply existsUnique_part
    · rw [hfoods]
      exact (nodup_ids_answer h q).of_map _
    · rw [hfoods]
      exact mem_answer.2 ⟨f, hf, ha, rfl⟩
  distinct := by
    rw [hfoods]
    exact nodup_ids_answer h q
  only p hp g hg := by
    have hmem : g ∈ pages.flatMap (·.foods) := List.mem_flatMap.2 ⟨p, hp, hg⟩
    rw [hfoods] at hmem
    exact mem_answer.1 hmem

/-- Page after page of any size shows every accepted food once, the `i`-th of them at the offset of
`i` whole pages. A page anywhere has as many foods as are left from there, up to its limit. -/
theorem isTiling_walk (h : Dataset.ofTable rows records = .ok d) (q : Query) (hsize : 0 < size) :
    q.IsTiling d (q.walk d hsize 0) ∧
    (∀ i : Nat, (q.walk d hsize 0)[i]? =
      if i * size < (q.accepted d).length then some (q.pageAt d (i * size) size) else none) ∧
    ∀ offset limit, (q.pageAt d offset limit).total = (q.accepted d).length ∧
      (q.pageAt d offset limit).foods.length = min limit ((q.accepted d).length - offset) := by
  refine ⟨isTiling_of_flatMap h (flatMap_walk q d hsize 0) fun p hp => ?_, fun i => ?_,
    fun offset limit => ⟨total_pageAt _ _ _ _, length_foods_pageAt _ _ _ _⟩⟩
  · obtain ⟨i, rfl⟩ := exists_pageAt_of_mem_walk hp
    exact total_pageAt _ _ _ _
  · rw [getElem?_walk, Nat.zero_add]

theorem isTiling_walk_sample : ∃ d,
    Dataset.ofTable Dataset.sampleRows Dataset.sampleRecords = .ok d ∧
    sampleQuery.IsTiling d (sampleQuery.walk d Nat.two_pos 0) := by
  obtain ⟨d, hd⟩ := Dataset.exists_ofTable_sample
  exact ⟨d, hd, (isTiling_walk hd sampleQuery Nat.two_pos).1⟩

end Query

end FoodTable
