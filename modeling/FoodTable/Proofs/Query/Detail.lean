import FoodTable.Proofs.Query.Grammar
import FoodTable.Proofs.Query.Paging

/-!
# Pages and single foods

A food is shown alike on a page and on its own. Every food on a page is the answer to a request for
its id with the same parameters, and the answer to a request for an id is on a page of the query
that has nothing but its nutrients.
-/

namespace FoodTable

namespace Parameters

/-- The pairs that name nutrients, and no others. -/
def nutrientPairs (pairs : List (String × String)) : List (String × String) :=
  pairs.filter (·.1 == "nutrients")

theorem first?_nutrientPairs (key : String) (pairs : List (String × String)) :
    first? key (nutrientPairs pairs) = if key = "nutrients" then first? key pairs else none := by
  unfold first? nutrientPairs
  rw [List.find?_filter]
  split
  · rename_i hkey
    subst hkey
    simp only [Bool.decide_eq_true, Bool.and_self, Bool.decide_and]
  · rename_i hkey
    rw [List.find?_eq_none.2, Option.map_none]
    rintro ⟨k, value⟩ - hk
    simp only [beq_iff_eq, decide_eq_true_eq] at hk
    exact hkey (hk.2.symm.trans hk.1)

theorem ofPairs_nutrientPairs (pairs : List (String × String)) :
    ofPairs (nutrientPairs pairs) = { nutrients := (ofPairs pairs).nutrients } := by
  have horders : all (fun key => key == "orders" || key == "orders[]") (nutrientPairs pairs) = [] := by
    unfold all nutrientPairs
    rw [List.filter_filter, List.filter_eq_nil_iff.2, List.map_nil]
    rintro ⟨key, value⟩ - h
    simp only [Bool.and_eq_true, Bool.or_eq_true, beq_iff_eq] at h
    rcases h with ⟨rfl | rfl, h⟩ <;> exact absurd h (by decide)
  unfold ofPairs
  simp only [first?_nutrientPairs, horders]
  rfl

end Parameters

variable {v : Vocabulary} {d : Dataset} {rows : List Row} {records : List TagRecord}
  {p : Parameters} {q : Query} {r : FoodQuery} {f g : Food} {id : String}

namespace FoodQuery

theorem ofParameters_eq_ok_iff : ofParameters v id p = .ok r ↔
    isFoodId id = true ∧ r.id = id ∧ p.nutrients.mapM (Grammar.nutrients v) = .ok r.nutrients := by
  unfold ofParameters
  rw [ite_throw_eq_ok_iff, bind_eq_ok_iff]
  constructor
  · rintro ⟨hid, nutrients, hn, h⟩
    obtain rfl := Except.ok.inj h
    exact ⟨by simpa using hid, rfl, hn⟩
  · rintro ⟨hid, rfl, hn⟩
    exact ⟨by simp [hid], _, hn, rfl⟩

theorem food?_eq_some_iff (h : Dataset.ofTable rows records = .ok d) :
    r.food? d = some f ↔ ∃ g ∈ d.foods, g.id = r.id ∧ g.narrowTo r.nutrients = f := by
  unfold food?
  simp only [Option.map_eq_some_iff, Dataset.food?_eq_some_iff h, and_assoc]

end FoodQuery

namespace Query

theorem mem_answer_of_mem_page (hf : f ∈ (q.page d).foods) : f ∈ q.answer d := by
  have hslice : (q.page d).foods = slice q.offset q.limit (q.answer d) := map_slice _ _ _ _
  rw [hslice] at hf
  exact List.mem_of_mem_drop (List.mem_of_mem_take hf)

/-- The foods on the pages of a query that has only nutrients are all foods, narrowed. -/
theorem mem_walk_of_only_nutrients (hc : q.categories = none) (hname : q.name = none)
    (hw : q.conditions = none) {size : Nat} (hsize : 0 < size) (hg : g ∈ d.foods) :
    g.narrowTo q.nutrients ∈ (q.walk d hsize 0).flatMap (·.foods) := by
  have haccepts : q.accepts g = true := by
    unfold accepts
    rw [hc, hname, hw]
    rfl
  rw [flatMap_walk, List.drop_zero]
  exact mem_answer.2 ⟨g, hg, haccepts, rfl⟩

theorem ofParameters_only_nutrients {s : Option String} {nutrients : Option (List Tag)}
    (hn : s.mapM (Grammar.nutrients v) = .ok nutrients) :
    ofParameters v { nutrients := s } = .ok { nutrients } := by
  rw [ofParameters_eq_ok_iff]
  exact ⟨rfl, hn, rfl, rfl, rfl, rfl, rfl⟩

end Query

namespace FoodQuery

/-- Every food on a page is the answer to a request for its id with the same parameters. A request
for an id is answered exactly if a food has it, and the answer is on one of the pages, whatever
their size, of the query with the same nutrients and nothing else. -/
theorem food?_agrees_with_pages (h : Dataset.ofTable rows records = .ok d)
    (pairs : List (String × String)) :
    (∀ q, Query.ofParameters d.vocabulary (.ofPairs pairs) = .ok q → ∀ f ∈ (q.page d).foods,
      ∃ r, FoodQuery.ofParameters d.vocabulary f.id (.ofPairs pairs) = .ok r ∧
        r.food? d = some f) ∧
    ∀ id r, FoodQuery.ofParameters d.vocabulary id (.ofPairs pairs) = .ok r →
      ((∃ f, r.food? d = some f) ↔ ∃ f ∈ d.foods, f.id = id) ∧
      ∃ q, Query.ofParameters d.vocabulary (.ofPairs (Parameters.nutrientPairs pairs)) = .ok q ∧
        ∀ f, r.food? d = some f → ∀ (size : Nat) (hsize : 0 < size),
          f ∈ (q.walk d hsize 0).flatMap (·.foods) := by
  constructor
  · intro q hq f hf
    obtain ⟨g, hg, -, rfl⟩ := Query.mem_answer.1 (Query.mem_answer_of_mem_page hf)
    have hn := (Query.ofParameters_eq_ok_iff.1 hq).2.1
    rw [Food.id_narrowTo]
    refine ⟨⟨g.id, q.nutrients⟩, ?_, (food?_eq_some_iff h).2 ⟨g, hg, rfl, rfl⟩⟩
    exact ofParameters_eq_ok_iff.2 ⟨Dataset.isFoodId_of_mem h hg, rfl, hn⟩
  · intro id r hr
    obtain ⟨-, rfl, hn⟩ := ofParameters_eq_ok_iff.1 hr
    rw [Parameters.ofPairs_nutrientPairs]
    refine ⟨?_, _, Query.ofParameters_only_nutrients hn, ?_⟩
    · simp only [food?_eq_some_iff h]
      constructor
      · rintro ⟨_, g, hg, hid, -⟩
        exact ⟨g, hg, hid⟩
      · rintro ⟨g, hg, hid⟩
        exact ⟨_, g, hg, hid, rfl⟩
    · intro f hf size hsize
      obtain ⟨g, hg, -, rfl⟩ := (food?_eq_some_iff h).1 hf
      exact Query.mem_walk_of_only_nutrients rfl rfl rfl hsize hg

theorem food?_agrees_with_pages_sample : ∃ d f,
    Dataset.ofTable Dataset.sampleRows Dataset.sampleRecords = .ok d ∧
    (∃ q, Query.ofParameters d.vocabulary (.ofPairs [("limit", "2"), ("nutrients", "WATER")]) =
      .ok q ∧ f ∈ (q.page d).foods) ∧
    (∃ r, FoodQuery.ofParameters d.vocabulary f.id
        (.ofPairs [("limit", "2"), ("nutrients", "WATER")]) = .ok r ∧ r.food? d = some f) ∧
    ∃ q, Query.ofParameters d.vocabulary (.ofPairs [("nutrients", "WATER")]) = .ok q ∧
      f ∈ (q.walk d Nat.one_pos 0).flatMap (·.foods) := by
  obtain ⟨d, hd⟩ := Dataset.exists_ofTable_sample
  have hwater : ∃ tags, Grammar.nutrients d.vocabulary "WATER" = .ok tags := by
    refine ⟨[⟨"WATER", 1⟩], (Grammar.nutrients_eq_ok_iff (Dataset.holds_vocabulary hd)).2 ?_⟩
    refine ⟨["WATER"], Grammar.tokens_eq_iff.1 (by decide), ?_, by decide, fun t => ?_⟩
    · simp only [List.forall_mem_singleton]
      exact ⟨⟨"WATER", 1⟩, by decide, rfl⟩
    · have htags : tagsOf Dataset.sampleRecords = [⟨"ENERC_KCAL", 0⟩, ⟨"WATER", 1⟩] := rfl
      simp only [exists_eq_left, Grammar.Names, htags, List.mem_cons, List.not_mem_nil, or_false]
      constructor
      · rintro rfl
        decide
      · rintro ⟨rfl | rfl, hname⟩
        · exact absurd hname (by decide)
        · rfl
  obtain ⟨tags, htags⟩ := hwater
  have hq : Query.ofParameters d.vocabulary (.ofPairs [("limit", "2"), ("nutrients", "WATER")]) =
      .ok { nutrients := some tags, limit := 2 } :=
    have hlimit : Grammar.limit (some "2") = .ok 2 := by decide
    Query.ofParameters_eq_ok_iff.2
      ⟨rfl, congrArg (some <$> ·) htags, rfl, rfl, rfl, hlimit, rfl⟩
  have hlength : 0 < (Query.page { nutrients := some tags, limit := 2 } d).foods.length := by
    have haccepted : Query.accepted { nutrients := some tags } d = d.foods.toList :=
      List.filter_eq_self.2 fun _ _ => rfl
    have hpage := Query.length_foods_pageAt { nutrients := some tags } d 0 2
    rw [haccepted, ← (Dataset.gives_of_ofTable hd).length_eq] at hpage
    exact Nat.lt_of_lt_of_eq (by decide) hpage.symm
  have hmem := List.getElem_mem hlength
  obtain ⟨hpages, hfood⟩ := food?_agrees_with_pages hd [("limit", "2"), ("nutrients", "WATER")]
  obtain ⟨r, hr, hrf⟩ := hpages _ hq _ hmem
  obtain ⟨-, q, hq', hwalk⟩ := hfood _ r hr
  exact ⟨d, _, hd, ⟨_, hq, hmem⟩, ⟨r, hr, hrf⟩, q, hq', hwalk _ hrf 1 Nat.one_pos⟩

end FoodQuery

end FoodTable
