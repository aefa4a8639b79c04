import FoodTable.Proofs.Benchmark.Lookups
import FoodTable.Proofs.Order.ExactOrder
import FoodTable.Proofs.Query.Thresholds

/-!
# Reports of a benchmark

The search of a benchmark is written as query parameters and read back as the query for the energies
strictly between the bounds of the plan, which are small enough for every comparison to be exact. So
the number in the report is that of the foods within the range, and the foods in the report are the
first five of them in dataset order, each with its energy: narrowed to one nutrient, a food begins
with the measurement of it.
-/

namespace FoodTable.Benchmark

open Binary64 Grammar Text

/-- The amount of the tag, if it is not zero and strictly between the bounds of the plan. -/
def energy? (plan : Plan) (t : Tag) (f : Food) : Option Binary64 :=
  (f.value? t).filter fun x =>
    x.value ≠ 0 ∧ (plan.minEnergy : ℚ) < x.value ∧ x.value < plan.maxEnergy

/-- The foods within the range in dataset order, each with its energy. -/
def hits (plan : Plan) (t : Tag) (d : Dataset) : List (Food × Binary64) :=
  d.foods.toList.filterMap fun f => (energy? plan t f).map fun x => (f, x)

def hitLine (hit : Food × Binary64) : String :=
  "- " ++ hit.1.name ++ ": " ++ String.ofList (hit.2.text .plain) ++ " kcal"

/-- How many foods are within the range, and the first five of them. -/
def rangeLines (plan : Plan) (time : String) (hits : List (Food × Binary64)) : List String :=
  [ "Range searches: " ++ numeral plan.searches ++ " in " ++ time,
    "Foods with " ++ numeral plan.minEnergy ++ ".." ++ numeral plan.maxEnergy ++ " kcal: " ++
      numeral hits.length,
    "First " ++ numeral (min 5 hits.length) ++ ":" ] ++ (hits.take 5).map hitLine

/-- The query for the foods within the range. -/
def rangeQuery (plan : Plan) (t : Tag) : Query where
  conditions := some [⟨t, .above, .ofNat plan.minEnergy⟩, ⟨t, .below, .ofNat plan.maxEnergy⟩]
  nutrients := some [t]
  limit := 5

variable {plan : Plan} {t : Tag} {d : Dataset} {v : Vocabulary} {rows : List Row}
  {records : List TagRecord} {f : Food} {x : Binary64}

/-! ## The search -/

theorem isName_energyTag : IsName energyTag.toList := isConditionName_iff.1 (by decide)

theorem conditions_search (hv : v.Holds records) (ht : t ∈ tagsOf records)
    (hname : t.name = energyTag) :
    Grammar.conditions v (energyTag ++ ">" ++ numeral plan.minEnergy ++ "," ++
      energyTag ++ "<" ++ numeral plan.maxEnergy) =
    .ok [⟨t, .above, .ofNat plan.minEnergy⟩, ⟨t, .below, .ofNat plan.maxEnergy⟩] := by
  have htag : IsName t.name.toList := hname ▸ isName_energyTag
  have hmin := isDecimal_numeral plan.minEnergy
  have hmax := isDecimal_numeral plan.maxEnergy
  have hlist : energyTag ++ ">" ++ numeral plan.minEnergy ++ "," ++ energyTag ++ "<" ++
      numeral plan.maxEnergy = ",".intercalate
        [t.name ++ String.ofList (Comparison.above.toChar :: (numeral plan.minEnergy).toList),
          t.name ++ String.ofList (Comparison.below.toChar :: (numeral plan.maxEnergy).toList)] := by
    rw [hname, ← String.toList_inj]
    simp [Comparison.toChar]
  unfold Grammar.conditions
  rw [hlist, tokens_eq_iff.2 (isTokens_intercalate (List.cons_ne_nil _ _) ?_), mapM_eq_ok_iff]
  · exact .cons (condition_comparison hmin .above hv ht htag)
      (.cons (condition_comparison hmax .below hv ht htag) .nil)
  · rw [List.forall_mem_cons, List.forall_mem_singleton]
    exact ⟨(isPlain_comparison hmin .above htag).comma_not_mem,
      (isPlain_comparison hmax .below htag).comma_not_mem⟩

/-- The search is read as the query for the foods within the range. -/
theorem ofParameters_search (hv : v.Holds records) (ht : t ∈ tagsOf records)
    (hname : t.name = energyTag) :
    Query.ofParameters v (search plan) = .ok (rangeQuery plan t) := by
  have hnutrients : Grammar.nutrients v energyTag = .ok [t] := by
    rw [← hname]
    exact nutrients_name hv ht (hname ▸ isName_energyTag.isPlain.comma_not_mem)
  have hlimit : Grammar.limit (some "5") = .ok 5 := by decide
  exact Query.ofParameters_eq_ok_iff.2 ⟨rfl, congrArg (some <$> ·) hnutrients,
    congrArg (some <$> ·) (conditions_search hv ht hname), rfl, rfl, hlimit, rfl⟩

/-- Without the tag the search is refused. -/
theorem ofParameters_search_of_unknown (hv : v.Holds records)
    (hunknown : energyTag ∉ records.map (·.name)) :
    Query.ofParameters v (search plan) = .error (.unknownNutrient energyTag) := by
  refine (Query.ofParameters_eq_error_iff hv).2
    ⟨[.category], .nutrients, [.conditions, .order, .offset, .limit], rfl, ?_, ?_⟩
  · rw [List.forall_mem_singleton]
    rintro e ⟨s, hs, -⟩
    cases hs
  · refine ⟨energyTag, rfl, [energyTag], isTokens_singleton (by decide), ?_⟩
    exact ⟨[], energyTag, [], rfl, List.forall_mem_nil _, hunknown, rfl⟩

/-! ## Foods within the range -/

theorem energy?_eq_some_iff : energy? plan t f = some x ↔ f.value? t = some x ∧ x.value ≠ 0 ∧
    (plan.minEnergy : ℚ) < x.value ∧ x.value < plan.maxEnergy := by
  unfold energy?
  rw [Option.filter_eq_some_iff, decide_eq_true_eq]

theorem mem_hits_iff : (f, x) ∈ hits plan t d ↔ f ∈ d.foods ∧ energy? plan t f = some x := by
  unfold hits
  simp [List.mem_filterMap]

/-! ## Lines of foods -/

/-- A food narrowed to one tag begins with the measurement of it. -/
theorem head?_narrow (hf : f.Sound) (t : Tag) :
    (f.narrow [t]).measurements.head?.bind (·.reading.value) = f.value? t := by
  unfold Food.value? Food.narrow
  rw [List.head?_filter, Food.measurement?_eq_find? hf.nodup]
  simp

theorem foodLine_narrow (hf : f.Sound) (hx : f.value? t = some x) :
    foodLine (f.narrow [t]) = hitLine (f, x) := by
  unfold foodLine hitLine
  rw [head?_narrow hf, hx]
  simp [Food.narrow, String.append_assoc]

/-! ## The page of the search -/

section Bounds

variable (hmin : plan.minEnergy < pow2 32) (hmax : plan.maxEnergy < pow2 32)

include hmin hmax

/-- The query accepts the foods within the range. -/
theorem accepts_rangeQuery (hf : f.Sound) :
    (rangeQuery plan t).accepts f = (energy? plan t f).isSome := by
  have hexact {n : Nat} (hn : n < pow2 32) : n ≤ pow2 53 :=
    Nat.le_trans (Nat.le_of_lt hn) (by decide)
  have haccepts : (rangeQuery plan t).accepts f =
      (Condition.satisfiedBy ⟨t, .above, .ofNat plan.minEnergy⟩ f &&
        Condition.satisfiedBy ⟨t, .below, .ofNat plan.maxEnergy⟩ f) := by
    simp [Query.accepts, rangeQuery]
  rw [haccepts, Bool.eq_iff_iff, Bool.and_eq_true,
    Condition.satisfiedBy_ofNat_iff hf (hexact hmin),
    Condition.satisfiedBy_ofNat_iff hf (hexact hmax), Option.isSome_iff_exists]
  simp only [energy?_eq_some_iff]
  constructor
  · rintro ⟨⟨x, hx, hzero, hlt⟩, y, hy, -, hgt⟩
    obtain rfl := Option.some.inj (hx.symm.trans hy)
    exact ⟨x, hx, hzero, hlt, hgt⟩
  · rintro ⟨x, hx, hzero, hlt, hgt⟩
    exact ⟨⟨x, hx, hzero, hlt⟩, x, hx, hzero, hgt⟩

/-- Nothing is sorted by, so the foods stay in dataset order. -/
theorem matched_rangeQuery (h : Dataset.ofTable rows records = .ok d) :
    (rangeQuery plan t).matched d = (hits plan t d).map (·.1) := by
  have hsort : SortKey.sort [] ((rangeQuery plan t).accepted d) = (rangeQuery plan t).accepted d := by
    refine SortKey.sort_eq_self (fun f hf => Query.sound_of_mem_accepted h hf) ?_
    exact List.pairwise_of_forall fun _ _ => SortKey.not_precedes_of_missing (List.forall_mem_nil _)
  rw [Query.matched_eq_sort]
  refine hsort.trans ?_
  unfold Query.accepted hits
  rw [List.map_filterMap, ← List.filterMap_eq_filter]
  refine List.filterMap_congr fun f hf => ?_
  have hsound := Dataset.sound_of_mem h (Array.mem_toList_iff.1 hf)
  simp only [Option.guard, accepts_rangeQuery hmin hmax hsound]
  cases energy? plan t f <;> rfl

theorem foods_page_rangeQuery (h : Dataset.ofTable rows records = .ok d) :
    ((rangeQuery plan t).page d).foods = ((hits plan t d).take 5).map fun hit => hit.1.narrow [t] := by
  have hfoods : ((rangeQuery plan t).page d).foods =
      (((rangeQuery plan t).matched d).take 5).map (·.narrow [t]) := rfl
  rw [hfoods, matched_rangeQuery hmin hmax h, ← List.map_take, List.map_map]
  rfl

/-- Each food on the page has an amount to print. -/
theorem head?_ne_none_of_mem (h : Dataset.ofTable rows records = .ok d)
    (hf : f ∈ ((rangeQuery plan t).page d).foods) :
    f.measurements.head?.bind (·.reading.value) ≠ none := by
  rw [foods_page_rangeQuery hmin hmax h, List.mem_map] at hf
  obtain ⟨⟨g, x⟩, hhit, rfl⟩ := hf
  obtain ⟨hg, hx⟩ := mem_hits_iff.1 (List.mem_of_mem_take hhit)
  rw [head?_narrow (Dataset.sound_of_mem h hg), (energy?_eq_some_iff.1 hx).1]
  exact Option.some_ne_none x

theorem searchLines_rangeQuery (h : Dataset.ofTable rows records = .ok d) (time : String) :
    searchLines plan ((rangeQuery plan t).page d) time = rangeLines plan time (hits plan t d) := by
  have htotal : ((rangeQuery plan t).page d).total = (hits plan t d).length := by
    show ((rangeQuery plan t).matched d).length = _
    rw [matched_rangeQuery hmin hmax h, List.length_map]
  have hlines : (((hits plan t d).take 5).map fun hit => hit.1.narrow [t]).map foodLine =
      ((hits plan t d).take 5).map hitLine := by
    rw [List.map_map]
    refine List.map_congr_left ?_
    rintro ⟨f, x⟩ hhit
    obtain ⟨hf, hx⟩ := mem_hits_iff.1 (List.mem_of_mem_take hhit)
    exact foodLine_narrow (Dataset.sound_of_mem h hf) (energy?_eq_some_iff.1 hx).1
  unfold searchLines rangeLines
  rw [htotal, foods_page_rangeQuery hmin hmax h, hlines, List.length_map, List.length_take]

end Bounds

/-! ## Reports -/

theorem report_eq (h : Dataset.ofTable rows records = .ok d) (hfoods : d.isEmpty = false)
    (htags : d.vocabulary.isEmpty = false) (times : Times) :
    report plan times d =
      let lines := [loadedLine d, lookupsLine plan plan.lookups times.lookups]
      match Query.ofParameters d.vocabulary (search plan) with
      | .ok q => ⟨lines ++ searchLines plan (q.page d) times.searches, true⟩
      | .error _ => ⟨lines, false⟩ := by
  unfold report
  rw [hfoods, htags, found_eq h (Dataset.isEmpty_eq_false_iff.1 hfoods)]
  rfl

/-- The report on a dataset that has foods and tags is true. Every lookup finds the food that it asks
for, and the report gives their number. Without a tag for the energy it ends there, and the run
fails. Otherwise it goes on with the number of the foods within the range and with the first five of
them, each with its energy; that a food on the page has none cannot happen. -/
theorem report_truthful (h : Dataset.ofTable rows records = .ok d) (hfoods : d.isEmpty = false)
    (htags : d.vocabulary.isEmpty = false) (hlookups : ∀ i < plan.lookups, i * stride < pow2 64)
    (hmin : plan.minEnergy < pow2 32) (hmax : plan.maxEnergy < pow2 32) (times : Times) :
    (∀ i < plan.lookups, ∃ f, d.foods[i * stride % d.size]? = some f ∧
      lookup d i = .ok (some f)) ∧
    (d.vocabulary.lookup? energyTag = none →
      report plan times d =
        ⟨[loadedLine d, lookupsLine plan plan.lookups times.lookups], false⟩) ∧
    ∀ t, d.vocabulary.lookup? energyTag = some t →
      report plan times d =
        ⟨[loadedLine d, lookupsLine plan plan.lookups times.lookups] ++
          rangeLines plan times.searches (hits plan t d), true⟩ ∧
      ∃ q, Query.ofParameters d.vocabulary (search plan) = .ok q ∧
        ∀ f ∈ (q.page d).foods, f.measurements.head?.bind (·.reading.value) ≠ none := by
  have hv := Dataset.holds_vocabulary h
  refine ⟨fun i hi => ?lookups, fun hnone => ?unknown, fun t ht => ?known⟩
  case lookups =>
    rw [← position_of_lt (hlookups i hi)]
    exact exists_lookup h (Dataset.isEmpty_eq_false_iff.1 hfoods) i
  case unknown =>
    rw [report_eq h hfoods htags, ofParameters_search_of_unknown hv (hv.lookup?_eq_none_iff.1 hnone)]
  case known =>
    obtain ⟨hmem, hname⟩ := hv.lookup?_eq_some_iff.1 ht
    have hsearch : Query.ofParameters d.vocabulary (search plan) = .ok (rangeQuery plan t) :=
      ofParameters_search hv hmem hname
    refine ⟨?_, _, hsearch, fun f => head?_ne_none_of_mem hmin hmax h⟩
    rw [report_eq h hfoods htags, hsearch, ← searchLines_rangeQuery hmin hmax h]

/-- One food of the sample has more than 19 and less than 21 kcal; one has none, and one has zero. -/
theorem exists_hits_sample (h : Dataset.ofTable Dataset.sampleRows Dataset.sampleRecords = .ok d)
    (hmin : plan.minEnergy = 19) (hmax : plan.maxEnergy = 21) :
    ∃ f, f.name = "shiitake" ∧ hits plan ⟨"ENERC_KCAL", 0⟩ d = [(f, .ofNat 20)] := by
  have hrows := Dataset.gives_of_ofTable h
  unfold hits
  unfold Dataset.sampleRows at hrows
  generalize d.foods.toList = foods at hrows ⊢
  obtain _ | ⟨h₁, _ | ⟨h₂, _ | ⟨h₃, _ | _⟩⟩⟩ := hrows
  rename_i f₁ f₂ f₃
  have hvalue₁ : f₁.value? ⟨"ENERC_KCAL", 0⟩ = some (.ofNat 20) :=
    (h₁.value?_eq (j := 0) rfl rfl).trans (by decide +kernel)
  have hvalue₂ : f₂.value? ⟨"ENERC_KCAL", 0⟩ = none :=
    (h₂.value?_eq (j := 0) rfl rfl).trans (by decide +kernel)
  have hvalue₃ : f₃.value? ⟨"ENERC_KCAL", 0⟩ = some (.ofNat 0) :=
    (h₃.value?_eq (j := 0) rfl rfl).trans (by decide +kernel)
  have htwenty : (ofNat 20).value = 20 :=
    (rounds_ofNat 20).value_eq (Nat.cast_nonneg _) (isRepresentable_of_le (by decide))
  have hzero : (ofNat 0).value = 0 := value_eq_zero_iff.2 (by decide)
  have henergy₁ : energy? plan ⟨"ENERC_KCAL", 0⟩ f₁ = some (.ofNat 20) := by
    rw [energy?_eq_some_iff, hmin, hmax, htwenty]
    exact ⟨hvalue₁, by norm_num⟩
  have henergy₂ : energy? plan ⟨"ENERC_KCAL", 0⟩ f₂ = none := by
    unfold energy?
    rw [hvalue₂]
    rfl
  have henergy₃ : energy? plan ⟨"ENERC_KCAL", 0⟩ f₃ = none := by
    unfold energy?
    simp [hvalue₃, hzero]
  refine ⟨f₁, (Option.some.inj (Option.some.inj h₁.name)).symm, ?_⟩
  simp [henergy₁, henergy₂, henergy₃]

/-- The report on the sample. -/
theorem report_truthful_sample : ∃ d,
    Dataset.ofTable Dataset.sampleRows Dataset.sampleRecords = .ok d ∧
    let plan : Plan := { lookups := 5, searches := 2, minEnergy := 19, maxEnergy := 21 }
    report plan ⟨"1ms", "3ms"⟩ d =
      ⟨["Loaded 3 foods, 2 nutrient tags", "Lookups: 5 in 1ms (5 found)",
        "Range searches: 2 in 3ms", "Foods with 19..21 kcal: 1", "First 1:",
        "- shiitake: 20 kcal"], true⟩ := by
  obtain ⟨d, hd⟩ := Dataset.exists_ofTable_sample
  refine ⟨d, hd, ?_⟩
  intro plan
  have hv := Dataset.holds_vocabulary hd
  have henergy : d.vocabulary.lookup? energyTag = some ⟨"ENERC_KCAL", 0⟩ :=
    hv.lookup?_eq_some_iff.2 ⟨by decide, rfl⟩
  have hsize : d.size = 3 := (Dataset.gives_of_ofTable hd).length_eq.symm
  have htags : d.vocabulary.size = 2 := hv.size
  have hlookups : ∀ i < plan.lookups, i * stride < pow2 64 := by decide
  obtain ⟨-, -, hreport⟩ := report_truthful hd (Dataset.isEmpty_eq_false_iff.2 (by omega))
    (by simp [Vocabulary.isEmpty, htags]) hlookups (by decide) (by decide) ⟨"1ms", "3ms"⟩
  obtain ⟨f, hname, hhits⟩ : ∃ f, f.name = "shiitake" ∧ hits plan _ d = [(f, .ofNat 20)] :=
    exists_hits_sample hd rfl rfl
  have hline : hitLine (f, .ofNat 20) = "- shiitake: 20 kcal" := by
    unfold hitLine
    dsimp only
    rw [hname]
    decide +kernel
  rw [(hreport _ henergy).1, hhits]
  unfold loadedLine rangeLines
  rw [hsize, htags, List.take_of_length_le (Nat.le_add_left 1 4), List.map_singleton, hline,
    List.length_singleton]
  decide +kernel

end FoodTable.Benchmark
