import FoodTable.Proofs.Service.PageBodies

/-!
# Answers

Which answer a request for foods or for one food gets. The answers fall into classes
(`FoodsAnswer`, `FoodAnswer`), each with its status and with what its body says, and every request
gets the answer of the one class that it is in. A request for one food is judged in this order: the
id, the nutrients, whether a food has the id.
-/

namespace FoodTable

open Json Response

variable {d : Dataset} {s : Service} {rows : List Row} {records : List TagRecord}
  {pairs pairs' : List (String × String)} {segment : List Char} {id : String} {response : Response}

/-! ## The page of foods -/

/-- The answer to a request for foods: the page that the parameters ask for, with nothing lost, or
why they do not make a query. -/
inductive FoodsAnswer (rows : List Row) (records : List TagRecord) (d : Dataset)
    (pairs : List (String × String)) (response : Response) : Prop
  | page {q : Query} {t : Tree} (hq : Query.ofParameters d.vocabulary (.ofPairs pairs) = .ok q)
      (hpage : (q.page d).ShownBy rows records t)
      (hresponse : response.IsJson 200 (q.page d).toJson t)
  | refused {e : QueryError} (he : Query.ofParameters d.vocabulary (.ofPairs pairs) = .error e)
      (hresponse : response.IsRefusal 400 e.message)

theorem foodsAnswer_iff (h : Dataset.ofTable rows records = .ok s.dataset)
    (pairs : List (String × String)) (response : Response) :
    s.respond (.getFoods pairs) = response ↔
      FoodsAnswer rows records s.dataset pairs response := by
  rw [Service.respond_getFoods, Service.get_foods]
  cases hq : Query.ofParameters s.dataset.vocabulary (.ofPairs pairs) with
  | ok q =>
    constructor
    · rintro rfl
      exact .page hq (Page.shownBy_toJson h q) (isJson_iff.2 ⟨rfl, rfl⟩)
    · rintro (⟨hq', -, hresponse⟩ | ⟨he, -⟩)
      · obtain rfl := Except.ok.inj (hq.symm.trans hq')
        exact (isJson_iff.1 hresponse).1.symm
      · cases hq.symm.trans he
  | error e =>
    constructor
    · rintro rfl
      exact .refused hq (isRefusal_iff.2 rfl)
    · rintro (⟨hq', -, -⟩ | ⟨he, hresponse⟩)
      · cases hq.symm.trans hq'
      · obtain rfl := Except.error.inj (hq.symm.trans he)
        exact (isRefusal_iff.1 hresponse).symm

/-! ## One food -/

/-- The leftmost token of the list that names no tag. -/
def LeftmostUnknown (records : List TagRecord) (list token : String) : Prop :=
  ∃ before after, Grammar.IsTokens list (before ++ token :: after) ∧
    (∀ t ∈ before, t ∈ records.map (·.name)) ∧ token ∉ records.map (·.name)

/-- The tags that a list of nutrients names, if there is one. -/
def AskedFor (records : List TagRecord) : Option String → Option (List Tag) → Prop :=
  Option.Rel (Grammar.StatesSet (Grammar.Names records) (tagsOf records))

/-- The answer to a request for the food of an id, by the first fault that the request has. Without
a fault it is the food with the nutrients asked for, with nothing lost. -/
inductive FoodAnswer (rows : List Row) (records : List TagRecord) (d : Dataset) (id : String)
    (pairs : List (String × String)) (response : Response) : Prop
  | invalidId (hid : ¬ (id.toList.length = 5 ∧ ∀ c ∈ id.toList, c.isDigit = true))
      (hresponse : response.IsRefusal 400 ("Invalid food id '" ++ id ++ "': expected 5 digits"))
  | unknownNutrient {list token : String}
      (hid : id.toList.length = 5 ∧ ∀ c ∈ id.toList, c.isDigit = true)
      (hlist : Parameters.first? "nutrients" pairs = some list)
      (htoken : LeftmostUnknown records list token)
      (hresponse : response.IsRefusal 400 ("Unknown nutrient tag '" ++ token ++ "'"))
  | unknownFood {tags : Option (List Tag)}
      (hid : id.toList.length = 5 ∧ ∀ c ∈ id.toList, c.isDigit = true)
      (htags : AskedFor records (Parameters.first? "nutrients" pairs) tags)
      (hfood : ∀ f ∈ d.foods, f.id ≠ id)
      (hresponse : response.IsRefusal 404 ("Food '" ++ id ++ "' not found"))
  | food {tags : Option (List Tag)} {f : Food} {t : Tree}
      (hid : id.toList.length = 5 ∧ ∀ c ∈ id.toList, c.isDigit = true)
      (htags : AskedFor records (Parameters.first? "nutrients" pairs) tags)
      (hfood : f ∈ d.foods) (hf : f.id = id) (hshown : (f.keepOnly tags).ShownBy rows records t)
      (hresponse : response.IsJson 200 (f.keepOnly tags).toJson t)

theorem listFault_nutrient_iff {list : String} {e : QueryError} :
    Grammar.ListFault (Grammar.NutrientFault records) list e ↔
      ∃ token, LeftmostUnknown records list token ∧ e = .unknownNutrient token := by
  have hknown (t : String) :
      (∀ e', ¬ Grammar.NutrientFault records t e') ↔ t ∈ records.map (·.name) := by
    unfold Grammar.NutrientFault
    simp
  unfold Grammar.ListFault FirstFault LeftmostUnknown
  simp only [hknown]
  constructor
  · rintro ⟨_, hts, before, token, after, rfl, hbefore, htoken, he⟩
    exact ⟨token, ⟨before, after, hts, hbefore, htoken⟩, he⟩
  · rintro ⟨token, ⟨before, after, hts, hbefore, htoken⟩, he⟩
    exact ⟨_, hts, before, token, after, rfl, hbefore, htoken, he⟩

namespace FoodQuery

variable {v : Vocabulary} {p : Parameters} {r : FoodQuery} {e : QueryError}

theorem ofParameters_eq_ok_iff_askedFor (hv : v.Holds records) : ofParameters v id p = .ok r ↔
    isFoodId id = true ∧ r.id = id ∧ AskedFor records p.nutrients r.nutrients := by
  rw [ofParameters_eq_ok_iff, option_mapM_eq_ok_iff]
  simp only [Grammar.nutrients_eq_ok_iff hv]
  rfl

theorem ofParameters_of_not_isFoodId (hid : isFoodId id = false) :
    ofParameters v id p = .error (.invalidFoodId id) := by
  unfold ofParameters
  rw [hid]
  rfl

/-- A request with a food id is refused for the leftmost unknown nutrient, and for nothing else. -/
theorem ofParameters_eq_error_iff (hv : v.Holds records) (hid : isFoodId id = true) :
    ofParameters v id p = .error e ↔ ∃ list token, p.nutrients = some list ∧
      LeftmostUnknown records list token ∧ e = .unknownNutrient token := by
  have hread : ofParameters v id p =
      (p.nutrients.mapM (Grammar.nutrients v)).map fun nutrients => ⟨id, nutrients⟩ := by
    unfold ofParameters
    rw [hid]
    cases p.nutrients.mapM (Grammar.nutrients v) <;> rfl
  rw [hread, map_eq_error_iff, option_mapM_eq_error_iff]
  simp only [Grammar.nutrients_eq_error_iff hv, listFault_nutrient_iff, ← exists_and_left]

end FoodQuery

section Classes

variable (h : Dataset.ofTable rows records = .ok s.dataset)

include h

/-- Each class has its answer. -/
theorem FoodAnswer.eq_get (hid : Url.segment? segment = some id)
    (ha : FoodAnswer rows records s.dataset id pairs response) :
    s.get pairs (.food (String.ofList segment)) = response := by
  have hv := Dataset.holds_vocabulary h
  rw [Service.get_food s hid]
  cases ha with
  | invalidId hdigits hresponse =>
    have hnot := Bool.eq_false_iff.2 (mt Row.isFoodId_iff.1 hdigits)
    rw [FoodQuery.ofParameters_of_not_isFoodId hnot]
    exact (isRefusal_iff.1 hresponse).symm
  | unknownNutrient hdigits hlist htoken hresponse =>
    rw [(FoodQuery.ofParameters_eq_error_iff hv (Row.isFoodId_iff.2 hdigits)).2
      ⟨_, _, hlist, htoken, rfl⟩]
    exact (isRefusal_iff.1 hresponse).symm
  | @unknownFood tags hdigits htags hfood hresponse =>
    have hq := (FoodQuery.ofParameters_eq_ok_iff_askedFor (p := .ofPairs pairs) (r := ⟨id, tags⟩)
      hv).2 ⟨Row.isFoodId_iff.2 hdigits, rfl, htags⟩
    have hnone : FoodQuery.food? ⟨id, tags⟩ s.dataset = none := by
      rw [Option.eq_none_iff_forall_ne_some]
      intro f hf
      obtain ⟨g, hg, hgid, -⟩ := (FoodQuery.food?_eq_some_iff h).1 hf
      exact hfood g hg hgid
    rw [hq]
    dsimp only
    rw [hnone, Option.elim_none]
    exact (isRefusal_iff.1 hresponse).symm
  | @food tags f t hdigits htags hfood hf hshown hresponse =>
    have hq := (FoodQuery.ofParameters_eq_ok_iff_askedFor (p := .ofPairs pairs) (r := ⟨id, tags⟩)
      hv).2 ⟨Row.isFoodId_iff.2 hdigits, rfl, htags⟩
    have hsome : FoodQuery.food? ⟨id, tags⟩ s.dataset = some (f.keepOnly tags) :=
      (FoodQuery.food?_eq_some_iff h).2 ⟨f, hfood, hf, Food.narrowTo_eq_keepOnly tags f⟩
    rw [hq]
    dsimp only
    rw [hsome, Option.elim_some]
    exact (isJson_iff.1 hresponse).1.symm

/-- Every request is in a class. -/
theorem exists_foodAnswer (id : String) (pairs : List (String × String)) :
    ∃ response, FoodAnswer rows records s.dataset id pairs response := by
  have hv := Dataset.holds_vocabulary h
  by_cases hdigits : id.toList.length = 5 ∧ ∀ c ∈ id.toList, c.isDigit = true
  · cases hq : FoodQuery.ofParameters s.dataset.vocabulary id (.ofPairs pairs) with
    | error e =>
      obtain ⟨list, token, hlist, htoken, -⟩ :=
        (FoodQuery.ofParameters_eq_error_iff hv (Row.isFoodId_iff.2 hdigits)).1 hq
      exact ⟨_, .unknownNutrient hdigits hlist htoken (isRefusal_iff.2 rfl)⟩
    | ok q =>
      obtain ⟨-, rfl, htags⟩ := (FoodQuery.ofParameters_eq_ok_iff_askedFor hv).1 hq
      by_cases hfood : ∃ f ∈ s.dataset.foods, f.id = q.id
      · obtain ⟨f, hf, hfid⟩ := hfood
        exact ⟨_, .food hdigits htags hf hfid (Food.shownBy_keepOnly h hf _)
          (isJson_iff.2 ⟨rfl, rfl⟩)⟩
      · exact ⟨_, .unknownFood hdigits htags (fun f hf hfid => hfood ⟨f, hf, hfid⟩)
          (isRefusal_iff.2 rfl)⟩
  · exact ⟨_, .invalidId hdigits (isRefusal_iff.2 rfl)⟩

end Classes

/-- Of the pairs, only the first nutrients count. -/
theorem FoodAnswer.congr
    (hsame : Parameters.first? "nutrients" pairs = Parameters.first? "nutrients" pairs')
    (ha : FoodAnswer rows records d id pairs response) :
    FoodAnswer rows records d id pairs' response := by
  cases ha with
  | invalidId hid hresponse => exact .invalidId hid hresponse
  | unknownNutrient hid hlist htoken hresponse =>
    exact .unknownNutrient hid (hsame ▸ hlist) htoken hresponse
  | unknownFood hid htags hfood hresponse =>
    exact .unknownFood hid (hsame ▸ htags) hfood hresponse
  | food hid htags hfood hf hshown hresponse =>
    exact .food hid (hsame ▸ htags) hfood hf hshown hresponse

namespace Service

/-- Every request for foods and for one food gets the answer of its class, and a request for one
food gets the same answer whatever stands beside its first nutrients. -/
theorem respond_classified (h : Dataset.ofTable rows records = .ok s.dataset) :
    (∀ pairs response,
      s.respond (.getFoods pairs) = response ↔
        FoodsAnswer rows records s.dataset pairs response) ∧
    ∀ segment id, segment ≠ [] → '/' ∉ segment → Url.segment? segment = some id →
      (∀ pairs response, s.respond (.getFood segment pairs) = response ↔
        FoodAnswer rows records s.dataset id pairs response) ∧
      ∀ pairs pairs', Parameters.first? "nutrients" pairs = Parameters.first? "nutrients" pairs' →
        s.respond (.getFood segment pairs) = s.respond (.getFood segment pairs') := by
  refine ⟨foodsAnswer_iff h, fun segment id hne hslash hid => ?_⟩
  simp only [respond_getFood s hne hslash]
  constructor
  · intro pairs response
    constructor
    · rintro rfl
      obtain ⟨response, ha⟩ := exists_foodAnswer h id pairs
      rw [ha.eq_get h hid]
      exact ha
    · exact fun ha => ha.eq_get h hid
  · intro pairs pairs' hsame
    obtain ⟨response, ha⟩ := exists_foodAnswer h id pairs
    rw [ha.eq_get h hid, (ha.congr hsame).eq_get h hid]

/-- A page that is refused, and requests for single foods: with a bad id and a bad nutrient, with
an id that no food has, and for a food with one of its nutrients, whatever the other pairs are. -/
theorem respond_classified_sample : ∃ s : Service,
    Dataset.ofTable Dataset.sampleRows Dataset.sampleRecords = .ok s.dataset ∧
    s.respond (.getFoods [("limit", "x")]) = ⟨400, some "application/json", none,
      "\x7b\"error\":\"Invalid limit 'x': expected an integer\"\x7d"⟩ ∧
    s.respond (.getFood ['8'] [("nutrients", "?")]) = ⟨400, some "application/json", none,
      "\x7b\"error\":\"Invalid food id '8': expected 5 digits\"\x7d"⟩ ∧
    s.respond (.getFood "99999".toList [("limit", "?")]) = ⟨404, some "application/json", none,
      "\x7b\"error\":\"Food '99999' not found\"\x7d"⟩ ∧
    s.respond (.getFood "08039".toList [("limit", "?"), ("nutrients", "WATER")]) =
      ⟨200, some "application/json", none,
        "\x7b\"foodId\":\"08039\",\"category\":\" +08 \",\"index\":\"1\"," ++
        "\"foodName\":\"shiitake\",\"nutrients\":[\x7b\"tagName\":\"WATER\"," ++
        "\"value\":0.0,\"unit\":\"g\",\"isTraceAmount\":true,\"estimated\":true," ++
        "\"description\":\"\"\x7d]\x7d"⟩ ∧
    s.respond (.getFood "08039".toList [("limit", "?"), ("nutrients", "WATER")]) =
      s.respond (.getFood "08039".toList [("nutrients", "WATER"), ("nutrients", "?")]) := by
  obtain ⟨d, hd⟩ := Dataset.exists_ofTable_sample
  have hv := Dataset.holds_vocabulary hd
  have hmem (f : Food) : f ∈ d.foods ↔ f ∈ Dataset.sampleFoods := by
    rw [← Array.mem_toList_iff, Dataset.foods_sample hd]
  obtain ⟨hfoods, hfood⟩ := respond_classified (s := ⟨d, {}, ""⟩) hd
  have hanswer (segment : List Char) (id : String) (hne : segment ≠ []) (hslash : '/' ∉ segment)
      (hid : Url.segment? segment = some id) := (hfood segment id hne hslash hid).1
  refine ⟨⟨d, {}, ""⟩, hd, (hfoods _ _).2 ?limit, (hanswer ['8'] "8" ?_ ?_ ?_ _ _).2 ?id,
    (hanswer "99999".toList "99999" ?_ ?_ ?_ _ _).2 ?unknown,
    (hanswer "08039".toList "08039" ?_ ?_ ?_ _ _).2 ?food,
    (hfood "08039".toList "08039" ?_ ?_ ?_).2 _ _ (by decide)⟩
  case limit =>
    exact .refused (e := .invalidLimit "x") rfl (isRefusal_iff.2 (by decide +kernel))
  case id => exact .invalidId (by decide) (isRefusal_iff.2 (by decide +kernel))
  case unknown =>
    have htags : AskedFor Dataset.sampleRecords none none := .none
    refine .unknownFood (Row.isFoodId_iff.1 (by decide)) htags (fun f hf => ?_)
      (isRefusal_iff.2 (by decide +kernel))
    rw [hmem] at hf
    revert f
    decide
  case food =>
    have hwater : (⟨"WATER", 1⟩ : Tag) ∈ tagsOf Dataset.sampleRecords := by decide
    have htags : AskedFor Dataset.sampleRecords (some "WATER") (some [⟨"WATER", 1⟩]) :=
      .some (Grammar.statesSet_singleton (by decide) ⟨hwater, rfl⟩ hwater fun t ht =>
        tag_eq_of_name_eq hv.columns.nodup ht.1 hwater ht.2)
    have hshiitake := (hmem _).2 (List.mem_cons_self (l := Dataset.sampleFoods.tail))
    exact .food (Row.isFoodId_iff.1 (by decide)) htags hshiitake rfl
      (Food.shownBy_keepOnly hd hshiitake _) (isJson_iff.2 ⟨by decide +kernel, rfl⟩)
  all_goals decide

end Service

end FoodTable
