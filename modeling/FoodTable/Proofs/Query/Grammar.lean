import FoodTable.Proofs.Query.Tokens

/-!
# Parameters and the queries that they state

Parameters make a query exactly if each of them is well formed. Each part of the query is stated by
its own parameter (`Query.StatedBy`), and parameters that make no query are refused for the first
fault in reading order (`Parameter.Fault`), whatever else is wrong with them.
-/

namespace FoodTable

open Grammar Text

/-- The parameters that can be at fault. -/
inductive Parameter where
  | category
  | nutrients
  | conditions
  | order
  | offset
  | limit
  deriving DecidableEq, Repr

namespace Parameter

/-- The order in which parameters are read. -/
def inOrder : List Parameter := [category, nutrients, conditions, order, offset, limit]

/-- Every token of the list is valid. -/
def ListOf (valid : String → Prop) (s : String) : Prop := ∃ ts, IsTokens s ts ∧ ∀ t ∈ ts, valid t

/-- The tokens of `order`, then those of each `orders`. -/
def IsOrderTokens (p : Parameters) (ts : List String) : Prop :=
  ∃ tss, List.Forall₂ IsTokens (p.order.toList ++ p.orders) tss ∧ tss.flatten = ts

/-- The parameter is not given, or what is given can be read. -/
def WellFormed (v : Vocabulary) (records : List TagRecord) (p : Parameters) : Parameter → Prop
  | category => ∀ s, p.category = some s → ListOf (fun t => ∃ code, Category.Denotes t.toList code) s
  | nutrients => ∀ s, p.nutrients = some s → ListOf (· ∈ records.map (·.name)) s
  | conditions => ∀ s, p.conditions = some s → ListOf (fun t => ∃ c, condition v t = .ok c) s
  | order => ∃ ts, IsOrderTokens p ts ∧ ∀ t ∈ ts, ∃ k, StatesKey records t k
  | offset => ∀ s, p.offset = some s → ∃ n, StatesOffset s n
  | limit => ∀ s, p.limit = some s → ∃ n, StatesLimit s n

/-- The parameter is given and `e` is its leftmost fault. -/
def Fault (v : Vocabulary) (records : List TagRecord) (p : Parameters) :
    Parameter → QueryError → Prop
  | category, e => ∃ s, p.category = some s ∧ ListFault CategoryFault s e
  | nutrients, e => ∃ s, p.nutrients = some s ∧ ListFault (NutrientFault records) s e
  | conditions, e =>
    ∃ s, p.conditions = some s ∧ ListFault (fun t e => condition v t = .error e) s e
  | order, e => ∃ ts, IsOrderTokens p ts ∧ FirstFault (KeyFault records) ts e
  | offset, e => ∃ s, p.offset = some s ∧ OffsetFault s e
  | limit, e => ∃ s, p.limit = some s ∧ LimitFault s e

end Parameter

namespace Query

/-- The sort keys are what the order tokens state, one for each token and in their order. There are
none if no order is given. -/
def OrderStatedBy (records : List TagRecord) (p : Parameters) : Option (List SortKey) → Prop
  | none => p.order = none ∧ p.orders = []
  | some keys => (p.order ≠ none ∨ p.orders ≠ []) ∧
    ∃ ts, Parameter.IsOrderTokens p ts ∧ List.Forall₂ (StatesKey records) ts keys

/-- The value is what the text states, and a default if there is no text. -/
def StatedOr (default : Nat) (states : String → Nat → Prop) : Option String → Nat → Prop
  | none, n => n = default
  | some s, n => states s n

/-- Each part of the query is what its own parameter states. -/
structure StatedBy (v : Vocabulary) (records : List TagRecord) (p : Parameters) (q : Query) :
    Prop where
  categories : Option.Rel (StatesSet (fun t => Category.Denotes t.toList) Category.codes)
    p.category q.categories
  name : q.name = p.name.filter (· ≠ "")
  conditions : Option.Rel (StatesList fun t c => condition v t = .ok c) p.conditions q.conditions
  nutrients : Option.Rel (StatesSet (Names records) (tagsOf records)) p.nutrients q.nutrients
  order : OrderStatedBy records p q.order
  offset : StatedOr 0 StatesOffset p.offset q.offset
  limit : StatedOr 10 StatesLimit p.limit q.limit

end Query

variable {v : Vocabulary} {records : List TagRecord} {p p' : Parameters} {q q' : Query}
  {e : QueryError}

/-! ## Order tokens -/

namespace Grammar

theorem forall₂_isTokens_iff {ss : List String} {tss : List (List String)} :
    List.Forall₂ IsTokens ss tss ↔ ss.map tokens = tss := by
  rw [← List.forall₂_eq_eq_eq, List.forall₂_map_left_iff]
  simp only [tokens_eq_iff]

theorem isOrderTokens_iff {ts : List String} :
    Parameter.IsOrderTokens p ts ↔ orderTokens p = ts := by
  unfold Parameter.IsOrderTokens orderTokens
  simp only [forall₂_isTokens_iff, exists_eq_left', List.flatMap_def]

theorem orderTokens_eq_nil_iff : orderTokens p = [] ↔ p.order = none ∧ p.orders = [] := by
  unfold orderTokens
  rw [List.flatMap_eq_nil_iff]
  constructor
  · intro h
    have hnil : p.order.toList ++ p.orders = [] :=
      List.eq_nil_iff_forall_not_mem.2 fun s hs => tokens_ne_nil s (h s hs)
    simpa using hnil
  · rintro ⟨ho, hos⟩ s hs
    simp [ho, hos] at hs

theorem order_of_nil (h : orderTokens p = []) : order v p = .ok none := by
  unfold order
  rw [h]

theorem order_of_ne_nil (h : orderTokens p ≠ []) :
    order v p = ((orderTokens p).mapM (sortKey v)).map some := by
  unfold order
  split
  · contradiction
  · rfl

theorem order_eq_ok_iff (h : v.Holds records) {r : Option (List SortKey)} :
    order v p = .ok r ↔ Query.OrderStatedBy records p r := by
  have hgiven : p.order ≠ none ∨ p.orders ≠ [] ↔ orderTokens p ≠ [] := by
    rw [ne_eq (orderTokens p), orderTokens_eq_nil_iff, not_and_or]
  by_cases hnil : orderTokens p = []
  · rw [order_of_nil hnil]
    cases r with
    | none => exact iff_of_true rfl (orderTokens_eq_nil_iff.1 hnil)
    | some keys => exact iff_of_false (nomatch ·) fun hr => hgiven.1 hr.1 hnil
  · rw [order_of_ne_nil hnil, map_eq_ok_iff]
    cases r with
    | none =>
      refine iff_of_false (fun ⟨_, _, hr⟩ => nomatch hr) fun hr => ?_
      exact hnil (orderTokens_eq_nil_iff.2 hr)
    | some keys =>
      dsimp only [Query.OrderStatedBy]
      rw [and_iff_right (hgiven.2 hnil)]
      simp only [Option.some.injEq, exists_eq_right, isOrderTokens_iff, exists_eq_left',
        mapM_eq_ok_iff, sortKey_eq_ok_iff h]

theorem order_eq_error_iff (h : v.Holds records) :
    order v p = .error e ↔ Parameter.Fault v records p .order e := by
  unfold Parameter.Fault
  simp only [isOrderTokens_iff, exists_eq_left']
  by_cases hnil : orderTokens p = []
  · rw [order_of_nil hnil, hnil]
    exact iff_of_false (nomatch ·) not_firstFault_nil
  · rw [order_of_ne_nil hnil, map_eq_error_iff, mapM_eq_error_iff]
    exact firstFault_congr fun _ _ => sortKey_eq_error_iff h

theorem offset_eq_ok_iff_stated {o : Option String} {n : Nat} :
    offset o = .ok n ↔ Query.StatedOr 0 StatesOffset o n := by
  cases o with
  | some s => exact offset_eq_ok_iff
  | none =>
    constructor
    · exact fun h => (Except.ok.inj h).symm
    · rintro rfl
      rfl

theorem offset_eq_error_iff_exists {o : Option String} :
    offset o = .error e ↔ ∃ s, o = some s ∧ OffsetFault s e := by
  cases o with
  | some s => simp only [Option.some.injEq, exists_eq_left', offset_eq_error_iff]
  | none => exact iff_of_false (nomatch ·) fun ⟨_, h, _⟩ => nomatch h

theorem limit_eq_ok_iff_stated {o : Option String} {n : Nat} :
    limit o = .ok n ↔ Query.StatedOr 10 StatesLimit o n := by
  cases o with
  | some s => exact limit_eq_ok_iff
  | none =>
    constructor
    · exact fun h => (Except.ok.inj h).symm
    · rintro rfl
      rfl

theorem limit_eq_error_iff_exists {o : Option String} :
    limit o = .error e ↔ ∃ s, o = some s ∧ LimitFault s e := by
  cases o with
  | some s => simp only [Option.some.injEq, exists_eq_left', limit_eq_error_iff]
  | none => exact iff_of_false (nomatch ·) fun ⟨_, h, _⟩ => nomatch h

end Grammar

/-! ## All parameters -/

namespace Query

theorem ofParameters_eq_ok_iff : ofParameters v p = .ok q ↔
    p.category.mapM Grammar.categories = .ok q.categories ∧
    p.nutrients.mapM (Grammar.nutrients v) = .ok q.nutrients ∧
    p.conditions.mapM (Grammar.conditions v) = .ok q.conditions ∧
    Grammar.order v p = .ok q.order ∧ Grammar.offset p.offset = .ok q.offset ∧
    Grammar.limit p.limit = .ok q.limit ∧ p.name.filter (· ≠ "") = q.name := by
  unfold ofParameters
  simp only [bind_eq_ok_iff]
  constructor
  · rintro ⟨categories, hc, nutrients, hn, conditions, hw, order, ho, offset, hof, limit, hl, h⟩
    obtain rfl := Except.ok.inj h
    exact ⟨hc, hn, hw, ho, hof, hl, rfl⟩
  · rintro ⟨hc, hn, hw, ho, hof, hl, hname⟩
    exact ⟨_, hc, _, hn, _, hw, _, ho, _, hof, _, hl, by rw [hname]; rfl⟩

theorem ofParameters_eq_ok_iff_statedBy (h : v.Holds records) :
    ofParameters v p = .ok q ↔ q.StatedBy v records p := by
  rw [ofParameters_eq_ok_iff]
  simp only [option_mapM_eq_ok_iff, categories_eq_ok_iff, nutrients_eq_ok_iff h, Grammar.conditions,
    mapM_tokens_eq_ok_iff fun _ _ => Iff.rfl, order_eq_ok_iff h, offset_eq_ok_iff_stated,
    limit_eq_ok_iff_stated]
  constructor
  · rintro ⟨hc, hn, hw, ho, hof, hl, hname⟩
    exact ⟨hc, hname.symm, hw, hn, ho, hof, hl⟩
  · rintro ⟨hc, hname, hw, hn, ho, hof, hl⟩
    exact ⟨hc, hn, hw, ho, hof, hl, hname.symm⟩

/-- The fault is that of the first parameter that has one. -/
theorem ofParameters_eq_error_iff (h : v.Holds records) : ofParameters v p = .error e ↔
    FirstFault (Parameter.Fault v records p) Parameter.inOrder e := by
  have hsteps : ofParameters v p = .error e ↔ _ :=
    bind_eq_error_iff_of_forall fun _ => bind_eq_error_iff_of_forall fun _ =>
      bind_eq_error_iff_of_forall fun _ => bind_eq_error_iff_of_forall fun _ =>
        bind_eq_error_iff_of_forall fun _ => bind_eq_error_iff_of_forall fun _ =>
          iff_of_false (nomatch ·) not_false
  rw [hsteps]
  unfold Parameter.inOrder
  simp only [firstFault_cons_iff, not_firstFault_nil, option_mapM_eq_error_iff,
    categories_eq_error_iff, nutrients_eq_error_iff h, Grammar.conditions,
    mapM_tokens_eq_error_iff fun _ _ => Iff.rfl, order_eq_error_iff h, offset_eq_error_iff_exists,
    limit_eq_error_iff_exists, Parameter.Fault]

end Query

namespace Parameter

theorem forall_some_iff {o : Option String} {valid : String → Prop}
    {fault : String → QueryError → Prop} (h : ∀ s, valid s ↔ ∀ e, ¬ fault s e) :
    (∀ s, o = some s → valid s) ↔ ∀ e, ¬ ∃ s, o = some s ∧ fault s e := by
  simp only [h, not_exists, not_and]
  exact ⟨fun hs e s ho => hs s ho e, fun he s ho e => he e s ho⟩

theorem listOf_iff {α : Type} {valid : String → Prop} {fault : String → QueryError → Prop}
    {read : String → Except QueryError α} (hvalid : ∀ t, valid t ↔ ∃ a, read t = .ok a)
    (hfault : ∀ t e, read t = .error e ↔ fault t e) (s : String) :
    ListOf valid s ↔ ∀ e, ¬ ListFault fault s e := by
  unfold ListOf ListFault
  simp only [exists_isTokens_iff, hvalid, forall_not_firstFault_iff, ← hfault,
    exists_ok_iff_forall_ne_error]

/-- A parameter is well formed exactly if it has no fault. -/
theorem wellFormed_iff (h : v.Holds records) (k : Parameter) :
    k.WellFormed v records p ↔ ∀ e, ¬ k.Fault v records p e := by
  cases k with
  | category =>
    refine forall_some_iff (listOf_iff (fun t => ?_) fun _ _ => category_eq_error_iff)
    simp only [category_eq_ok_iff]
  | nutrients =>
    refine forall_some_iff (listOf_iff (fun t => ?_) fun _ _ => nutrient_eq_error_iff h)
    simp only [nutrient_eq_ok_iff h, exists_names_iff]
  | conditions => exact forall_some_iff (listOf_iff (fun _ => Iff.rfl) fun _ _ => Iff.rfl)
  | order =>
    unfold WellFormed Fault
    simp only [isOrderTokens_iff, exists_eq_left', forall_not_firstFault_iff,
      ← sortKey_eq_ok_iff h, ← sortKey_eq_error_iff h, exists_ok_iff_forall_ne_error]
  | offset =>
    refine forall_some_iff fun s => ?_
    simp only [← offset_eq_ok_iff, ← offset_eq_error_iff, exists_ok_iff_forall_ne_error]
  | limit =>
    refine forall_some_iff fun s => ?_
    simp only [← limit_eq_ok_iff, ← limit_eq_error_iff, exists_ok_iff_forall_ne_error]

end Parameter

namespace Query

theorem exists_ofParameters_iff (h : v.Holds records) :
    (∃ q, ofParameters v p = .ok q) ↔ ∀ k : Parameter, k.WellFormed v records p := by
  have hall (k : Parameter) : k ∈ Parameter.inOrder := by cases k <;> decide
  simp only [exists_ok_iff_forall_ne_error, ofParameters_eq_error_iff h, forall_not_firstFault_iff,
    Parameter.wellFormed_iff h]
  exact ⟨fun hk k => hk k (hall k), fun hk k _ => hk k⟩

/-- The parts of two queries are equal where their parameters are. -/
structure AgreeWhere (p p' : Parameters) (q q' : Query) : Prop where
  categories : p.category = p'.category → q.categories = q'.categories
  name : p.name = p'.name → q.name = q'.name
  conditions : p.conditions = p'.conditions → q.conditions = q'.conditions
  nutrients : p.nutrients = p'.nutrients → q.nutrients = q'.nutrients
  order : p.order = p'.order → p.orders = p'.orders → q.order = q'.order
  offset : p.offset = p'.offset → q.offset = q'.offset
  limit : p.limit = p'.limit → q.limit = q'.limit

theorem agreeWhere (h : ofParameters v p = .ok q) (h' : ofParameters v p' = .ok q') :
    AgreeWhere p p' q q' := by
  obtain ⟨hc, hn, hw, ho, hof, hl, hname⟩ := ofParameters_eq_ok_iff.1 h
  obtain ⟨hc', hn', hw', ho', hof', hl', hname'⟩ := ofParameters_eq_ok_iff.1 h'
  constructor
  · exact fun e => Except.ok.inj (hc.symm.trans (e ▸ hc'))
  · exact fun e => hname.symm.trans (e ▸ hname')
  · exact fun e => Except.ok.inj (hw.symm.trans (e ▸ hw'))
  · exact fun e => Except.ok.inj (hn.symm.trans (e ▸ hn'))
  · intro e es
    have htokens : orderTokens p = orderTokens p' := by
      unfold orderTokens
      rw [e, es]
    have horder : Grammar.order v p = Grammar.order v p' := by
      unfold Grammar.order
      rw [htokens]
    exact Except.ok.inj (ho.symm.trans (horder.trans ho'))
  · exact fun e => Except.ok.inj (hof.symm.trans (e ▸ hof'))
  · exact fun e => Except.ok.inj (hl.symm.trans (e ▸ hl'))

/-- Parameters make a query exactly if each of them is well formed. If not, they are refused for
the leftmost fault of the first parameter that has one. If so, each part of the query is what its
own parameter states, and depends on no other. -/
theorem ofParameters_grammar (h : Vocabulary.ofRecords records = .ok v) (p : Parameters) :
    ((∃ q, ofParameters v p = .ok q) ↔ ∀ k : Parameter, k.WellFormed v records p) ∧
    (∀ e, ofParameters v p = .error e ↔
      FirstFault (Parameter.Fault v records p) Parameter.inOrder e) ∧
    (∀ q, ofParameters v p = .ok q ↔ q.StatedBy v records p) ∧
    ∀ p' q q', ofParameters v p = .ok q → ofParameters v p' = .ok q' → AgreeWhere p p' q q' := by
  have hv := Vocabulary.holds_of_ofRecords h
  refine ⟨exists_ofParameters_iff hv, fun e => ofParameters_eq_error_iff hv,
    fun q => ofParameters_eq_ok_iff_statedBy hv, fun p' q q' => agreeWhere⟩

/-- A fault in the second order list counts before a bad offset and after a good category. -/
theorem ofParameters_grammar_sample : ∃ v, Vocabulary.ofRecords Dataset.sampleRecords = .ok v ∧
    ofParameters v { category := some "8, +011", order := some " -WATER", orders := ["WATER, -,x"],
                     offset := some "-1" } = .error (.invalidOrder "-") := by
  obtain ⟨v, hv, hholds⟩ := @Vocabulary.exists_ofRecords Dataset.sampleRecords (by decide)
  refine ⟨v, hv, ((ofParameters_grammar hv _).2.1 _).2 ?_⟩
  refine ⟨[.category, .nutrients, .conditions], .order, [.offset, .limit], rfl, ?_, ?_⟩
  · simp only [List.forall_mem_cons, List.not_mem_nil, false_implies, implies_true, and_true,
      ← Parameter.wellFormed_iff hholds]
    refine ⟨?_, nofun, nofun⟩
    rintro _ ⟨⟩
    refine ⟨["8", " +011"], tokens_eq_iff.1 (by decide), ?_⟩
    simp only [List.forall_mem_cons, List.not_mem_nil, false_implies, implies_true, and_true]
    exact ⟨⟨8, Category.code?_eq_some_iff.1 (by decide)⟩,
      ⟨11, Category.code?_eq_some_iff.1 (by decide)⟩⟩
  · have htag : (⟨"WATER", 1⟩ : Tag) ∈ tagsOf Dataset.sampleRecords := by decide
    have hwater (token : String) (descending : Bool)
        (ht : TrimsTo token.toList (if descending then "-WATER".toList else "WATER".toList)) :
        ∀ e, ¬ KeyFault Dataset.sampleRecords token e := by
      simp only [← sortKey_eq_error_iff hholds, ← exists_ok_iff_forall_ne_error,
        sortKey_eq_ok_iff hholds]
      refine ⟨⟨⟨"WATER", 1⟩, descending⟩, _, "WATER".toList, ht, ?_, by decide, htag, rfl⟩
      cases descending with
      | true => exact .inl (by decide)
      | false => exact .inr (by decide)
    refine ⟨_, isOrderTokens_iff.2 rfl, [" -WATER", "WATER"], " -", ["x"], by decide, ?_, ?_⟩
    · simp only [List.forall_mem_cons, List.not_mem_nil, false_implies, implies_true, and_true]
      exact ⟨hwater " -WATER" true (trim_eq_iff.1 (by decide)),
        hwater "WATER" false (trim_eq_iff.1 (by decide))⟩
    · exact ⟨['-'], [], true, trim_eq_iff.1 (by decide), .inl ⟨rfl, rfl⟩, .inl ⟨rfl, rfl⟩⟩

end Query

end FoodTable
