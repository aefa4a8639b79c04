import FoodTable.Proofs.Dataset.Loading
import FoodTable.Proofs.Query.Pairs
import FoodTable.Service.Basic
import Mathlib.Data.List.Induction
import Mathlib.Logic.Relation

/-!
# Pairs that make no difference

Parameters are read from pairs one at a time (`Parameters.take`). Of all pairs only the first value
of each single key counts, whatever it is, and every value of the list key, in the order of the pairs
(`Parameters.SameValues`). So pairs of different parameters do not depend on each other: they may
change places, and what does not count may stand anywhere (`Parameters.Edit`). No answer shows such
a change.
-/

namespace FoodTable

namespace Parameters

variable {p : Parameters} {ps ps' qs qs' : List (String × String)} {key value : String}
  {test : String → Bool}

/-! ## One pair at a time -/

/-- The parameters after one more pair. A single key takes its first value and no other, the list
key takes every value, and a pair with another key is passed over. -/
def take (p : Parameters) (pair : String × String) : Parameters :=
  match pair.1 with
  | "limit" => { p with limit := p.limit.or (some pair.2) }
  | "offset" => { p with offset := p.offset.or (some pair.2) }
  | "order" => { p with order := p.order.or (some pair.2) }
  | "nutrients" => { p with nutrients := p.nutrients.or (some pair.2) }
  | "category" => { p with category := p.category.or (some pair.2) }
  | "where" => { p with conditions := p.conditions.or (some pair.2) }
  | "foodName" => { p with name := p.name.or (some pair.2) }
  | "orders" | "orders[]" => { p with orders := p.orders ++ [pair.2] }
  | _ => p

theorem first?_append (key : String) (ps qs : List (String × String)) :
    first? key (ps ++ qs) = (first? key ps).or (first? key qs) := by
  unfold first?
  rw [List.find?_append, Option.map_or]

theorem all_append (test : String → Bool) (ps qs : List (String × String)) :
    all test (ps ++ qs) = all test ps ++ all test qs := by
  unfold all
  rw [List.filter_append, List.map_append]

theorem all_cons (test : String → Bool) (pair : String × String) (ps : List (String × String)) :
    all test (pair :: ps) = if test pair.1 then pair.2 :: all test ps else all test ps := by
  unfold all
  rw [List.filter_cons]
  split <;> rfl

theorem first?_append_one (key : String) (ps : List (String × String)) (pair : String × String) :
    first? key (ps ++ [pair]) =
      if pair.1 = key then (first? key ps).or (some pair.2) else first? key ps := by
  rw [first?_append, first?_cons]
  split
  · rfl
  · exact Option.or_none

theorem all_append_one (test : String → Bool) (ps : List (String × String))
    (pair : String × String) :
    all test (ps ++ [pair]) = if test pair.1 then all test ps ++ [pair.2] else all test ps := by
  rw [all_append, all_cons]
  split
  · rfl
  · exact List.append_nil _

theorem ofPairs_append_one (ps : List (String × String)) (pair : String × String) :
    ofPairs (ps ++ [pair]) = (ofPairs ps).take pair := by
  obtain ⟨key, value⟩ := pair
  unfold take
  -- One case for each key, and one for all other keys.
  split <;> simp_all [ofPairs, first?_append_one, all_append_one]

/-- Reading the pairs one after the other gives the parameters. -/
theorem foldl_take (ps : List (String × String)) : ps.foldl take {} = ofPairs ps := by
  induction ps using List.reverseRecOn with
  | nil => rfl
  | append_singleton ps pair ih => rw [List.foldl_append, ih, ofPairs_append_one]; rfl

/-! ## What counts -/

/-- The keys of which the first value counts. -/
def singleKeys : List String :=
  ["limit", "offset", "order", "nutrients", "category", "where", "foodName"]

/-- The spellings of the key of which every value counts. -/
def listKeys : List String := ["orders", "orders[]"]

/-- The first pair with the key has the value, be it empty. -/
def IsFirst (key value : String) (ps : List (String × String)) : Prop :=
  ∃ before after, ps = before ++ (key, value) :: after ∧ ∀ pair ∈ before, pair.1 ≠ key

/-- Every single key has the same first value in both, or has none in either, and the values of the
list key, in either spelling, are the same one by one. -/
structure SameValues (ps ps' : List (String × String)) : Prop where
  first : ∀ key ∈ singleKeys, ∀ value, IsFirst key value ps ↔ IsFirst key value ps'
  orders : (ps.filter (·.1 ∈ listKeys)).map (·.2) = (ps'.filter (·.1 ∈ listKeys)).map (·.2)

theorem first?_eq_some_iff_isFirst : first? key ps = some value ↔ IsFirst key value ps := by
  unfold first? IsFirst
  rw [Option.map_eq_some_iff]
  constructor
  · rintro ⟨⟨key', _⟩, hfind, rfl⟩
    obtain ⟨hkey, before, after, rfl, hbefore⟩ := List.find?_eq_some_iff_append.1 hfind
    obtain rfl : key' = key := eq_of_beq hkey
    exact ⟨before, after, rfl, fun pair hpair => by simpa using hbefore pair hpair⟩
  · rintro ⟨before, after, rfl, hbefore⟩
    refine ⟨(key, value), List.find?_eq_some_iff_append.2 ?_, rfl⟩
    exact ⟨beq_self_eq_true key, before, after, rfl,
      fun pair hpair => by simpa using hbefore pair hpair⟩

theorem sameValues_iff : SameValues ps ps' ↔
    (∀ key ∈ singleKeys, first? key ps = first? key ps') ∧
      all (· ∈ listKeys) ps = all (· ∈ listKeys) ps' := by
  constructor
  · intro h
    refine ⟨fun key hkey => Option.ext fun value => ?_, h.orders⟩
    rw [first?_eq_some_iff_isFirst, first?_eq_some_iff_isFirst]
    exact h.first key hkey value
  · rintro ⟨hfirst, horders⟩
    refine ⟨fun key hkey value => ?_, horders⟩
    rw [← first?_eq_some_iff_isFirst, ← first?_eq_some_iff_isFirst, hfirst key hkey]

/-- Parameters are equal where the values that count are the same, and nowhere else. -/
theorem ofPairs_eq_iff : ofPairs ps = ofPairs ps' ↔ SameValues ps ps' := by
  have hlist : (fun key => decide (key ∈ listKeys)) =
      fun key => key == "orders" || key == "orders[]" := by
    funext key
    simp [listKeys, beq_eq_decide]
  rw [sameValues_iff, hlist]
  unfold ofPairs singleKeys
  rw [Parameters.mk.injEq]
  simp only [List.forall_mem_cons, List.not_mem_nil, false_implies, implies_true, and_true]
  tauto

namespace SameValues

theorem refl (ps : List (String × String)) : SameValues ps ps :=
  ofPairs_eq_iff.1 rfl

theorem symm (h : SameValues ps ps') : SameValues ps' ps :=
  ofPairs_eq_iff.1 (ofPairs_eq_iff.2 h).symm

theorem trans (h : SameValues ps ps') (h' : SameValues ps' qs) : SameValues ps qs :=
  ofPairs_eq_iff.1 ((ofPairs_eq_iff.2 h).trans (ofPairs_eq_iff.2 h'))

/-- What stands before and after makes no difference. -/
theorem append (h : SameValues ps ps') (before after : List (String × String)) :
    SameValues (before ++ ps ++ after) (before ++ ps' ++ after) := by
  obtain ⟨hfirst, horders⟩ := sameValues_iff.1 h
  refine sameValues_iff.2 ⟨fun key hkey => ?_, ?_⟩
  · simp only [first?_append, hfirst key hkey]
  · simp only [all_append, horders]

end SameValues

/-! ## Changes that do not count -/

/-- The parameter that a key names. -/
def parameter (key : String) : String := if key = "orders[]" then "orders" else key

/-- One change of a list of pairs that does not count. -/
inductive Edit : List (String × String) → List (String × String) → Prop
  /-- Two pairs of different parameters change places. -/
  | swap (before after : List (String × String)) {a b : String × String}
      (hdiff : parameter a.1 ≠ parameter b.1) :
      Edit (before ++ a :: b :: after) (before ++ b :: a :: after)
  /-- A pair with an unknown key comes in. -/
  | unknown (before after : List (String × String)) (key value : String)
      (hsingle : key ∉ singleKeys) (hlist : key ∉ listKeys) :
      Edit (before ++ after) (before ++ (key, value) :: after)
  /-- A single key repeats after its first value, with any value. -/
  | again (before after : List (String × String)) (key value : String)
      (hsingle : key ∈ singleKeys) (hfirst : key ∈ before.map (·.1)) :
      Edit (before ++ after) (before ++ (key, value) :: after)
  /-- The list key takes its other spelling. -/
  | spelling (before after : List (String × String)) (value : String) :
      Edit (before ++ ("orders", value) :: after) (before ++ ("orders[]", value) :: after)

theorem parameter_of_mem_listKeys (h : key ∈ listKeys) : parameter key = "orders" := by
  have hall : ∀ key ∈ listKeys, parameter key = "orders" := by decide
  exact hall key h

theorem not_mem_listKeys_of_mem_singleKeys (h : key ∈ singleKeys) : key ∉ listKeys := by
  have hall : ∀ key ∈ singleKeys, key ∉ listKeys := by decide
  exact hall key h

theorem sameValues_swap {a b : String × String} (hdiff : parameter a.1 ≠ parameter b.1) :
    SameValues [a, b] [b, a] := by
  refine sameValues_iff.2 ⟨fun key _ => ?_, ?_⟩
  · have hkeys : a.1 ≠ b.1 := fun e => hdiff (congrArg parameter e)
    simp only [first?_cons]
    split <;> split <;> simp_all
  · have hlist : ¬ (a.1 ∈ listKeys ∧ b.1 ∈ listKeys) := by
      rintro ⟨ha, hb⟩
      exact hdiff ((parameter_of_mem_listKeys ha).trans (parameter_of_mem_listKeys hb).symm)
    simp only [all_cons]
    split <;> split <;> simp_all

theorem sameValues_unknown (hsingle : key ∉ singleKeys) (hlist : key ∉ listKeys) (value : String) :
    SameValues [] [(key, value)] := by
  refine sameValues_iff.2 ⟨fun key' hkey' => ?_, ?_⟩
  · rw [first?_cons, if_neg]
    rintro rfl
    exact hsingle hkey'
  · rw [all_cons, if_neg (by simpa using hlist)]

theorem isSome_first? (h : key ∈ ps.map (·.1)) : (first? key ps).isSome := by
  obtain ⟨pair, hpair, rfl⟩ := List.mem_map.1 h
  unfold first?
  rw [Option.isSome_map, List.find?_isSome]
  exact ⟨pair, hpair, beq_self_eq_true _⟩

theorem sameValues_again {before : List (String × String)} (hsingle : key ∈ singleKeys)
    (hfirst : key ∈ before.map (·.1)) (value : String) :
    SameValues before (before ++ [(key, value)]) := by
  refine sameValues_iff.2 ⟨fun key' _ => ?_, ?_⟩
  · rw [first?_append_one]
    split
    · rename_i e
      rw [← e, Option.or_of_isSome (isSome_first? hfirst)]
    · rfl
  · rw [all_append_one, if_neg (by simpa using not_mem_listKeys_of_mem_singleKeys hsingle)]

theorem sameValues_spelling (value : String) :
    SameValues [("orders", value)] [("orders[]", value)] :=
  ofPairs_eq_iff.1 rfl

/-- A change that does not count leaves the values that count. -/
theorem Edit.sameValues (h : Edit ps ps') : SameValues ps ps' := by
  cases h with
  | swap before after hdiff => simpa using (sameValues_swap hdiff).append before after
  | unknown before after _ value hsingle hlist =>
    simpa using (sameValues_unknown hsingle hlist value).append before after
  | again before after _ value hsingle hfirst =>
    simpa using (sameValues_again hsingle hfirst value).append [] after
  | spelling before after value => simpa using (sameValues_spelling value).append before after

/-- Any number of changes that do not count, made or undone, leave the values that count. -/
theorem sameValues_of_edits (h : Relation.EqvGen Edit ps ps') : SameValues ps ps' := by
  induction h with
  | rel _ _ hedit => exact hedit.sameValues
  | refl ps => exact .refl ps
  | symm _ _ _ ih => exact ih.symm
  | trans _ _ _ _ _ ih ih' => exact ih.trans ih'

end Parameters

namespace Service

open Parameters

variable {ps ps' : List (String × String)}

/-- The answer to a request depends on the pairs through the parameters only. -/
theorem respond_eq_of_ofPairs_eq (s : Service) (method : String) (path : List Char)
    (h : ofPairs ps = ofPairs ps') :
    s.respond ⟨method, ⟨path, ps⟩⟩ = s.respond ⟨method, ⟨path, ps'⟩⟩ := by
  have hbody (route : Route) : s.body ps route = s.body ps' route := by
    cases route with
    | foods => unfold body foods; rw [h]
    | food segment => simp only [body, food, h]
    | nutrients => rfl
    | health => rfl
  simp only [respond, get, hbody]

/-- Reading the pairs one after the other gives equal parameters exactly where the values that count
are the same. Then every request is answered alike, and no number of changes that do not count leads
to other values. -/
theorem edits_invisible (ps ps' : List (String × String)) :
    ofPairs ps = ps.foldl take {} ∧
      (SameValues ps ps' ↔ ofPairs ps = ofPairs ps') ∧
      (SameValues ps ps' → ∀ (s : Service) (method : String) (path : List Char),
        s.respond ⟨method, ⟨path, ps⟩⟩ = s.respond ⟨method, ⟨path, ps'⟩⟩) ∧
      (Relation.EqvGen Edit ps ps' → SameValues ps ps') :=
  ⟨(foldl_take ps).symm, ofPairs_eq_iff.symm,
    fun h s method path => respond_eq_of_ofPairs_eq s method path (ofPairs_eq_iff.2 h),
    sameValues_of_edits⟩

/-- The first limit is empty and still the one that counts. -/
theorem edits_invisible_sample :
    ∃ s : Service, Dataset.ofTable Dataset.sampleRows Dataset.sampleRecords = .ok s.dataset ∧
      Relation.EqvGen Edit [("limit", ""), ("orders", "WATER")]
        [("orders[]", "WATER"), ("limit", ""), ("limit", "9"), ("page", "2")] ∧
      s.respond ⟨"GET", ⟨"/v1/foods".toList, [("limit", ""), ("orders", "WATER")]⟩⟩ =
        s.respond ⟨"GET", ⟨"/v1/foods".toList,
          [("orders[]", "WATER"), ("limit", ""), ("limit", "9"), ("page", "2")]⟩⟩ := by
  obtain ⟨d, hd⟩ := Dataset.exists_ofTable_sample
  have hedits : Relation.EqvGen Edit [("limit", ""), ("orders", "WATER")]
      [("orders[]", "WATER"), ("limit", ""), ("limit", "9"), ("page", "2")] := by
    have hswap := Edit.swap [] [] (a := ("limit", "")) (b := ("orders", "WATER")) (by decide)
    have hspelling := Edit.spelling [] [("limit", "")] "WATER"
    have hagain := Edit.again [("orders[]", "WATER"), ("limit", "")] [] "limit" "9"
      (by decide) (by decide)
    have hunknown := Edit.unknown [("orders[]", "WATER"), ("limit", ""), ("limit", "9")] []
      "page" "2" (by decide) (by decide)
    exact .trans _ _ _ (.rel _ _ hswap) (.trans _ _ _ (.rel _ _ hspelling)
      (.trans _ _ _ (.rel _ _ hagain) (.rel _ _ hunknown)))
  obtain ⟨-, -, hrespond, hsame⟩ := edits_invisible [("limit", ""), ("orders", "WATER")]
    [("orders[]", "WATER"), ("limit", ""), ("limit", "9"), ("page", "2")]
  exact ⟨⟨d, {}, ""⟩, hd, hedits, hrespond (hsame hedits) _ _ _⟩

end Service

end FoodTable
