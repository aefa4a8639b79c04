import FoodTable.Proofs.Category
import FoodTable.Proofs.Dataset.Loading
import FoodTable.Proofs.FirstFault
import FoodTable.Proofs.Text.Pieces
import FoodTable.Query.Grammar
import Mathlib.Data.List.Perm.Subperm

/-!
# Tokens and what they denote

What the tokens of each parameter denote, and the fault of a token that denotes nothing. A list is
read token by token: its value is made of what its tokens denote, and its fault is that of the
leftmost token that has one.
-/

namespace FoodTable

open Text

namespace Grammar

variable {s token : String} {ts : List String} {v : Vocabulary} {records : List TagRecord}
  {e : QueryError}

/-! ## Tokens of a list -/

/-- The tokens are the texts between the commas of the list. -/
def IsTokens (s : String) (ts : List String) : Prop := CutsInto ',' s.toList (ts.map String.toList)

theorem tokens_eq_iff : tokens s = ts ↔ IsTokens s ts := by
  unfold tokens IsTokens
  rw [← pieces_eq_iff]
  constructor
  · rintro rfl
    simp
  · intro h
    simp [h]

theorem exists_isTokens_iff {p : List String → Prop} :
    (∃ ts, IsTokens s ts ∧ p ts) ↔ p (tokens s) := by
  simp only [← tokens_eq_iff, exists_eq_left']

/-- Texts without a comma are the tokens of the list that they make with commas. -/
theorem isTokens_intercalate (hts : ts ≠ []) (h : ∀ t ∈ ts, ',' ∉ t.toList) :
    IsTokens (",".intercalate ts) ts where
  nonempty := by simpa using hts
  join := by
    rw [String.toList_intercalate]
    rfl
  free := List.forall_mem_map.2 h

theorem isTokens_singleton (h : ',' ∉ s.toList) : IsTokens s [s] := by
  have hs := isTokens_intercalate (List.cons_ne_nil s []) (List.forall_mem_singleton.2 h)
  rwa [String.intercalate_singleton] at hs

theorem tokens_eq_singleton_iff : tokens s = [token] ↔ s = token ∧ ',' ∉ token.toList := by
  constructor
  · intro h
    obtain ⟨-, hjoin, hfree⟩ := tokens_eq_iff.1 h
    rw [List.map_singleton, List.intercalate_singleton] at hjoin
    exact ⟨(String.toList_inj.1 hjoin).symm, hfree _ List.mem_cons_self⟩
  · rintro ⟨rfl, hcomma⟩
    exact tokens_eq_iff.2 (isTokens_singleton hcomma)

theorem tokens_ne_nil (s : String) : tokens s ≠ [] := by
  simpa [tokens] using pieces_ne_nil ',' s.toList

section Lists

variable {α : Type} {denotes : String → α → Prop} {fault : String → QueryError → Prop}
  {read : String → Except QueryError α} {all xs : List α}

/-- Some token of the list has a fault, and `e` is the fault of the leftmost one. -/
def ListFault (fault : String → QueryError → Prop) (s : String) (e : QueryError) : Prop :=
  ∃ ts, IsTokens s ts ∧ FirstFault fault ts e

/-- The values are what the tokens of the list denote, one for each token and in their order. -/
def StatesList (denotes : String → α → Prop) (s : String) (xs : List α) : Prop :=
  ∃ ts, IsTokens s ts ∧ List.Forall₂ denotes ts xs

/-- The values are what the tokens of the list denote, each once and in the order of `all`. -/
def StatesSet (denotes : String → α → Prop) (all : List α) (s : String) (xs : List α) : Prop :=
  ∃ ts, IsTokens s ts ∧ (∀ t ∈ ts, ∃ x, denotes t x) ∧ xs.Sublist all ∧
    ∀ x, x ∈ xs ↔ ∃ t ∈ ts, denotes t x

/-- A text without a comma denotes the set of the one value that it denotes. -/
theorem statesSet_singleton {x : α} (hs : ',' ∉ s.toList) (hx : denotes s x) (hmem : x ∈ all)
    (hunique : ∀ y, denotes s y → y = x) : StatesSet denotes all s [x] := by
  refine ⟨[s], isTokens_singleton hs, List.forall_mem_singleton.2 ⟨x, hx⟩,
    List.singleton_sublist.2 hmem, fun y => ?_⟩
  simp only [List.mem_singleton, exists_eq_left]
  exact ⟨fun e => e ▸ hx, hunique y⟩

theorem mapM_tokens_eq_error_iff (hread : ∀ t e, read t = .error e ↔ fault t e) :
    (tokens s).mapM read = .error e ↔ ListFault fault s e := by
  rw [mapM_eq_error_iff, ListFault, exists_isTokens_iff]
  exact firstFault_congr hread

theorem mapM_tokens_eq_ok_iff (hread : ∀ t x, read t = .ok x ↔ denotes t x) :
    (tokens s).mapM read = .ok xs ↔ StatesList denotes s xs := by
  rw [mapM_eq_ok_iff, StatesList, exists_isTokens_iff]
  simp only [hread]

theorem eq_filter_iff [BEq α] [LawfulBEq α] (hall : all.Nodup) {ys : List α}
    (hys : ∀ y ∈ ys, y ∈ all) :
    all.filter ys.contains = xs ↔ xs.Sublist all ∧ ∀ x, x ∈ xs ↔ x ∈ ys := by
  constructor
  · rintro rfl
    refine ⟨List.filter_sublist, fun x => ?_⟩
    simp only [List.mem_filter, List.contains_iff_mem]
    exact and_iff_right_of_imp (hys x)
  · rintro ⟨hsub, hmem⟩
    have hself : xs.filter ys.contains = xs :=
      List.filter_eq_self.2 fun x hx => List.contains_iff_mem.2 ((hmem x).1 hx)
    have hle : xs.Sublist (all.filter ys.contains) := hself ▸ hsub.filter ys.contains
    have hsubset : all.filter ys.contains ⊆ xs := fun x hx =>
      (hmem x).2 (List.contains_iff_mem.1 (List.of_mem_filter hx))
    have hlen := ((hall.filter _).subperm hsubset).length_le
    exact (hle.eq_of_length_le hlen).symm

/-- The values that are read are those that some token denotes. -/
theorem mem_iff_of_mapM (hread : ∀ t x, read t = .ok x ↔ denotes t x)
    (hxs : ts.mapM read = .ok xs) (x : α) : x ∈ xs ↔ ∃ t ∈ ts, denotes t x := by
  have hdenotes := mapM_eq_ok_iff.1 hxs
  simp only [← hread]
  constructor
  · exact exists_of_forall₂ hdenotes.flip
  · rintro ⟨t, ht, hx⟩
    obtain ⟨x', hx', ht'⟩ := exists_of_forall₂ hdenotes ht
    obtain rfl := Except.ok.inj (hx.symm.trans ht')
    exact hx'

theorem bind_tokens_eq_ok_iff [BEq α] [LawfulBEq α] (hread : ∀ t x, read t = .ok x ↔ denotes t x)
    (hall : all.Nodup) (hmem : ∀ t x, denotes t x → x ∈ all) :
    ((tokens s).mapM read >>= fun ys => pure (all.filter ys.contains)) = .ok xs ↔
      StatesSet denotes all s xs := by
  have hvalid : (∃ ys, (tokens s).mapM read = .ok ys) ↔ ∀ t ∈ tokens s, ∃ x, denotes t x := by
    simp only [exists_mapM_iff, hread]
  have hset (ys : List α) (hys : (tokens s).mapM read = .ok ys) :
      all.filter ys.contains = xs ↔
        xs.Sublist all ∧ ∀ x, x ∈ xs ↔ ∃ t ∈ tokens s, denotes t x := by
    have hys_iff := mem_iff_of_mapM hread hys
    rw [eq_filter_iff hall fun y hy => ((hys_iff y).1 hy).elim fun t ht => hmem t y ht.2]
    simp only [hys_iff]
  rw [bind_eq_ok_iff, StatesSet, exists_isTokens_iff, ← hvalid]
  constructor
  · rintro ⟨ys, hys, h⟩
    exact ⟨⟨ys, hys⟩, (hset ys hys).1 (Except.ok.inj h)⟩
  · rintro ⟨⟨ys, hys⟩, h⟩
    exact ⟨ys, hys, congrArg Except.ok ((hset ys hys).2 h)⟩

theorem bind_tokens_eq_error_iff {β : Type} {f : List α → β}
    (hread : ∀ t e, read t = .error e ↔ fault t e) :
    ((tokens s).mapM read >>= fun ys => pure (f ys)) = .error e ↔ ListFault fault s e := by
  rw [bind_eq_error_iff, mapM_tokens_eq_error_iff hread]
  exact or_iff_left fun ⟨_, _, h⟩ => nomatch h

end Lists

/-! ## Categories and nutrients -/

def CategoryFault (token : String) (e : QueryError) : Prop :=
  (∀ code, ¬ Category.Denotes token.toList code) ∧ e = .invalidCategory token

theorem category_eq_ok_iff {code : Nat} :
    category token = .ok code ↔ Category.Denotes token.toList code := by
  unfold category
  rw [← Category.code?_eq_some_iff]
  cases Category.code? token.toList <;> simp

theorem category_eq_error_iff : category token = .error e ↔ CategoryFault token e := by
  unfold category CategoryFault
  simp only [← Category.code?_eq_some_iff]
  cases Category.code? token.toList <;> simp [eq_comm]

theorem categories_eq_ok_iff {codes : List Nat} : categories s = .ok codes ↔
    StatesSet (fun t => Category.Denotes t.toList) Category.codes s codes :=
  bind_tokens_eq_ok_iff (fun _ _ => category_eq_ok_iff) (by decide) fun _ _ h => h.mem_codes

theorem categories_eq_error_iff : categories s = .error e ↔ ListFault CategoryFault s e :=
  bind_tokens_eq_error_iff fun _ _ => category_eq_error_iff

/-- The name stands for the tag in a metadata table. -/
def Names (records : List TagRecord) (name : String) (tag : Tag) : Prop :=
  tag ∈ tagsOf records ∧ tag.name = name

def NutrientFault (records : List TagRecord) (token : String) (e : QueryError) : Prop :=
  token ∉ records.map (·.name) ∧ e = .unknownNutrient token

theorem exists_names_iff {name : String} :
    (∃ tag, Names records name tag) ↔ name ∈ records.map (·.name) := by
  rw [← map_name_tagsOf, List.mem_map]
  rfl

theorem nutrient_eq_ok_iff (h : v.Holds records) {tag : Tag} :
    nutrient v token = .ok tag ↔ Names records token tag := by
  unfold nutrient Names
  rw [← h.lookup?_eq_some_iff]
  cases v.lookup? token <;> simp

theorem nutrient_eq_error_iff (h : v.Holds records) :
    nutrient v token = .error e ↔ NutrientFault records token e := by
  unfold nutrient NutrientFault
  rw [← h.lookup?_eq_none_iff]
  cases v.lookup? token <;> simp [eq_comm]

theorem nutrients_eq_ok_iff (h : v.Holds records) {tags : List Tag} :
    nutrients v s = .ok tags ↔ StatesSet (Names records) (tagsOf records) s tags := by
  unfold nutrients
  rw [h.tags]
  exact bind_tokens_eq_ok_iff (fun _ _ => nutrient_eq_ok_iff h) (nodup_tagsOf records)
    fun _ _ h => h.1

theorem nutrients_eq_error_iff (h : v.Holds records) :
    nutrients v s = .error e ↔ ListFault (NutrientFault records) s e :=
  bind_tokens_eq_error_iff fun _ _ => nutrient_eq_error_iff h

/-! ## Conditions -/

/-- The condition of a token that is cut into a name and a numeral. -/
theorem condition_of_split {name number : List Char} {o : Comparison} {n : Nat} {tag : Tag}
    (hsplit : splitCondition? (trim token.toList) = some (name, o, number))
    (hnumber : IsDecimal number n) (hname : isConditionName name = true)
    (htag : v.lookup? (String.ofList name) = some tag) :
    condition v token = .ok ⟨tag, o, .ofNat n⟩ := by
  unfold condition
  dsimp only
  rw [hsplit]
  dsimp only
  rw [digits?_eq_some_iff.2 hnumber]
  dsimp only
  rw [hname, htag]
  rfl

/-- A condition is a known tag, what compares, and the number nearest to what the digits denote. -/
theorem condition_eq_ok_iff {c : Condition} : condition v token = .ok c ↔
    ∃ name number n, splitCondition? (trim token.toList) = some (name, c.comparison, number) ∧
      IsDecimal number n ∧ isConditionName name = true ∧
      v.lookup? (String.ofList name) = some c.tag ∧ c.threshold = .ofNat n := by
  constructor
  · intro h
    unfold condition at h
    dsimp only at h
    split at h
    · cases h
    rename_i name comparison number hsplit
    split at h
    · cases h
    rename_i n hnumber
    split at h
    · cases h
    rename_i hname
    split at h
    · cases h
    rename_i tag htag
    obtain rfl := Except.ok.inj h
    exact ⟨name, number, n, hsplit, digits?_eq_some_iff.1 hnumber, by simpa using hname, htag, rfl⟩
  · rintro ⟨name, number, n, hsplit, hnumber, hname, htag, hthreshold⟩
    rw [condition_of_split hsplit hnumber hname htag, ← hthreshold]

/-! ## Order -/

/-- A trimmed token is a name, with a minus sign in front for descending. -/
def Directed (text name : List Char) (descending : Bool) : Prop :=
  text = '-' :: name ∧ descending = true ∨
    text = name ∧ descending = false ∧ text.head? ≠ some '-'

/-- The token states the sort key. -/
def StatesKey (records : List TagRecord) (token : String) (k : SortKey) : Prop :=
  ∃ text name, TrimsTo token.toList text ∧ Directed text name k.descending ∧ name ≠ [] ∧
    Names records (String.ofList name) k.tag

def KeyFault (records : List TagRecord) (token : String) (e : QueryError) : Prop :=
  ∃ text name descending, TrimsTo token.toList text ∧ Directed text name descending ∧
    (name = [] ∧ e = .invalidOrder (String.ofList text) ∨
      name ≠ [] ∧ String.ofList name ∉ records.map (·.name) ∧
        e = .unknownNutrient (String.ofList name))

variable {text name name' : List Char} {descending descending' : Bool}

theorem exists_directed (text : List Char) : ∃ name descending, Directed text name descending := by
  by_cases h : text.head? = some '-'
  · obtain ⟨name, rfl⟩ := List.head?_eq_some_iff.1 h
    exact ⟨name, true, .inl ⟨rfl, rfl⟩⟩
  · exact ⟨text, false, .inr ⟨rfl, rfl, h⟩⟩

theorem Directed.unique (h : Directed text name descending)
    (h' : Directed text name' descending') : name = name' ∧ descending = descending' := by
  rcases h with ⟨rfl, rfl⟩ | ⟨rfl, rfl, hhead⟩ <;> rcases h' with ⟨h', rfl⟩ | ⟨rfl, rfl, hhead'⟩
  · exact ⟨(List.cons.inj h').2, rfl⟩
  · exact absurd rfl hhead'
  · subst h'
    exact absurd rfl hhead
  · exact ⟨rfl, rfl⟩

theorem sortKey_of_directed (ht : TrimsTo token.toList text)
    (hd : Directed text name descending) : sortKey v token =
      if name.isEmpty then .error (.invalidOrder (String.ofList text))
      else match v.lookup? (String.ofList name) with
        | none => .error (.unknownNutrient (String.ofList name))
        | some tag => .ok ⟨tag, descending⟩ := by
  unfold sortKey
  rw [trim_of_trimsTo ht]
  rcases hd with ⟨rfl, rfl⟩ | ⟨rfl, rfl, hhead⟩
  · rfl
  · dsimp only
    split
    · exact absurd rfl hhead
    · rfl

theorem sortKey_eq_ok_iff (h : v.Holds records) {k : SortKey} :
    sortKey v token = .ok k ↔ StatesKey records token k := by
  have ht := trimsTo_trim token.toList
  obtain ⟨name, descending, hd⟩ := exists_directed (trim token.toList)
  rw [sortKey_of_directed ht hd]
  constructor
  · intro hk
    by_cases hname : name = []
    · rw [if_pos (by simp [hname])] at hk
      cases hk
    · rw [if_neg (by simpa using hname)] at hk
      cases htag : v.lookup? (String.ofList name) with
      | none => simp [htag] at hk
      | some tag =>
        rw [htag] at hk
        obtain rfl := Except.ok.inj hk
        exact ⟨_, name, ht, hd, hname, h.lookup?_eq_some_iff.1 htag⟩
  · rintro ⟨text', name', ht', hd', hname, htag⟩
    obtain rfl := trim_of_trimsTo ht'
    obtain ⟨rfl, rfl⟩ := hd.unique hd'
    rw [if_neg (by simpa using hname), h.lookup?_eq_some_iff.2 htag]

theorem sortKey_eq_error_iff (h : v.Holds records) :
    sortKey v token = .error e ↔ KeyFault records token e := by
  have ht := trimsTo_trim token.toList
  obtain ⟨name, descending, hd⟩ := exists_directed (trim token.toList)
  rw [sortKey_of_directed ht hd]
  constructor
  · intro he
    refine ⟨_, name, descending, ht, hd, ?_⟩
    by_cases hname : name = []
    · rw [if_pos (by simp [hname])] at he
      exact .inl ⟨hname, (Except.error.inj he).symm⟩
    · rw [if_neg (by simpa using hname)] at he
      cases htag : v.lookup? (String.ofList name) with
      | none =>
        rw [htag] at he
        exact .inr ⟨hname, h.lookup?_eq_none_iff.1 htag, (Except.error.inj he).symm⟩
      | some tag => simp [htag] at he
  · rintro ⟨text', name', descending', ht', hd', hfault⟩
    obtain rfl := trim_of_trimsTo ht'
    obtain ⟨rfl, rfl⟩ := hd.unique hd'
    rcases hfault with ⟨rfl, rfl⟩ | ⟨hname, htag, rfl⟩
    · rfl
    · rw [if_neg (by simpa using hname), h.lookup?_eq_none_iff.2 htag]

/-! ## Pages -/

/-- The text is a number below `2 ^ 64`, with any blanks around it. -/
def StatesOffset (s : String) (n : Nat) : Prop :=
  ∃ t, TrimsTo s.toList t ∧ IsUnsigned t n ∧ n < pow2 64

def OffsetFault (s : String) (e : QueryError) : Prop :=
  (∀ n, ¬ StatesOffset s n) ∧ e = .invalidOffset s

/-- The text is a number of 64 bits with a sign, with any blanks around it, and `n` is the number
in the range from 1 to 100 nearest to it. -/
def StatesLimit (s : String) (n : Nat) : Prop :=
  ∃ t i, TrimsTo s.toList t ∧ IsSigned t i ∧ -(pow2 63 : Int) ≤ i ∧ i < pow2 63 ∧
    (n : Int) = max 1 (min i 100)

def LimitFault (s : String) (e : QueryError) : Prop :=
  (∀ n, ¬ StatesLimit s n) ∧ e = .invalidLimit s

theorem statesOffset_iff {n : Nat} :
    StatesOffset s n ↔ unsigned? (trim s.toList) = some n ∧ n < pow2 64 := by
  unfold StatesOffset
  simp only [← trim_eq_iff, exists_eq_left', unsigned?_eq_some_iff]

theorem offset_eq_ok_iff {n : Nat} : offset (some s) = .ok n ↔ StatesOffset s n := by
  rw [statesOffset_iff]
  unfold offset
  dsimp only
  cases unsigned? (trim s.toList) with
  | none => simp
  | some m =>
    dsimp only
    split
    · rename_i hm
      rw [Except.ok.injEq, Option.some.injEq]
      exact ⟨fun h => ⟨h, h ▸ hm⟩, fun h => h.1⟩
    · rename_i hm
      refine iff_of_false (nomatch ·) ?_
      rintro ⟨h, hn⟩
      exact hm (Option.some.inj h ▸ hn)

theorem offset_eq_error_iff : offset (some s) = .error e ↔ OffsetFault s e := by
  unfold OffsetFault
  simp only [← offset_eq_ok_iff]
  unfold offset
  dsimp only
  cases unsigned? (trim s.toList) with
  | none => simp [eq_comm]
  | some m =>
    dsimp only
    split <;> simp [eq_comm]

theorem statesLimit_iff {n : Nat} : StatesLimit s n ↔ ∃ i, signed? (trim s.toList) = some i ∧
    (-(pow2 63 : Int) ≤ i ∧ i < pow2 63) ∧ (n : Int) = max 1 (min i 100) := by
  unfold StatesLimit
  simp only [← trim_eq_iff, exists_eq_left', signed?_eq_some_iff, exists_and_left, and_assoc]

theorem limit_eq_ok_iff {n : Nat} : limit (some s) = .ok n ↔ StatesLimit s n := by
  rw [statesLimit_iff]
  unfold limit maxLimit
  dsimp only
  cases signed? (trim s.toList) with
  | none => simp
  | some i =>
    simp only [Option.some.injEq, exists_eq_left']
    split
    · rename_i hi
      rw [Except.ok.injEq, and_iff_right hi]
      omega
    · rename_i hi
      exact iff_of_false (nomatch ·) fun h => hi h.1

theorem limit_eq_error_iff : limit (some s) = .error e ↔ LimitFault s e := by
  unfold LimitFault
  simp only [← limit_eq_ok_iff]
  unfold limit
  dsimp only
  cases signed? (trim s.toList) with
  | none => simp [eq_comm]
  | some i =>
    dsimp only
    split <;> simp [eq_comm]

end Grammar

end FoodTable
