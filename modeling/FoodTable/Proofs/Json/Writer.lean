import FoodTable.Proofs.Json.Unambiguous
import FoodTable.Proofs.Json.WrittenNumbers

/-!
# Written values

The text of a value is a JSON text, and it says the tree of the value and no other
(`Value.says_write_iff`). Two values have one text only if they have one tree.
-/

namespace FoodTable.Json

open Text

/-! ## Quoted texts -/

theorem hexDigit_spec : ∀ n < 16, HexDigit (hexDigit n) n := by
  unfold HexDigit
  decide

/-- Every character is spelled between quotes, as itself or by an escape. -/
theorem spellsChar_escaped (c : Char) : SpellsChar (escaped c) c := by
  unfold escaped
  split
  iterate 7 exact .short (by decide)
  rename_i hquote hbackslash _ _ _ _ _
  split
  · rename_i hcontrol
    have hunit := SpellsUnit.mk (hexDigit_spec 0 (by decide)) (hexDigit_spec 0 (by decide))
      (hexDigit_spec (c.toNat / 16) (by omega)) (hexDigit_spec (c.toNat % 16) (by omega))
    rw [show 16 * (16 * (16 * 0 + 0) + c.toNat / 16) + c.toNat % 16 = c.toNat by omega] at hunit
    exact .unit hunit
  · rename_i hcontrol
    exact .self ⟨hquote, hbackslash, Nat.le_of_not_lt hcontrol⟩

theorem spellsText_quoted (s : String) : SpellsText (quoted s) s := by
  refine ⟨s.toList.flatMap escaped, ?_, rfl⟩
  induction s.toList with
  | nil => exact .nil
  | cons c cs ih =>
    rw [List.flatMap_cons]
    exact .cons (spellsChar_escaped c) ih

/-! ## Trees of values -/

namespace Value

/-- What holds of lists and records if it holds of their members holds of every value. -/
@[induction_eliminator]
theorem ind {P : Value → Prop} (null : P .null) (bool : ∀ b, P (.bool b))
    (natural : ∀ n, P (.natural n)) (number : ∀ x, P (.number x)) (text : ∀ s, P (.text s))
    (list : ∀ items, (∀ v ∈ items, P v) → P (.list items))
    (record : ∀ fields, (∀ f ∈ fields, P f.2) → P (.record fields)) (v : Value) : P v := by
  refine @Value.rec P (fun items => ∀ v ∈ items, P v) (fun fields => ∀ f ∈ fields, P f.2)
    (fun f => P f.2) null bool natural number text list record ?_ ?_ ?_ ?_ ?_ v
  · simp
  · exact fun v items hv hitems => List.forall_mem_cons.2 ⟨hv, hitems⟩
  · simp
  · exact fun f fields hf hfields => List.forall_mem_cons.2 ⟨hf, hfields⟩
  · exact fun name v hv => hv

mutual

/-- What the text of a value says. Numbers that are not finite are said to be nothing. -/
def tree : Value → Tree
  | null => .null
  | bool b => .bool b
  | natural n => .number false ⟨n, 0⟩
  | number x => if x.isFinite then .number x.negative x.written else .null
  | text s => .text (some s)
  | list items => .list (itemTrees items)
  | record fields => .record (fieldTrees fields)

def itemTrees : List Value → List Tree
  | [] => []
  | v :: items => v.tree :: itemTrees items

def fieldTrees : List (String × Value) → List (Option String × Tree)
  | [] => []
  | (name, v) :: fields => (some name, v.tree) :: fieldTrees fields

end

theorem itemTrees_eq_map (items : List Value) : itemTrees items = items.map tree := by
  induction items with
  | nil => rfl
  | cons v items ih => rw [itemTrees, ih, List.map_cons]

theorem tree_number {x : Binary64} (hx : x.isFinite = true) :
    (number x).tree = .number x.negative x.written := by
  rw [tree, if_pos hx]

/-! ## Texts of values -/

theorem spellsNumber_digits (n : Nat) : SpellsNumber (digits n) false ⟨n, 0⟩ := by
  have hvalue := isDecimal_digits n
  rw [← List.append_nil (digits n)] at hvalue
  have hspells : SpellsNumber _ false _ := .mk (isWhole_digits n) .absent .absent hvalue
  rw [List.append_nil, List.append_nil] at hspells
  exact hspells

section Members

variable {items : List Value} {fields : List (String × Value)}

theorem members_writeFurtherItems (h : ∀ v ∈ items, Spells v.write v.tree) :
    Members ']' Spells false (writeFurtherItems items) (itemTrees items) := by
  induction items with
  | nil => exact .nil isBlanks_nil
  | cons v items ih =>
    obtain ⟨hv, hitems⟩ := List.forall_mem_cons.1 h
    rw [writeFurtherItems, itemTrees]
    exact .cons (.further isBlanks_nil isBlanks_nil) hv (ih hitems)

theorem members_writeItems (h : ∀ v ∈ items, Spells v.write v.tree) :
    Members ']' Spells true (writeItems items) (itemTrees items) := by
  cases items with
  | nil => exact .nil isBlanks_nil
  | cons v items =>
    obtain ⟨hv, hitems⟩ := List.forall_mem_cons.1 h
    rw [writeItems, itemTrees]
    exact .cons (.first isBlanks_nil) hv (members_writeFurtherItems hitems)

/-- A name and a value without blanks. -/
theorem field_quoted {s : List Char} {t : Tree} (name : String) (h : Spells s t) :
    Field Spells (quoted name ++ ':' :: s) (some name, t) := by
  have hname : SpellsQuoted (quoted name) (some name) := spellsText_quoted name
  exact .mk hname isBlanks_nil isBlanks_nil h

theorem members_writeFurtherFields (h : ∀ f ∈ fields, Spells f.2.write f.2.tree) :
    Members '}' (Field Spells) false (writeFurtherFields fields) (fieldTrees fields) := by
  induction fields with
  | nil => exact .nil isBlanks_nil
  | cons f fields ih =>
    obtain ⟨name, v⟩ := f
    obtain ⟨hv, hfields⟩ := List.forall_mem_cons.1 h
    have htext : writeFurtherFields ((name, v) :: fields) =
        [','] ++ ((quoted name ++ ':' :: v.write) ++ writeFurtherFields fields) := by
      rw [List.append_assoc]
      rfl
    rw [htext]
    exact .cons (.further isBlanks_nil isBlanks_nil) (field_quoted name hv) (ih hfields)

theorem members_writeFields (h : ∀ f ∈ fields, Spells f.2.write f.2.tree) :
    Members '}' (Field Spells) true (writeFields fields) (fieldTrees fields) := by
  cases fields with
  | nil => exact .nil isBlanks_nil
  | cons f fields =>
    obtain ⟨name, v⟩ := f
    obtain ⟨hv, hfields⟩ := List.forall_mem_cons.1 h
    have htext : writeFields ((name, v) :: fields) =
        [] ++ ((quoted name ++ ':' :: v.write) ++ writeFurtherFields fields) := by
      rw [List.append_assoc]
      rfl
    rw [htext]
    exact .cons (.first isBlanks_nil) (field_quoted name hv) (members_writeFurtherFields hfields)

end Members

theorem spells_write (v : Value) : Spells v.write v.tree := by
  induction v with
  | null => exact .null
  | bool b => cases b <;> exact .bool
  | natural n => exact .number (spellsNumber_digits n)
  | number x =>
    rw [write, tree]
    split
    · rename_i hx
      exact .number (Binary64.spellsNumber_numberText hx)
    · rename_i hx
      rw [numberText, if_neg hx]
      exact .null
  | text s => exact .text (spellsText_quoted s)
  | list items ih => exact .list (members_writeItems ih)
  | record fields ih => exact .record (members_writeFields ih)

/-- The text of a value says the tree of the value, and nothing else. -/
theorem says_write_iff (v : Value) {t : Tree} : Says v.write t ↔ t = v.tree := by
  have hwrite : Says v.write v.tree :=
    says_iff.2 ⟨[], _, [], isBlanks_nil, spells_write v, isBlanks_nil, (List.append_nil _).symm⟩
  constructor
  · exact fun h => h.unique hwrite
  · rintro rfl
    exact hwrite

theorem says_toText_iff {v : Value} {t : Tree} : Says v.toText.toList t ↔ t = v.tree := by
  unfold toText
  rw [String.toList_ofList]
  exact v.says_write_iff

end Value

end FoodTable.Json
