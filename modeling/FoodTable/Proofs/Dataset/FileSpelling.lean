import FoodTable.Dataset.File
import FoodTable.Proofs.Json.Shapes
import FoodTable.Proofs.Json.Writer

/-!
# Spellings of dataset files

What a dataset is made of does not depend on how its files are written. Rows and tag records may be
written as any records that have the fields asked for (`Row.WrittenAs`, `TagRecord.WrittenAs`): in
any order, among any other fields, under either name of a tag, with empty units and descriptions
left out. Blanks, escapes and the values of other fields are free as in all JSON.
-/

namespace FoodTable

open Json Text

/-! ## Fields by name -/

/-- The values of the fields that have one of some names. -/
def valuesOf (names : List String) (fields : List (Option String × Tree)) : List Tree :=
  (fields.filter fun f => f.1.any names.contains).map (·.2)

/-- A part that is read from a field with one of some names. It is taken once, and other fields do
not change it. -/
inductive Takes {α : Type} (names : List String) (tree : α → Tree) :
    Option α → Option String × Tree → Option α → Prop
  | taken {name : String} {a : α} (hname : name ∈ names) :
      Takes names tree none (some name, tree a) (some a)
  | passed {name : String} {t : Tree} {known : Option α} (hname : name ∉ names) :
      Takes names tree known (some name, t) known

section Takes

variable {α : Type} {names : List String} {tree : α → Tree} {fields : List (Option String × Tree)}
  {name : String} {t : Tree} {known : Option α}

theorem valuesOf_cons_of_mem (h : name ∈ names) :
    valuesOf names ((some name, t) :: fields) = t :: valuesOf names fields := by
  unfold valuesOf
  rw [List.filter_cons_of_pos (by simpa using h), List.map_cons]

theorem valuesOf_cons_of_not_mem (h : name ∉ names) :
    valuesOf names ((some name, t) :: fields) = valuesOf names fields := by
  unfold valuesOf
  rw [List.filter_cons_of_neg (by simpa using h)]

variable (hnames : ∀ f ∈ fields, f.1 ≠ none)

include hnames

/-- Where no field has one of the names, nothing is taken. -/
theorem run_passed (hvalues : valuesOf names fields = []) :
    Run (Takes names tree) known fields known := by
  induction fields with
  | nil => exact .nil
  | cons f fields ih =>
    obtain ⟨hf, hrest⟩ := List.forall_mem_cons.1 hnames
    obtain ⟨o, t⟩ := f
    obtain ⟨name, rfl⟩ := Option.ne_none_iff_exists'.1 hf
    by_cases hmem : name ∈ names
    · rw [valuesOf_cons_of_mem hmem] at hvalues
      cases hvalues
    · rw [valuesOf_cons_of_not_mem hmem] at hvalues
      exact .cons (.passed hmem) (ih hrest hvalues)

/-- Where one field has one of the names, its value is taken. -/
theorem run_taken {a : α} (hvalues : valuesOf names fields = [tree a]) :
    Run (Takes names tree) none fields (some a) := by
  induction fields with
  | nil => cases hvalues
  | cons f fields ih =>
    obtain ⟨hf, hrest⟩ := List.forall_mem_cons.1 hnames
    obtain ⟨o, t⟩ := f
    obtain ⟨name, rfl⟩ := Option.ne_none_iff_exists'.1 hf
    by_cases hmem : name ∈ names
    · rw [valuesOf_cons_of_mem hmem, List.cons.injEq] at hvalues
      obtain ⟨rfl, hvalues⟩ := hvalues
      exact .cons (.taken hmem) (run_passed hrest hvalues)
    · rw [valuesOf_cons_of_not_mem hmem] at hvalues
      exact .cons (.passed hmem) (ih hrest hvalues)

end Takes

variable {s m : List Char} {f : Option String × Tree} {bound : Nat}

/-! ## Rows -/

namespace Row

variable {row : Row} {known known' : Option Row}

/-- The list of the cells. -/
def tree (row : Row) : Tree := .list (row.map .ofOption)

/-- One of the ways to write a row. -/
inductive WrittenAs (row : Row) : Tree → Prop
  | record {fields : List (Option String × Tree)} (hnames : ∀ f ∈ fields, f.1 ≠ none)
      (hdata : valuesOf ["data"] fields = [row.tree]) : WrittenAs row (.record fields)

theorem reads_cells {blanks v : List Char} (hblanks : IsBlanks blanks) (hv : Spells v row.tree)
    (hbound : v.length < bound) : Reads (cells bound) (blanks ++ v) row := by
  obtain ⟨r, rfl, hr⟩ := spells_list_iff.1 hv
  have hcells : List.Forall₂ (fun t cell => t = .ofOption cell) (row.map Tree.ofOption) row :=
    List.forall₂_map_left_iff.2 (List.forall₂_same.2 fun _ _ => rfl)
  refine reads_list hblanks hr hcells ?_ (Nat.lt_of_succ_lt hbound)
  rintro m _ cell hm rfl -
  exact ⟨hm.starts, reads_optionalText isBlanks_nil hm⟩

theorem reads_readField (hm : Field Spells m f) (hf : Takes ["data"] tree known f known')
    (hbound : m.length < bound) : Reads (readField bound known) m known' := by
  intro rest hrest
  cases hf with
  | taken hname =>
    obtain rfl := List.mem_singleton.1 hname
    obtain ⟨b, b', v, hb, hb', hv, hle, hread⟩ := hm.exists_fieldName
    unfold readField
    rw [hread]
    exact reads_once hb (reads_cells hb' hv (by omega)) rest hrest
  | @passed name _ _ hname =>
    obtain ⟨b, b', v, hb, hb', hv, hle, hread⟩ := hm.exists_fieldName
    unfold readField
    rw [hread]
    show (if name = "data" then _ else _) = _
    rw [if_neg fun h => hname (List.mem_singleton.2 h)]
    exact reads_skipped hb hb' hv (by omega) known rest hrest

/-- Whatever way a row is written, the row is read. -/
theorem WrittenAs.reads {t : Tree} (h : row.WrittenAs t) (hm : Spells m t)
    (hbound : m.length < bound) : Reads (read bound) m row := by
  intro rest _
  obtain ⟨hnames, hdata⟩ := h
  obtain ⟨r, rfl, hr⟩ := spells_record_iff.1 hm
  have hlt : r.length < bound := Nat.lt_of_succ_lt hbound
  have hfields := fields_of_members hr (run_taken hnames hdata)
    (fun m f k k' hm hf hlt => ⟨hm.starts, reads_readField hm hf hlt⟩) hlt hlt rest
  unfold read
  rw [← List.nil_append ('{' :: r), record_eq isBlanks_nil]
  unfold byName
  rw [hfields]
  rfl

end Row

/-! ## Tag records -/

namespace TagRecord

variable {r : TagRecord} {known known' : Known}

def nameKeys : List String := ["name", "tagName"]

/-- A text that may be left out if it is empty. -/
def IsGiven (key text : String) (fields : List (Option String × Tree)) : Prop :=
  valuesOf [key] fields = [.text (some text)] ∨ valuesOf [key] fields = [] ∧ text = ""

/-- One of the ways to write a tag record. -/
inductive WrittenAs (r : TagRecord) : Tree → Prop
  | record {fields : List (Option String × Tree)} (hnames : ∀ f ∈ fields, f.1 ≠ none)
      (hname : valuesOf nameKeys fields = [.text (some r.name)])
      (hunit : IsGiven "unit" r.unit fields)
      (hdescription : IsGiven "description" r.description fields) : WrittenAs r (.record fields)

def textTree (t : String) : Tree := .text (some t)

/-- What a field says about the three parts of a tag record. -/
structure TakesParts (known : Known) (f : Option String × Tree) (known' : Known) : Prop where
  name : Takes nameKeys textTree known.name f known'.name
  unit : Takes ["unit"] textTree known.unit f known'.unit
  description : Takes ["description"] textTree known.description f known'.description

theorem run_takesParts {fields : List (Option String × Tree)}
    (hname : Run (Takes nameKeys textTree) known.name fields known'.name)
    (hunit : Run (Takes ["unit"] textTree) known.unit fields known'.unit)
    (hdescription : Run (Takes ["description"] textTree) known.description fields
      known'.description) : Run TakesParts known fields known' := by
  induction fields generalizing known with
  | nil =>
    obtain ⟨name, unit, description⟩ := known
    obtain ⟨name', unit', description'⟩ := known'
    cases hname
    cases hunit
    cases hdescription
    exact .nil
  | cons f fields ih =>
    cases hname with
    | @cons _ name _ _ _ hname hnames =>
      cases hunit with
      | @cons _ unit _ _ _ hunit hunits =>
        cases hdescription with
        | @cons _ description _ _ _ hdescription hdescriptions =>
          have htakes : TakesParts known f ⟨name, unit, description⟩ :=
            ⟨hname, hunit, hdescription⟩
          exact .cons htakes (ih hnames hunits hdescriptions)

theorem exists_run_given {key text : String} {fields : List (Option String × Tree)}
    (hnames : ∀ f ∈ fields, f.1 ≠ none) (h : IsGiven key text fields) :
    ∃ known, Run (Takes [key] textTree) none fields known ∧ known.getD "" = text := by
  rcases h with h | ⟨h, rfl⟩
  · exact ⟨some text, run_taken hnames h, rfl⟩
  · exact ⟨none, run_passed hnames h, rfl⟩

/-- The keys of the parts are told apart. -/
theorem nameKeys_disjoint : ∀ name ∈ nameKeys, name ∉ ["unit"] ∧ name ∉ ["description"] := by
  decide

/-- The text of a field becomes a part of what is known. -/
theorem reads_part {blanks blanks' v : List Char} {t : String} (hblanks : IsBlanks blanks)
    (hblanks' : IsBlanks blanks') (hv : Spells v (textTree t)) (put : Option String → Known) :
    Reads (fun s => do
      let (t, s) ← once none text s
      return (put t, s)) (blanks ++ ':' :: (blanks' ++ v)) (put (some t)) := by
  intro rest hrest
  show (once none text _ >>= _) = _
  rw [reads_once hblanks (reads_text hblanks' (spells_text_iff.1 hv)) rest hrest]
  rfl

theorem reads_readField (hm : Field Spells m f) (hf : TakesParts known f known')
    (hbound : m.length < bound) : Reads (readField bound known) m known' := by
  intro rest hrest
  obtain ⟨knownName, knownUnit, knownDescription⟩ := known
  obtain ⟨name', unit', description'⟩ := known'
  obtain ⟨hname, hunit, hdescription⟩ := hf
  obtain ⟨o, t⟩ := f
  obtain ⟨name, rfl⟩ : ∃ name, o = some name := by cases hname <;> exact ⟨_, rfl⟩
  obtain ⟨b, b', v, hb, hb', hv, hle, hread⟩ := hm.exists_fieldName
  unfold readField
  rw [hread]
  show (if name = "name" ∨ name = "tagName" then _ else if name = "unit" then _
    else if name = "description" then _ else _) = _
  have hkeys : name ∈ nameKeys ↔ name = "name" ∨ name = "tagName" := by simp [nameKeys]
  -- at most one of the three parts is taken, since their keys are told apart
  cases hname with
  | taken hmem =>
    cases hunit with
    | taken h => exact absurd h (nameKeys_disjoint _ hmem).1
    | passed =>
      cases hdescription with
      | taken h => exact absurd h (nameKeys_disjoint _ hmem).2
      | passed =>
        rw [if_pos (hkeys.1 hmem)]
        exact reads_part hb hb' hv (fun t => ⟨t, _, _⟩) rest hrest
  | passed hno =>
    rw [if_neg (mt hkeys.2 hno)]
    cases hunit with
    | taken h =>
      obtain rfl := List.mem_singleton.1 h
      cases hdescription with
      | taken h => exact absurd h (by decide)
      | passed =>
        rw [if_pos rfl]
        exact reads_part hb hb' hv (fun t => ⟨_, t, _⟩) rest hrest
    | passed hno =>
      rw [if_neg (mt List.mem_singleton.2 hno)]
      cases hdescription with
      | taken h =>
        rw [if_pos (List.mem_singleton.1 h)]
        exact reads_part hb hb' hv (fun t => ⟨_, _, t⟩) rest hrest
      | passed hno =>
        rw [if_neg (mt List.mem_singleton.2 hno)]
        exact reads_skipped hb hb' hv (by omega) _ rest hrest

/-- Whatever way a tag record is written, the record is read. -/
theorem WrittenAs.reads {t : Tree} (h : r.WrittenAs t) (hm : Spells m t)
    (hbound : m.length < bound) : Reads (read bound) m r := by
  intro rest _
  obtain ⟨hnames, hname, hunit, hdescription⟩ := h
  obtain ⟨s, rfl, hs⟩ := spells_record_iff.1 hm
  obtain ⟨unit, hunits, hunit⟩ := exists_run_given hnames hunit
  obtain ⟨description, hdescriptions, hdescription⟩ := exists_run_given hnames hdescription
  have hlt : s.length < bound := Nat.lt_of_succ_lt hbound
  have hrun : Run TakesParts {} _ ⟨some r.name, unit, description⟩ :=
    run_takesParts (run_taken hnames hname) hunits hdescriptions
  have hfields := fields_of_members hs hrun
    (fun m f k k' hm hf hlt => ⟨hm.starts, reads_readField hm hf hlt⟩) hlt hlt rest
  unfold read
  rw [← List.nil_append ('{' :: s), record_eq isBlanks_nil]
  unfold byName
  rw [hfields]
  show Except.ok (TagRecord.mk r.name (unit.getD "") (description.getD ""), rest) = .ok (r, rest)
  rw [hunit, hdescription]

end TagRecord

/-! ## Files -/

variable {rows : List Row} {records : List TagRecord} {trees : List Tree}

/-- A list is read if each of its items is, whatever way it is written. -/
theorem readList_of_written {α : Type} {item : Nat → Bytes → Except Fault (α × Bytes)}
    {R : α → Tree → Prop} {as : List α} (h : Says s (.list trees)) (hR : List.Forall₂ R as trees)
    (hitem : ∀ {bound m t a}, R a t → Spells m t → m.length < bound → Reads (item bound) m a) :
    whole (fun bound => list bound (item bound)) (toUtf8 s) = .ok as := by
  refine whole_of_spelling h fun bound blanks v hblanks hv hbound => ?_
  obtain ⟨r, rfl, hr⟩ := spells_list_iff.1 hv
  exact reads_list hblanks hr hR.flip
    (fun m t a hm ht hlt => ⟨hm.starts, hitem ht hm hlt⟩) (Nat.lt_of_succ_lt hbound)

theorem readRows_of_written (h : Says s (.list trees))
    (hrows : List.Forall₂ Row.WrittenAs rows trees) : readRows (toUtf8 s) = .ok rows :=
  readList_of_written h hrows Row.WrittenAs.reads

theorem readTagRecords_of_written (h : Says s (.list trees))
    (hrecords : List.Forall₂ TagRecord.WrittenAs records trees) :
    readTagRecords (toUtf8 s) = .ok records :=
  readList_of_written h hrecords TagRecord.WrittenAs.reads

theorem File.read_content {α : Type} {name : FileName} {reader : Bytes → Except Fault α}
    {bytes : Bytes} {a : α} (h : reader bytes = .ok a) :
    read name reader (.content bytes) = .ok a := by
  show (reader bytes).mapError _ = _
  rw [h]
  rfl

namespace Dataset

/-- Files make the dataset, or the fault, of the rows and tag records that they say, in whatever way
each of them is written. -/
theorem load_of_written {foods metadata : List Char} {rowTrees recordTrees : List Tree}
    (hfoods : Says foods (.list rowTrees)) (hrows : List.Forall₂ Row.WrittenAs rows rowTrees)
    (hmetadata : Says metadata (.list recordTrees))
    (hrecords : List.Forall₂ TagRecord.WrittenAs records recordTrees) :
    load (.content (toUtf8 foods)) (.content (toUtf8 metadata)) =
      (ofTable rows records).mapError .table := by
  unfold load
  rw [File.read_content (readTagRecords_of_written hmetadata hrecords),
    File.read_content (readRows_of_written hfoods hrows)]
  rfl

/-- A row with spaces, an escape in the name of its field and a field that is not asked for, and a
tag record under the other name, without a description. -/
theorem load_of_written_sample :
    load
        (.content (toUtf8
          " [ \x7b\"x\":[true,\x7b\x7d],\n\"d\\u0061ta\": [\"1\",null]\x7d]".toList))
        (.content (toUtf8 "[\x7b\"tagName\":\"A\",\"unit\":\"g\"\x7d]".toList)) =
      (ofTable [[some "1", none]] [⟨"A", "g", ""⟩]).mapError .table := by
  have hspace : IsBlanks [' '] := List.forall_mem_singleton.2 (by decide)
  have hline : IsBlanks ['\n'] := List.forall_mem_singleton.2 (by decide)
  have hname :
      SpellsQuoted ['"', 'd', '\\', 'u', '0', '0', '6', '1', 't', 'a', '"'] (some "data") := by
    have hself (c : Char) (hc : c = 'd' ∨ c = 't' ∨ c = 'a') : SpellsChar [c] c := by
      refine .self ?_
      rcases hc with rfl | rfl | rfl <;> exact ⟨by decide, by decide, by decide⟩
    have hescape : SpellsChar ['\\', 'u', '0', '0', '6', '1'] 'a' :=
      .unit (.mk (i := 0) (j := 0) (k := 6) (l := 1) (.inl rfl) (.inl rfl) (.inl rfl) (.inl rfl))
    exact ⟨_, .cons (hself 'd' (by simp)) (.cons hescape (.cons (hself 't' (by simp))
      (.cons (hself 'a' (by simp)) .nil))), rfl⟩
  have hother : Field Spells _ _ :=
    Value.field_quoted "x" (Value.spells_write (.list [.bool true, .record []]))
  have hdata : Field Spells _ _ :=
    .mk hname isBlanks_nil hspace (Value.spells_write (.list [.text "1", .null]))
  have hfields : Members '}' (Field Spells) true _ _ :=
    .cons (.first isBlanks_nil) hother
      (.cons (.further isBlanks_nil hline) hdata (.nil isBlanks_nil))
  have hfoods : Says _ _ :=
    .mk hspace (.list (.cons (.first hspace) (.record hfields) (.nil isBlanks_nil))) isBlanks_nil
  have hmetadata :=
    (Value.says_write_iff (.list [.record [("tagName", .text "A"), ("unit", .text "g")]])).2 rfl
  refine load_of_written hfoods (.cons (.record ?_ rfl) .nil) hmetadata
    (.cons (.record ?_ rfl ?_ ?_) .nil)
  · simp
  · simp [Value.fieldTrees]
  · exact .inl rfl
  · exact .inr ⟨rfl, rfl⟩

end Dataset

end FoodTable
