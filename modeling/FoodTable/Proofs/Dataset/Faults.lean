import FoodTable.Proofs.Dataset.Loading
import FoodTable.Proofs.FirstFault

/-!
# Faults of tables

A table that makes no dataset is refused for its first fault in reading order (`TableFault`): the
first tag that repeats an earlier one, whatever the rows are, or else the first of the checks
(`RowCheck.inOrder`) that the first bad row does not pass. The rows before it make a dataset, and
the rows after it play no part.
-/

namespace FoodTable

/-- What is checked of a row. -/
inductive RowCheck where
  | length
  | present (column : FixedColumn)
  | category
  | id
  | newId
  deriving DecidableEq, Repr

namespace RowCheck

/-- The checks of a row by itself. -/
def alone : List RowCheck :=
  [length, present .category, present .foodId, present .index, present .foodName, category, id]

/-- All checks, in the order in which they are made. -/
def inOrder : List RowCheck := alone ++ [newId]

/-- A row that comes after the rows `before` does not pass the check, and `e` says so. -/
def Fault (tagCount : Nat) (before : List Row) (row : Row) : RowCheck → TableError → Prop
  | length, e =>
    row.length ≠ 4 + tagCount ∧ e = .rowLength before.length (4 + tagCount) row.length
  | present column, e =>
    row[column.position]? = some none ∧ e = .missingField before.length column
  | category, e =>
    ∃ text, row[0]? = some (some text) ∧ (∀ code, ¬ Category.Denotes text.toList code) ∧
      e = .invalidCategory before.length text
  | id, e =>
    ∃ text, row[1]? = some (some text) ∧
      ¬ (text.toList.length = 5 ∧ ∀ c ∈ text.toList, c.isDigit = true) ∧
      e = .invalidFoodId before.length text
  | newId, e =>
    ∃ text, row[1]? = some (some text) ∧ row[1]? ∈ before.map (·[1]?) ∧ e = .duplicateFoodId text

end RowCheck

/-- The row that comes after the rows `before` is bad, and `e` is the first of its faults. -/
def RowFault (tagCount : Nat) (before : List Row) (row : Row) (e : TableError) : Prop :=
  FirstFault (RowCheck.Fault tagCount before row) RowCheck.inOrder e

/-- The name is the first one that repeats an earlier name. -/
def FirstRepeat (names : List String) (name : String) : Prop :=
  ∃ before after, names = before ++ name :: after ∧ before.Nodup ∧ name ∈ before

/-- The first fault of a table in reading order. -/
inductive TableFault (rows : List Row) (records : List TagRecord) : TableError → Prop where
  | tag {name : String} (h : FirstRepeat (records.map (·.name)) name) :
    TableFault rows records (.duplicateTag name)
  | row {before after : List Row} {row : Row} {e : TableError}
    (parts : rows = before ++ row :: after) (wellFormed : WellFormedTable before records)
    (fault : RowFault records.length before row e) : TableFault rows records e

/-! ## Rows -/

section Rows

variable {row : Row} {number : Nat} {v : Vocabulary} {records : List TagRecord} {d : Dataset}
  {before : List Row} {e : TableError}

namespace Row

theorem field_eq_error_iff {column : FixedColumn} (h : column.position < row.length) :
    row.field number column = .error e ↔
      row[column.position]? = some none ∧ e = .missingField number column := by
  unfold field
  rw [List.getElem?_eq_getElem h]
  cases row[column.position] with
  | none => simp [eq_comm]
  | some text => simp

/-- A row makes no food because of the first of its faults. -/
theorem toFood_eq_error_iff (h : v.Holds records) : row.toFood before.length v = .error e ↔
    FirstFault (RowCheck.Fault records.length before row) RowCheck.alone e := by
  unfold toFood
  dsimp only
  rw [h.size]
  -- one check after the other, in the order of `RowCheck.alone`
  refine ite_throw_eq_error_iff_firstFault (fun e' => Iff.rfl) fun hlength => ?_
  have hfield (column : FixedColumn) (e' : TableError) :
      row.field before.length column = .error e' ↔
        FirstFault (RowCheck.Fault records.length before row) [.present column] e' := by
    have hlt : column.position < row.length := by
      rw [not_not.1 hlength]
      cases column <;> simp only [FixedColumn.position, FixedColumn.count] <;> omega
    rw [firstFault_singleton_iff]
    exact field_eq_error_iff hlt
  refine bind_eq_error_iff_firstFault (hfield .category) fun category hcategory => ?_
  refine bind_eq_error_iff_firstFault (hfield .foodId) fun id hid => ?_
  refine bind_eq_error_iff_firstFault (hfield .index) fun index _ => ?_
  refine bind_eq_error_iff_firstFault (hfield .foodName) fun name _ => ?_
  simp only [field_eq_ok_iff, FixedColumn.position] at hcategory hid
  have hcode (e' : TableError) : RowCheck.Fault records.length before row .category e' ↔
      Category.code? category.toList = none ∧ e' = .invalidCategory before.length category := by
    simp [RowCheck.Fault, hcategory, ← Category.code?_eq_some_iff,
      Option.eq_none_iff_forall_ne_some]
  have hfoodId (e' : TableError) : RowCheck.Fault records.length before row .id e' ↔
      (!isFoodId id) = true ∧ e' = .invalidFoodId before.length id := by
    simp only [RowCheck.Fault, hid, Option.some.injEq, exists_eq_left', ← isFoodId_iff,
      Bool.not_eq_true, Bool.not_eq_true']
  rw [firstFault_cons_iff]
  simp only [hcode]
  cases Category.code? category.toList with
  | none =>
    have hthrow : (throw (.invalidCategory before.length category) : Except TableError Food) =
        .error (.invalidCategory before.length category) := rfl
    simp [hthrow, eq_comm]
  | some code =>
    simp only [reduceCtorEq, false_and, not_false_eq_true, implies_true, true_and, false_or]
    exact ite_throw_eq_error_iff_firstFault hfoodId fun _ => pure_eq_error_iff_firstFault

end Row

namespace Dataset.Holds

theorem size (h : d.Holds v before) : d.foods.size = before.length := by
  rw [← Array.length_toList, h.foods.length_eq]

/-- The index has the ids of the rows before. -/
theorem contains_iff (h : d.Holds v before) {id : String} :
    d.positions.contains id = true ↔ some (some id) ∈ before.map (·[1]?) := by
  rw [h.positions.contains_iff, h.ids, List.mem_map_of_injective]
  exact fun a b hab => by simpa using hab

/-- A row is not taken in because of the first of its faults. -/
theorem push_eq_error_iff (h : d.Holds v before) (hv : v.Holds records) :
    d.push row = .error e ↔ RowFault records.length before row e := by
  unfold Dataset.push
  rw [h.size, h.vocabulary]
  refine bind_eq_error_iff_firstFault (fun e' => Row.toFood_eq_error_iff hv) fun food hfood => ?_
  have hid := (Row.toFood_eq_ok_iff.1 hfood).2.2.1
  refine ite_throw_eq_error_iff_firstFault (fun e' => ?_) fun _ => pure_eq_error_iff_firstFault
  simp only [RowCheck.Fault, h.contains_iff, hid, Option.some.injEq, exists_eq_left']

/-- A row is bad exactly if it is not well formed or has the id of a row before it. -/
theorem exists_rowFault_iff (h : d.Holds v before) (hv : v.Holds records) :
    (∃ e, RowFault records.length before row e) ↔
      ¬ row.WellFormed records.length ∨ row[1]? ∈ before.map (·[1]?) := by
  simp only [← h.push_eq_error_iff hv]
  rw [← not_iff_not, not_exists, ← exists_ok_iff_forall_ne_error, not_or, not_not]
  constructor
  · rintro ⟨d', hd'⟩
    obtain ⟨food, hfood, hnew, -⟩ := Dataset.push_eq_ok_iff.1 hd'
    rw [h.vocabulary] at hfood
    rw [h.contains_iff, ← (Row.toFood_eq_ok_iff.1 hfood).2.2.1] at hnew
    exact ⟨(Row.exists_toFood_iff hv).1 ⟨food, hfood⟩, hnew⟩
  · rintro ⟨hrow, hid⟩
    exact h.exists_push hv hrow hid

end Dataset.Holds

end Rows

/-! ## Tags -/

/-- A metadata table makes no vocabulary because of the first name that repeats an earlier one. -/
theorem Vocabulary.ofRecords_eq_error_iff {records : List TagRecord} {name : String} :
    ofRecords records = .error name ↔ FirstRepeat (records.map (·.name)) name := by
  have hpush {before : List TagRecord} {v : Vocabulary} (hv : v.Holds before) (r : TagRecord) :
      v.push r = .error name ↔ r.name ∈ before.map (·.name) ∧ r.name = name := by
    by_cases hr : r.name ∈ before.map (·.name)
    · rw [hv.push_of_mem hr]
      simp [hr]
    · obtain ⟨v', hv', -⟩ := hv.push_of_not_mem hr
      simp [hv', hr]
  unfold ofRecords
  rw [foldlM_eq_error_iff]
  constructor
  · rintro ⟨before, r, after, v, rfl, hv, hr⟩
    have hholds := holds_of_ofRecords hv
    obtain ⟨hmem, rfl⟩ := (hpush hholds r).1 hr
    exact ⟨before.map (·.name), after.map (·.name), by simp, hholds.columns.nodup, hmem⟩
  · rintro ⟨names, names', h, hnodup, hmem⟩
    obtain ⟨before, rest, rfl, rfl, hrest⟩ := List.map_eq_append_iff.1 h
    obtain ⟨r, after, rfl, rfl, rfl⟩ := List.map_eq_cons_iff.1 hrest
    obtain ⟨v, hv, hholds⟩ := exists_ofRecords hnodup
    exact ⟨before, r, after, v, rfl, hv, (hpush hholds r).2 ⟨hmem, rfl⟩⟩

/-! ## Tables -/

namespace Dataset

variable {rows before after : List Row} {row : Row} {records : List TagRecord} {d : Dataset}
  {e : TableError}

theorem size_of_ofTable (h : ofTable rows records = .ok d) : d.size = rows.length := by
  obtain ⟨v, -, hd⟩ := exists_holds_of_ofTable h
  exact hd.size

theorem foldlM_push_eq_error_iff {v : Vocabulary} (hv : v.Holds records) :
    rows.foldlM push (start v) = .error e ↔ ∃ before row after, rows = before ++ row :: after ∧
      WellFormedTable before records ∧ RowFault records.length before row e := by
  rw [foldlM_eq_error_iff]
  constructor
  · rintro ⟨before, row, after, d, hparts, hd, hpush⟩
    have hholds := holds_of_foldlM hd
    exact ⟨before, row, after, hparts, hholds.wellFormedTable hv,
      (hholds.push_eq_error_iff hv).1 hpush⟩
  · rintro ⟨before, row, after, hparts, hbefore, hfault⟩
    obtain ⟨d, hd⟩ := exists_foldlM hv hbefore.wellFormed hbefore.ids
    exact ⟨before, row, after, d, hparts, hd,
      ((holds_of_foldlM hd).push_eq_error_iff hv).2 hfault⟩

/-- A table makes no dataset because of its first fault. -/
theorem ofTable_eq_error_iff : ofTable rows records = .error e ↔ TableFault rows records e := by
  unfold ofTable
  cases hv : Vocabulary.ofRecords records with
  | error name =>
    constructor
    · intro h
      obtain rfl := Except.error.inj h
      exact .tag (Vocabulary.ofRecords_eq_error_iff.1 hv)
    · intro h
      cases h with
      | tag hrepeat =>
        rw [← Vocabulary.ofRecords_eq_error_iff, hv] at hrepeat
        rw [Except.error.inj hrepeat]
      | row _ wellFormed _ =>
        obtain ⟨v, hv', -⟩ := Vocabulary.exists_ofRecords wellFormed.tags
        rw [hv] at hv'
        cases hv'
  | ok v =>
    refine (foldlM_push_eq_error_iff (Vocabulary.holds_of_ofRecords hv)).trans ?_
    constructor
    · rintro ⟨before, row, after, hparts, hbefore, hfault⟩
      exact .row hparts hbefore hfault
    · intro h
      cases h with
      | tag hrepeat =>
        rw [← Vocabulary.ofRecords_eq_error_iff, hv] at hrepeat
        cases hrepeat
      | row hparts hbefore hfault => exact ⟨_, _, _, hparts, hbefore, hfault⟩

/-- Loading either gives a dataset with a food for every row, or the first fault of the table in
reading order: the first tag that repeats an earlier one, whatever the rows are, or the first fault
of the first bad row, whatever the rows after it are. A row is bad exactly if it is not well formed
or has the id of a row before it. -/
theorem ofTable_first_fault (rows : List Row) (records : List TagRecord) :
    (∀ e, ofTable rows records = .error e ↔ TableFault rows records e) ∧
      (∀ d, ofTable rows records = .ok d → WellFormedTable rows records ∧ d.size = rows.length) ∧
      (∀ name, FirstRepeat (records.map (·.name)) name →
        ∀ rows', ofTable rows' records = .error (.duplicateTag name)) ∧
      ∀ before row, WellFormedTable before records →
        ((∃ e, RowFault records.length before row e) ↔
          ¬ row.WellFormed records.length ∨ row[1]? ∈ before.map (·[1]?)) ∧
        ∀ e, RowFault records.length before row e →
          ∀ after, ofTable (before ++ row :: after) records = .error e := by
  refine ⟨fun e => ofTable_eq_error_iff,
    fun d h => ⟨exists_ofTable_iff.1 ⟨d, h⟩, size_of_ofTable h⟩,
    fun name h rows' => ofTable_eq_error_iff.2 (.tag h), fun before row hbefore => ⟨?_, ?_⟩⟩
  · obtain ⟨d, hd⟩ := exists_ofTable_iff.2 hbefore
    obtain ⟨v, hv, hholds⟩ := exists_holds_of_ofTable hd
    exact hholds.exists_rowFault_iff hv
  · exact fun e hfault after => ofTable_eq_error_iff.2 (.row rfl hbefore hfault)

/-- A row without an index that has a bad category and the id of another row, before a row that is
too short. Names that repeat, of which the second one does so first, with the row that is too short
alone. -/
theorem ofTable_first_fault_sample :
    ofTable (sampleRows ++ [some "99", some "11123", none, some "leek", none, none] :: [[]])
        sampleRecords = .error (.missingField 3 .index) ∧
      ofTable [[]] [⟨"NA", "mg", ""⟩, ⟨"WATER", "g", ""⟩, ⟨"WATER", "mg", ""⟩, ⟨"NA", "", ""⟩] =
        .error (.duplicateTag "WATER") := by
  constructor
  · obtain ⟨-, -, -, hrow⟩ := ofTable_first_fault [] sampleRecords
    refine (hrow sampleRows _ wellFormedTable_sample).2 _ ?_ _
    refine ⟨[.length, .present .category, .present .foodId], .present .index,
      [.present .foodName, .category, .id, .newId], rfl, ?_, rfl, rfl⟩
    simp [RowCheck.Fault, FixedColumn.position, sampleRecords]
  · obtain ⟨-, -, htag, -⟩ := ofTable_first_fault []
      [⟨"NA", "mg", ""⟩, ⟨"WATER", "g", ""⟩, ⟨"WATER", "mg", ""⟩, ⟨"NA", "", ""⟩]
    exact htag "WATER" ⟨["NA", "WATER"], ["NA"], rfl, by decide, by decide⟩ [[]]

end Dataset

end FoodTable
