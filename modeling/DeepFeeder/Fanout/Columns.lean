import Mathlib.Data.Finset.Image
import DeepFeeder.Fanout.Core
import DeepFeeder.Fanout.Snapshot

set_option autoImplicit false

namespace DeepFeeder

def Row.value (row : Row) (timeCol name : String) : Value :=
  if name = timeCol then .int row.time else row.get name

abbrev Record := List (String × Value)

structure PaTable where
  names : List String
  rows : List Row

namespace PaTable

def select (t : PaTable) (keep : List String) : PaTable := { t with names := keep }

def record (t : PaTable) (timeCol : String) (row : Row) : Record :=
  t.names.map fun name => (name, row.value timeCol name)

-- The table of a batch has the columns of its first row.
def ofRows (timeCol : String) (rows : List Row) : PaTable :=
  { names := match rows with
      | [] => []
      | first :: _ => timeCol :: first.names
    rows }

end PaTable

-- `str.lower`: of the other characters only the Kelvin sign becomes an ASCII letter.
def lower (s : String) : String :=
  s.map fun c => if c = Char.ofNat 0x212A then 'k' else c.toLower

def filterFields (fields : Option (Finset String)) (t : PaTable) : Option PaTable :=
  match fields with
  | none => some t
  | some fields =>
      let colsReq := fields.image lower
      match t.names.filter fun name => decide (lower name ∈ colsReq) with
      | [] => none
      | keep => some (t.select keep)

def mustKeep (spec : SchemaSpec) (timeCol : String) : List String := [timeCol, spec.symbolCol]

-- Here the names are compared as they are.
def snapshotNames (spec : SchemaSpec) (timeCol : String) (fields : Option (List String)) :
    List String :=
  match fields with
  | none | some [] => spec.cols
  | some fields =>
      spec.cols.filter fun name => fields.contains name || (mustKeep spec timeCol).contains name

def snapshotRange [Uppercase] [QueryLanguage] (spec : SchemaSpec) (timeCol : String)
    (table : List Row) (q : Query) (fields : Option (List String)) : PaTable :=
  match snapshotNames spec timeCol fields with
  | [] => { names := [], rows := [] }
  | names => { names, rows := q.rows spec table }

-- The buffered batches are replayed with all their columns, whatever `fields` says.
def catchupTable (timeCol : String) (part : List Row) : PaTable := .ofRows timeCol part

def liveTable (timeCol : String) (fields : Option (Finset String)) (part : List Row) :
    Option PaTable :=
  filterFields fields (.ofRows timeCol part)

variable {spec : SchemaSpec} {table : List Row} {q : Query} {row : Row}

theorem mustKeep_cols {provider dataSchema : String}
    (registered : schemas provider dataSchema = some spec) :
    ∀ name ∈ mustKeep spec (timeCol provider dataSchema), name ∈ spec.cols := by
  have all : ∀ item ∈ schemaItems,
      ∀ name ∈ mustKeep item.2.2 (timeCol item.1 item.2.1), name ∈ item.2.2.cols := by decide
  exact all _ (mem_schemaItems registered)

theorem mem_record (t : PaTable) (timeCol : String) (row : Row) (cell : String × Value) :
    cell ∈ t.record timeCol row ↔ cell.1 ∈ t.names ∧ cell.2 = row.value timeCol cell.1 := by
  unfold PaTable.record
  rw [List.mem_map]
  constructor
  · rintro ⟨name, member, rfl⟩
    exact ⟨member, rfl⟩
  · rintro ⟨member, value⟩
    exact ⟨cell.1, member, by rw [← value]⟩

theorem snapshotRange_names [Uppercase] [QueryLanguage] (spec : SchemaSpec) (timeCol : String)
    (table : List Row) (q : Query) (fields : Option (List String)) :
    (snapshotRange spec timeCol table q fields).names = snapshotNames spec timeCol fields := by
  unfold snapshotRange
  split
  next nothing => exact nothing.symm
  next => rfl

theorem snapshotNames_ne_nil {provider dataSchema : String}
    (registered : schemas provider dataSchema = some spec) (fields : Option (List String)) :
    snapshotNames spec (timeCol provider dataSchema) fields ≠ [] := by
  have time := mustKeep_cols registered _ List.mem_cons_self
  unfold snapshotNames
  split
  · exact List.ne_nil_of_mem time
  · exact List.ne_nil_of_mem time
  · exact List.ne_nil_of_mem (List.mem_filter.mpr ⟨time, by simp [mustKeep]⟩)

theorem snapshotRange_rows [Uppercase] [QueryLanguage] {provider dataSchema : String}
    (registered : schemas provider dataSchema = some spec) (table : List Row) (q : Query)
    (fields : Option (List String)) :
    (snapshotRange spec (timeCol provider dataSchema) table q fields).rows = q.rows spec table := by
  unfold snapshotRange
  split
  next nothing => exact absurd nothing (snapshotNames_ne_nil registered fields)
  next => rfl

theorem mem_snapshotRange [Uppercase] [QueryLanguage] {timeCol : String} {fields : Option (List String)}
    (member : row ∈ (snapshotRange spec timeCol table q fields).rows) :
    row ∈ table ∧ q.selects spec row = true := by
  unfold snapshotRange at member
  split at member
  next => cases member
  next => exact Query.mem_rows.mp member

theorem mem_filterFields {fields : Finset String} {t live : PaTable}
    (filtered : filterFields (some fields) t = some live) (name : String) :
    name ∈ live.names ↔ name ∈ t.names ∧ lower name ∈ fields.image lower := by
  unfold filterFields at filtered
  simp only at filtered
  split at filtered
  next => cases filtered
  next =>
    cases filtered
    change name ∈ t.names.filter _ ↔ _
    rw [List.mem_filter, decide_eq_true_eq]

theorem filterFields_rows {fields : Option (Finset String)} {t live : PaTable}
    (filtered : filterFields fields t = some live) : live.rows = t.rows := by
  unfold filterFields at filtered
  split at filtered
  next =>
    cases filtered
    rfl
  next =>
    simp only at filtered
    split at filtered
    next => cases filtered
    next =>
      cases filtered
      rfl

theorem filterFields_some {fields : Finset String} {t : PaTable} {name : String}
    (member : name ∈ t.names) (requested : lower name ∈ fields.image lower) :
    ∃ live, filterFields (some fields) t = some live := by
  have kept : name ∈ t.names.filter fun name => decide (lower name ∈ fields.image lower) := by
    rw [List.mem_filter, decide_eq_true_eq]
    exact ⟨member, requested⟩
  unfold filterFields
  simp only
  split
  next nothing => rw [nothing] at kept; cases kept
  next => exact ⟨_, rfl⟩

end DeepFeeder
