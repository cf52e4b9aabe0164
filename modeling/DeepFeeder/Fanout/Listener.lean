import DeepFeeder.Core.Contracts

set_option autoImplicit false

namespace DeepFeeder

-- The fields that the listener and the snapshot query read.
structure SchemaSpec where
  symbolCol : String
  cols : List String
  binPeriodMinutes : Option Int

def SchemaSpec.isBar (spec : SchemaSpec) : Bool :=
  match spec.binPeriodMinutes with
  | some minutes => minutes ≠ 0
  | none => false

def binanceTrades : SchemaSpec :=
  { symbolCol := "Symbol"
    cols := ["Timestamp", "Symbol", "TradeID", "Price", "Quantity", "BuyerID", "SellerID",
      "IsBuyerMaker"]
    binPeriodMinutes := none }

def tradingviewOhlcv1m : SchemaSpec :=
  { symbolCol := "Symbol"
    cols := ["Timestamp", "Exchange", "Symbol", "BarId", "Open", "High", "Low", "Close", "Volume",
      "IsFinal"]
    binPeriodMinutes := some 1 }

-- A row dictionary: the value of the time column, and the other columns in their order.
@[ext] structure Row where
  time : Int
  cells : List (String × Value)
  distinct : (cells.map Prod.fst).Nodup

namespace Row

def names (row : Row) : List String := row.cells.map Prod.fst

def get (row : Row) (name : String) : Value := (row.cells.lookup name).getD .none

-- A table without the column has no placeholders.
def isPlaceholder (row : Row) : Bool := (row.get "IsEmpty").truthy

def project (row : Row) (columns : Row) : Row where
  time := row.time
  cells := columns.cells.map fun cell => (cell.1, row.get cell.1)
  distinct := by
    rw [List.map_map]
    exact columns.distinct

theorem lookup_map (f : String → Value) (cells : List (String × Value)) {name : String}
    (member : name ∈ cells.map Prod.fst) :
    (cells.map fun cell => (cell.1, f cell.1)).lookup name = some (f name) := by
  induction cells with
  | nil => cases member
  | cons cell rest ih =>
      rw [List.map_cons, List.lookup_cons]
      by_cases same : name = cell.1
      · simp [same]
      · have later : name ∈ rest.map Prod.fst := by simpa [same] using member
        have different : (name == cell.1) = false := beq_eq_false_iff_ne.mpr same
        simp only [different, ih later]

theorem project_names (row columns : Row) : (row.project columns).names = columns.names := by
  simp [names, project]

theorem project_get (row columns : Row) {name : String} (member : name ∈ columns.names) :
    (row.project columns).get name = row.get name := by
  unfold get project
  rw [lookup_map row.get columns.cells member]
  rfl

theorem mem_names {row : Row} {name text : String} (given : row.get name = .str text) :
    name ∈ row.names := by
  by_contra absent
  have missing : row.cells.lookup name = none := by
    rw [List.lookup_eq_none_iff]
    intro cell member
    rw [bne_iff_ne]
    rintro rfl
    exact absent (List.mem_map_of_mem member)
  rw [get, missing] at given
  cases given

theorem project_get_of_absent (row columns : Row) {name : String} (absent : name ∉ columns.names) :
    (row.project columns).get name = .none := by
  have none_ : (row.project columns).cells.lookup name = none := by
    rw [List.lookup_eq_none_iff]
    intro cell member
    rw [bne_iff_ne]
    rintro rfl
    exact absent (project_names row columns ▸ List.mem_map_of_mem member)
  unfold get
  rw [none_]
  rfl

theorem project_eq_self {row columns : Row} (same : columns.names = row.names) :
    row.project columns = row := by
  have own : (row.cells.map fun cell => (cell.1, row.get cell.1)) = row.cells :=
    map_lookup row.distinct
  have cells : (columns.cells.map fun cell => (cell.1, row.get cell.1)) =
      row.cells.map fun cell => (cell.1, row.get cell.1) := by
    have mapped := congrArg (List.map fun name => (name, row.get name)) same
    simpa [names, List.map_map, Function.comp_def] using mapped
  ext1
  · rfl
  · exact cells.trans own

end Row

-- `pa.Table.from_pylist` takes its columns from the first row.
def fromPylist (rows : List Row) : List Row :=
  match rows with
  | [] => []
  | first :: _ => rows.map fun row => row.project first

structure TableUpdate where
  added : List Row
  modified : List Row

structure Batch where
  added : Option (List Row)
  updated : Option (List Row)
  completed : Option (List Row)
  tsNs : Int

def Batch.rows (batch : Batch) : List Row :=
  batch.added.getD [] ++ batch.updated.getD [] ++ batch.completed.getD []

structure SymListener where
  spec : SchemaSpec
  curr : Option Row
  buf : List Batch
  bufMaxlen : Nat

namespace SymListener

def init (spec : SchemaSpec) (bufMaxlen : Nat) : SymListener :=
  { spec, curr := none, buf := [], bufMaxlen }

structure Adding where
  curr : Option Row
  completedRows : List Row
  placeholderOnly : Bool

def minimalBar (spec : SchemaSpec) (row : Row) : Row where
  time := row.time
  cells := [(spec.symbolCol, row.get spec.symbolCol)]
  distinct := by simp

def addRow (spec : SchemaSpec) (s : Adding) (row : Row) : Adding :=
  let completedRows := match s.curr with
    | some curr => if curr.time < row.time then s.completedRows ++ [curr] else s.completedRows
    | none => s.completedRows
  if row.isPlaceholder then
    { curr := some (minimalBar spec row), completedRows, placeholderOnly := s.placeholderOnly }
  else { curr := some row, completedRows, placeholderOnly := false }

def addRows (l : SymListener) (rows : List Row) : Adding :=
  rows.foldl (addRow l.spec) ⟨l.curr, [], true⟩

-- Only the last modified row is looked at.
def modifyBar (curr : Option Row) (modified : List Row) : Option Row :=
  match modified.getLast?, curr with
  | none, _ => curr
  | some row, none => some row
  | some row, some bar => if bar.time ≤ row.time then some row else some bar

-- `deque(maxlen)` drops from the left.
def remember (l : SymListener) (batch : Batch) : List Batch :=
  (l.buf ++ [batch]).drop (l.buf.length + 1 - l.bufMaxlen)

def nonEmpty (rows : List Row) : Option (List Row) := if rows.isEmpty then none else some rows

def onUpdate (l : SymListener) (update : TableUpdate) (nowNs : Int) : Batch × SymListener :=
  if l.spec.isBar then
    let adding := l.addRows update.added
    let batch : Batch :=
      { added := if adding.placeholderOnly then none else nonEmpty update.added
        updated := nonEmpty update.modified
        completed := nonEmpty (fromPylist adding.completedRows)
        tsNs := nowNs }
    (batch, { l with curr := modifyBar adding.curr update.modified, buf := l.remember batch })
  else
    let batch : Batch :=
      { added := nonEmpty update.added
        updated := nonEmpty update.modified
        completed := nonEmpty update.added
        tsNs := nowNs }
    (batch, { l with buf := l.remember batch })

@[simp] theorem nonEmpty_getD (rows : List Row) : (nonEmpty rows).getD [] = rows := by
  cases rows <;> rfl

@[simp] theorem fromPylist_times (rows : List Row) :
    (fromPylist rows).map Row.time = rows.map Row.time := by
  cases rows with
  | nil => rfl
  | cons first rest => simp [fromPylist, Row.project]

theorem addRow_curr (spec : SchemaSpec) (s : Adding) (row : Row) :
    (addRow spec s row).curr = some (if row.isPlaceholder then minimalBar spec row else row) := by
  unfold addRow
  split_ifs
  · rfl
  · rfl

theorem addRow_time (spec : SchemaSpec) (s : Adding) (row : Row) :
    (addRow spec s row).curr.map Row.time = some row.time := by
  rw [addRow_curr, Option.map_some]
  split
  · rfl
  · rfl

theorem addRow_completed (spec : SchemaSpec) (s : Adding) (row : Row) :
    (addRow spec s row).completedRows =
      s.completedRows ++ s.curr.toList.filter fun bar => bar.time < row.time := by
  have same : (addRow spec s row).completedRows = match s.curr with
      | some curr => if curr.time < row.time then s.completedRows ++ [curr] else s.completedRows
      | none => s.completedRows := by
    unfold addRow
    split_ifs
    · rfl
    · rfl
  rw [same]
  cases s.curr with
  | none => simp
  | some bar => by_cases newer : bar.time < row.time <;> simp [newer]

theorem onUpdate_bar {l : SymListener} (bar : l.spec.isBar = true) (update : TableUpdate)
    (nowNs : Int) :
    (l.onUpdate update nowNs).1.completed.getD [] =
        fromPylist (l.addRows update.added).completedRows ∧
      (l.onUpdate update nowNs).2.curr = modifyBar (l.addRows update.added).curr update.modified ∧
      (l.onUpdate update nowNs).2.spec = l.spec := by
  unfold onUpdate
  rw [if_pos bar]
  exact ⟨nonEmpty_getD _, rfl, rfl⟩

theorem onUpdate_tick {l : SymListener} (tick : l.spec.isBar = false) (update : TableUpdate)
    (nowNs : Int) :
    (l.onUpdate update nowNs).1.completed.getD [] = update.added ∧
      (l.onUpdate update nowNs).2.spec = l.spec := by
  unfold onUpdate
  rw [if_neg (by simp [tick])]
  exact ⟨nonEmpty_getD _, rfl⟩

theorem onUpdate_remembers (l : SymListener) (update : TableUpdate) (nowNs : Int) :
    (l.onUpdate update nowNs).2.spec = l.spec ∧
      ∀ batch ∈ (l.onUpdate update nowNs).2.buf,
        batch ∈ l.buf ∨ batch = (l.onUpdate update nowNs).1 := by
  have buf : (l.onUpdate update nowNs).2.buf = l.remember (l.onUpdate update nowNs).1 := by
    unfold onUpdate
    split
    · rfl
    · rfl
  constructor
  · unfold onUpdate
    split
    · rfl
    · rfl
  · intro batch member
    rw [buf] at member
    simpa using List.mem_of_mem_drop member

-- What is true of the rows of the updates, and of what placeholders leave of them, is true of the
-- bars that the listener keeps and of the rows of its batches.

section Rows

variable {P : Row → Prop} {spec : SchemaSpec}

theorem addRows_all (bare : ∀ row, P row → P (minimalBar spec row)) (rows : List Row) {s : Adding}
    (added : ∀ row ∈ rows, P row) (curr : ∀ bar, s.curr = some bar → P bar)
    (completed : ∀ bar ∈ s.completedRows, P bar) :
    (∀ bar, (rows.foldl (addRow spec) s).curr = some bar → P bar) ∧
      ∀ bar ∈ (rows.foldl (addRow spec) s).completedRows, P bar := by
  induction rows generalizing s with
  | nil => exact ⟨curr, completed⟩
  | cons row rest ih =>
      have own := added row List.mem_cons_self
      apply ih fun other member => added other (List.mem_cons_of_mem _ member)
      · intro bar here
        rw [addRow_curr, Option.some.injEq] at here
        subst here
        split
        · exact bare row own
        · exact own
      · intro bar member
        rw [addRow_completed, List.mem_append] at member
        rcases member with before | last
        · exact completed bar before
        · exact curr bar (Option.mem_toList.mp (List.mem_filter.mp last).1)

theorem modifyBar_all {curr : Option Row} {modified : List Row} (own : ∀ row ∈ modified, P row)
    (bars : ∀ bar, curr = some bar → P bar) : ∀ bar, modifyBar curr modified = some bar → P bar := by
  intro bar here
  unfold modifyBar at here
  split at here
  next => exact bars bar here
  next row last =>
    cases here
    exact own _ (List.mem_of_getLast? last)
  next row current last =>
    split at here
    next =>
      cases here
      exact own _ (List.mem_of_getLast? last)
    next =>
      cases here
      exact bars _ rfl

theorem fromPylist_all (projected : ∀ row columns, P row → P columns → P (row.project columns))
    {rows : List Row} (own : ∀ row ∈ rows, P row) : ∀ row ∈ fromPylist rows, P row := by
  intro row member
  cases rows with
  | nil => cases member
  | cons first rest =>
      obtain ⟨bar, inside, rfl⟩ := List.mem_map.mp member
      exact projected bar first (own bar inside) (own first List.mem_cons_self)

theorem onUpdate_all (l : SymListener) (update : TableUpdate) (nowNs : Int)
    (bare : ∀ row, P row → P (minimalBar l.spec row))
    (projected : ∀ row columns, P row → P columns → P (row.project columns))
    (curr : ∀ bar, l.curr = some bar → P bar) (added : ∀ row ∈ update.added, P row)
    (modified : ∀ row ∈ update.modified, P row) :
    (∀ row ∈ (l.onUpdate update nowNs).1.rows, P row) ∧
      ∀ bar, (l.onUpdate update nowNs).2.curr = some bar → P bar := by
  obtain ⟨bars, completed⟩ :=
    addRows_all (s := ⟨l.curr, [], true⟩) bare update.added added curr (fun _ member => nomatch member)
  unfold onUpdate Batch.rows
  split
  next =>
    refine ⟨?_, modifyBar_all modified bars⟩
    simp only [nonEmpty_getD, List.mem_append]
    rintro row ((inside | inside) | inside)
    · split at inside
      next => cases inside
      next => exact added row (by simpa using inside)
    · exact modified row inside
    · exact fromPylist_all projected completed row inside
  next =>
    refine ⟨?_, curr⟩
    simp only [nonEmpty_getD, List.mem_append]
    rintro row ((inside | inside) | inside)
    · exact added row inside
    · exact modified row inside
    · exact added row inside

end Rows

end SymListener

end DeepFeeder
