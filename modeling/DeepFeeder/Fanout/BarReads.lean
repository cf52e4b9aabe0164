import DeepFeeder.Fanout.RuntimeBridge

set_option autoImplicit false

namespace DeepFeeder

def symbolOf (spec : SchemaSpec) (row : Row) : Option String :=
  match row.get spec.symbolCol with
  | .str symbol => some symbol
  | _ => none

/-- No row of the same symbol is newer, whether or not it is a placeholder. -/
def Newest (spec : SchemaSpec) (table : List Row) (row : Row) : Prop :=
  ∀ other ∈ table, symbolOf spec other = symbolOf spec row → other.time ≤ row.time

instance (spec : SchemaSpec) (table : List Row) (row : Row) : Decidable (Newest spec table row) :=
  inferInstanceAs (Decidable (∀ other ∈ table, _ → _))

def Superseded (spec : SchemaSpec) (symbol : String) (table : List Row) (row : Row) : Prop :=
  row.get spec.symbolCol = .str symbol ∧
    ∃ newer ∈ table, newer.get spec.symbolCol = .str symbol ∧ row.time < newer.time

theorem symbolOf_str {spec : SchemaSpec} {row : Row} {symbol : String}
    (own : row.get spec.symbolCol = .str symbol) : symbolOf spec row = some symbol := by
  unfold symbolOf
  rw [own]

theorem Superseded.not_newest {spec : SchemaSpec} {symbol : String} {table : List Row} {row : Row}
    (superseded : Superseded spec symbol table row) : ¬ Newest spec table row := by
  obtain ⟨own, newer, member, same, later⟩ := superseded
  intro newest
  have bound := newest newer member ((symbolOf_str same).trans (symbolOf_str own).symm)
  omega

section Queries

variable [Uppercase] [QueryLanguage] {q : Query} {spec : SchemaSpec} {table : List Row} {row : Row}

-- The row is before the range or after it, a placeholder, or left out by a filter of the request.
def Query.leavesOut (q : Query) (spec : SchemaSpec) (row : Row) : Bool :=
  (q.startNs.any fun startNs => decide (row.time < wholeSecond startNs)) ||
  (q.endNs.any fun endNs => decide (wholeSecond endNs < row.time)) ||
  (spec.cols.contains "IsEmpty" && !(row.get "IsEmpty").isBool false) ||
  (q.filters spec).any fun text => !holds text row

def Query.endsBeforeOpen (q : Query) (spec : SchemaSpec) (table : List Row) : Bool :=
  (table.filter fun row => Newest spec table row).all (q.leavesOut spec)

theorem selects_iff : q.selects spec row = true ↔ q.leavesOut spec row = false := by
  have starts : (q.startNs.all fun startNs => decide (wholeSecond startNs ≤ row.time)) =
      !(q.startNs.any fun startNs => decide (row.time < wholeSecond startNs)) := by
    cases q.startNs <;> simp [← decide_not]
  have ends : (q.endNs.all fun endNs => decide (row.time ≤ wholeSecond endNs)) =
      !(q.endNs.any fun endNs => decide (wholeSecond endNs < row.time)) := by
    cases q.endNs <;> simp [← decide_not]
  have filters : ((q.filters spec).all fun text => holds text row) =
      !((q.filters spec).any fun text => !holds text row) := by
    simp [List.not_any_eq_all_not]
  rw [Query.selects, Query.leavesOut, starts, ends, filters]
  simp only [Bool.and_eq_true, Bool.or_eq_false_iff, Bool.not_eq_true', Bool.or_eq_true,
    Bool.and_eq_false_iff, Bool.not_eq_false']
  tauto

theorem endsBeforeOpen_iff :
    q.endsBeforeOpen spec table = true ↔ ∀ row ∈ q.rows spec table, ¬ Newest spec table row := by
  unfold Query.endsBeforeOpen
  rw [List.all_eq_true]
  constructor
  · intro left row member newest
    obtain ⟨stored, selected⟩ := Query.mem_rows.mp member
    have out := left row (List.mem_filter.mpr ⟨stored, decide_eq_true newest⟩)
    rw [selects_iff.mp selected] at out
    cases out
  · intro closed row member
    obtain ⟨stored, newest⟩ := List.mem_filter.mp member
    by_contra kept
    have selected := selects_iff.mpr (by simpa using kept)
    exact closed row (Query.mem_rows.mpr ⟨stored, selected⟩) (of_decide_eq_true newest)

end Queries

section Listeners

open SymListener

variable {spec : SchemaSpec} {symbol : String} {table : List Row}

structure Rolling (spec : SchemaSpec) (symbol : String) (table : List Row) (s : Adding) : Prop where
  curr : ∀ bar, s.curr = some bar → bar.get spec.symbolCol = .str symbol
  completed : ∀ bar ∈ s.completedRows, Superseded spec symbol table bar

theorem addRow_own (s : Adding) {row bar : Row} (own : row.get spec.symbolCol = .str symbol)
    (here : (addRow spec s row).curr = some bar) : bar.get spec.symbolCol = .str symbol := by
  rw [addRow_curr, Option.some.injEq] at here
  split at here
  next => simpa [← here, minimalBar, Row.get] using own
  next => rw [← here, own]

theorem addRow_rolling {s : Adding} {row : Row} (rolling : Rolling spec symbol table s)
    (stored : row ∈ table) (own : row.get spec.symbolCol = .str symbol) :
    Rolling spec symbol table (addRow spec s row) := by
  constructor
  · exact fun bar here => addRow_own s own here
  · intro bar member
    rw [addRow_completed, List.mem_append] at member
    rcases member with before | last
    · exact rolling.completed bar before
    · obtain ⟨current, later⟩ := List.mem_filter.mp last
      have same := rolling.curr bar (Option.mem_toList.mp current)
      exact ⟨same, row, stored, own, of_decide_eq_true later⟩

theorem addRows_rolling (rows : List Row) {s : Adding} (rolling : Rolling spec symbol table s)
    (own : ∀ row ∈ rows, row ∈ table ∧ row.get spec.symbolCol = .str symbol) :
    Rolling spec symbol table (rows.foldl (addRow spec) s) := by
  induction rows generalizing s with
  | nil => exact rolling
  | cons row rest ih =>
      obtain ⟨stored, same⟩ := own row List.mem_cons_self
      apply ih (addRow_rolling rolling stored same)
      exact fun other member => own other (List.mem_cons_of_mem _ member)

theorem fromPylist_superseded {rows : List Row}
    (superseded : ∀ row ∈ rows, Superseded spec symbol table row) :
    ∀ row ∈ fromPylist rows, Superseded spec symbol table row := by
  intro row member
  cases rows with
  | nil => cases member
  | cons first rest =>
      obtain ⟨bar, inside, rfl⟩ := List.mem_map.mp member
      obtain ⟨own, newer⟩ := superseded bar inside
      have column := Row.mem_names (superseded first List.mem_cons_self).1
      exact ⟨(Row.project_get bar first column).trans own, newer⟩

theorem onUpdate_own {l : SymListener} {update : TableUpdate} (nowNs : Int)
    (own : ∀ bar, l.curr = some bar → bar.get l.spec.symbolCol = .str symbol)
    (added : ∀ row ∈ update.added, row.get l.spec.symbolCol = .str symbol)
    (modified : ∀ row ∈ update.modified, row.get l.spec.symbolCol = .str symbol) :
    ∀ bar, (l.onUpdate update nowNs).2.curr = some bar →
      bar.get l.spec.symbolCol = .str symbol := by
  refine (onUpdate_all _ _ nowNs ?_ ?_ own added modified).2
  · intro row same
    simpa [minimalBar, Row.get] using same
  · intro row columns same column
    rw [Row.project_get row columns (Row.mem_names column), same]

theorem onUpdate_superseded {l : SymListener} (bar : l.spec.isBar = true) {update : TableUpdate}
    (nowNs : Int) (own : ∀ bar, l.curr = some bar → bar.get l.spec.symbolCol = .str symbol)
    (added : ∀ row ∈ update.added, row ∈ table ∧ row.get l.spec.symbolCol = .str symbol) :
    ∀ row ∈ (l.onUpdate update nowNs).1.completed.getD [],
      Superseded l.spec symbol table row := by
  have rolling : Rolling l.spec symbol table (l.addRows update.added) :=
    addRows_rolling update.added ⟨own, fun _ member => by cases member⟩ added
  rw [(onUpdate_bar bar update nowNs).1]
  exact fromPylist_superseded rolling.completed

end Listeners

end DeepFeeder
