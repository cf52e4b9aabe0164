import DeepFeeder.Fanout.RangeBounds
import DeepFeeder.Fanout.Wiring

set_option autoImplicit false

namespace DeepFeeder.Gapless

open Transition SymListener

/-- The system, and the rows that its tables have ever had. -/
structure Recorded where
  state : State
  stored : String → String → List Row

-- The time and the cells of the row are those of another one; some cells may be lost.
structure Shows (source row : Row) : Prop where
  time : row.time = source.time
  cells : ∀ name, row.get name = source.get name ∨ row.get name = .none

def Shown (stored : List Row) (kept : Row → Prop) (spec : SchemaSpec) (symbol : String)
    (row : Row) : Prop :=
  row.get spec.symbolCol = .str symbol ∧ ∃ source ∈ stored, kept source ∧ Shows source row

section Definitions

variable [Uppercase]

-- The row is of the symbol of the request and, where the schema has the column, of its exchange.
def OfStream (r : Request) (spec : SchemaSpec) (row : Row) : Prop :=
  ∀ test ∈ tests spec r.symbol r.exchange, row.get test.1 = .str test.2

def OwnRow (stored : String → String → List Row) (r : Request) (row : Row) : Prop :=
  ∃ spec, schemas r.provider r.dataSchema = some spec ∧
    Shown (stored r.provider r.dataSchema) (OfStream r spec) spec r.symbol row

def fits (r : Request) (lsn : Listener) : Bool :=
  lsn.provider = r.provider && lsn.dataSchema = r.dataSchema && lsn.symbol = r.symbol &&
    lsn.view = listenerView lsn.spec r.symbol r.exchange

-- The rows of the event are from the client's own stream, and so is its number.
structure FromOwn (requests : Nat → Request) (stored : String → String → List Row) (client : Nat)
    (event : Event) : Prop where
  stream : event.stream = (requests client).key
  counter : event.counter = (requests client).key
  rows : ∀ row ∈ event.table.rows, OwnRow stored (requests client) row

variable [QueryLanguage]

def record (requests : Nat → Request) (w : Recorded) (a : Action) : Option Recorded :=
  (step requests w.state a).map fun state =>
    { state, stored := fun provider dataSchema =>
        w.stored provider dataSchema ++ state.tables provider dataSchema }

def InView (lsn : Listener) (row : Row) : Prop :=
  ∀ text ∈ lsn.view.filters, holds text row = true

structure ListenerOwn (stored : String → String → List Row) (lsn : Listener) : Prop where
  registered : schemas lsn.provider lsn.dataSchema = some lsn.spec
  filtered : symbolFilterExpr lsn.spec lsn.symbol ∈ lsn.view.filters
  rows : backtick ∉ lsn.symbol.toList → ∀ row,
    (lsn.curr = some row ∨ ∃ batch ∈ lsn.buf, row ∈ batch.rows) →
      Shown (stored lsn.provider lsn.dataSchema) (InView lsn) lsn.spec lsn.symbol row

end Definitions

def Recorded.start (feeder : MarketFeeder) (seqs : Dict String Nat)
    (tables earlier : String → String → List Row) : Recorded :=
  { state := .start feeder seqs tables
    stored := fun provider dataSchema => earlier provider dataSchema ++ tables provider dataSchema }

variable {requests : Nat → Request} {s s' : State} {w w' : Recorded} {client : Nat} {r : Request}
  {event : Event} {lsn : Listener} {stored later : String → String → List Row}

section Rows

variable {rows rows' : List Row} {kept : Row → Prop} {spec : SchemaSpec} {symbol : String}
  {row source : Row}

theorem Shows.refl (row : Row) : Shows row row := ⟨rfl, fun _ => .inl rfl⟩

theorem Shown.mono (shown : Shown rows kept spec symbol row) (subset : rows ⊆ rows') :
    Shown rows' kept spec symbol row := by
  obtain ⟨own, source, inside, keeps, shows⟩ := shown
  exact ⟨own, source, subset inside, keeps, shows⟩

theorem Shown.imp {kept' : Row → Prop} (shown : Shown rows kept spec symbol row)
    (weaken : ∀ source, kept source → kept' source) : Shown rows kept' spec symbol row := by
  obtain ⟨own, source, inside, keeps, shows⟩ := shown
  exact ⟨own, source, inside, weaken source keeps, shows⟩

theorem Shown.minimalBar (shown : Shown rows kept spec symbol row) :
    Shown rows kept spec symbol (minimalBar spec row) := by
  obtain ⟨own, source, inside, keeps, shows⟩ := shown
  refine ⟨?_, source, inside, keeps, shows.time, ?_⟩
  · simpa [SymListener.minimalBar, Row.get] using own
  · intro name
    by_cases column : name = spec.symbolCol
    · subst column
      simpa [SymListener.minimalBar, Row.get] using shows.cells spec.symbolCol
    · right
      have apart : (name == spec.symbolCol) = false := beq_eq_false_iff_ne.mpr column
      simp [SymListener.minimalBar, Row.get, List.lookup_cons, apart]

theorem Shown.project {columns : Row} (shown : Shown rows kept spec symbol row)
    (first : Shown rows kept spec symbol columns) :
    Shown rows kept spec symbol (row.project columns) := by
  obtain ⟨own, source, inside, keeps, shows⟩ := shown
  refine ⟨?_, source, inside, keeps, shows.time, ?_⟩
  · rw [Row.project_get row columns (Row.mem_names first.1), own]
  · intro name
    by_cases column : name ∈ columns.names
    · rw [Row.project_get row columns column]
      exact shows.cells name
    · exact .inr (Row.project_get_of_absent row columns column)

end Rows

section Replays

variable [Uppercase]

end Replays

section Listeners

variable [QueryLanguage]

theorem ListenerOwn.mono (own : ListenerOwn stored lsn)
    (subset : ∀ provider dataSchema, stored provider dataSchema ⊆ later provider dataSchema) :
    ListenerOwn later lsn :=
  { own with rows := fun plain row here => (own.rows plain row here).mono (subset _ _) }

theorem ListenerOwn.mem_viewRows (own : ListenerOwn stored lsn)
    (plain : backtick ∉ lsn.symbol.toList)
    (within : s.tables lsn.provider lsn.dataSchema ⊆ stored lsn.provider lsn.dataSchema)
    {positions : List Nat} {row : Row}
    (member : row ∈ positions.filterMap fun i => (viewRows s lsn)[i]?) :
    Shown (stored lsn.provider lsn.dataSchema) (InView lsn) lsn.spec lsn.symbol row := by
  obtain ⟨i, _, at_⟩ := List.mem_filterMap.mp member
  obtain ⟨inside, all⟩ := List.mem_filter.mp (List.mem_of_getElem? at_)
  have view := List.all_eq_true.mp all
  have column := symbolCol_of_registered own.registered
  have symbol := view _ own.filtered
  rw [holds_of_test ((symbolFilterExpr_test_iff column).mpr plain), Value.isStr_iff] at symbol
  exact ⟨symbol, row, within inside, view, .refl row⟩

theorem ListenerOwn.update (own : ListenerOwn stored lsn) {added modified : List Nat} {nowNs : Int}
    (within : s.tables lsn.provider lsn.dataSchema ⊆ stored lsn.provider lsn.dataSchema) :
    ListenerOwn stored { lsn with
      toSymListener := (lsn.onUpdate (tableUpdate s lsn added modified) nowNs).2 } := by
  obtain ⟨spec, buf⟩ := onUpdate_remembers lsn.toSymListener (tableUpdate s lsn added modified) nowNs
  constructor
  · exact own.registered.trans (congrArg some spec.symm)
  · change symbolFilterExpr (lsn.onUpdate (tableUpdate s lsn added modified) nowNs).2.spec _ ∈ _
    rw [spec]
    exact own.filtered
  · intro plain row here
    change Shown _ (InView lsn) (lsn.onUpdate (tableUpdate s lsn added modified) nowNs).2.spec _ row
    rw [spec]
    obtain ⟨batch, bars⟩ := onUpdate_all lsn.toSymListener (tableUpdate s lsn added modified) nowNs
      (fun _ shown => shown.minimalBar) (fun _ _ shown first => shown.project first)
      (fun bar at_ => own.rows plain bar (.inl at_))
      (fun _ => own.mem_viewRows plain within) (fun _ => own.mem_viewRows plain within)
    rcases here with current | ⟨buffered, inside, member⟩
    · exact bars row current
    · rcases buf buffered inside with before | rfl
      · exact own.rows plain row (.inr ⟨buffered, before, member⟩)
      · exact batch row member

variable [Uppercase]

end Listeners

section Runs

variable [Uppercase] [QueryLanguage]

structure Tracked (w : Recorded) : Prop where
  within : ∀ provider dataSchema, w.state.tables provider dataSchema ⊆ w.stored provider dataSchema
  listeners : ∀ key lsn, w.state.feeder.lsn.lookup key = some lsn → ListenerOwn w.stored lsn

omit [QueryLanguage] in
theorem FromOwn.mono (own : FromOwn requests stored client event)
    (subset : ∀ provider dataSchema, stored provider dataSchema ⊆ later provider dataSchema) :
    FromOwn requests later client event := by
  refine { own with rows := ?_ }
  intro row inside
  obtain ⟨spec, registered, shown⟩ := own.rows row inside
  exact ⟨spec, registered, shown.mono (subset _ _)⟩

end Runs

attribute [local instance] asciiUppercase equalityTests

end DeepFeeder.Gapless
