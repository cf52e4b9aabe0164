import DeepFeeder.Fanout.Wiring
import DeepFeeder.Fanout.BarReads

set_option autoImplicit false

namespace DeepFeeder.Gapless

open Transition

structure Read where
  provider : String
  dataSchema : String
  spec : SchemaSpec
  row : Row
  table : List Row

/-- The system, and the bars that it has read to be sent as closed ones. -/
structure Watched where
  state : State
  reads : List Read

def readRows (s : State) (provider dataSchema : String) (spec : SchemaSpec) (rows : List Row) :
    List Read :=
  rows.map fun row => { provider, dataSchema, spec, row, table := s.tables provider dataSchema }

def wantsClosed (r : Request) : Bool := r.onlyCompleted && isBarSchema r.provider r.dataSchema

section Definitions

variable [Uppercase] [QueryLanguage]

def snapshotReads (r : Request) (s : State) (nowNs : Int) : List Read :=
  match schemas r.provider r.dataSchema with
  | some spec =>
      if wantsClosed r && (r.query nowNs).answered spec then
        readRows s r.provider r.dataSchema spec (snapshotTable s r spec nowNs).rows
      else []
  | none => []

def readsOf (requests : Nat → Request) (s : State) : Action → List Read
  | .update key added modified nowNs =>
      match s.feeder.lsn.lookup key with
      | some lsn =>
          if lsn.spec.isBar then
            readRows s lsn.provider lsn.dataSchema lsn.spec
              ((lsn.onUpdate (tableUpdate s lsn added modified) nowNs).1.completed.getD [])
          else []
      | none => []
  | .takeSnapshot client nowNs none => snapshotReads (requests client) s nowNs
  | _ => []

def watch (requests : Nat → Request) (w : Watched) (a : Action) : Option Watched :=
  (step requests w.state a).map fun state => { state, reads := w.reads ++ readsOf requests w.state a }

-- The snapshot of a client that is to be sent closed bars only leaves the newest bars out, and a
-- listener for bars was not given a symbol that breaks out of its filter.
def readsClosed (requests : Nat → Request) (s : State) : Action → Bool
  | .update key _ _ _ =>
      (s.feeder.lsn.lookup key).all fun lsn =>
        !lsn.spec.isBar || !lsn.symbol.toList.contains backtick
  | .takeSnapshot client nowNs none =>
      let r := requests client
      !wantsClosed r || (schemas r.provider r.dataSchema).all fun spec =>
        !(r.query nowNs).answered spec ||
          (r.query nowNs).endsBeforeOpen spec (s.tables r.provider r.dataSchema)
  | _ => true

def Read.Closed (read : Read) : Prop := ¬ Newest read.spec read.table read.row

def ReadFrom (reads : List Read) (provider dataSchema : String) (row : Row) : Prop :=
  ∃ read ∈ reads, read.provider = provider ∧ read.dataSchema = dataSchema ∧ read.row = row

/-- No bar was the newest of its symbol when it was read, and whatever is reported as closed to a
client that asked for closed bars was read so. -/
structure OnlyClosed (isoformat : Value → String) (requests : Nat → Request) (w : Watched) :
    Prop where
  reads : ∀ read ∈ w.reads, read.Closed
  reported : ∀ client, (requests client).onlyCompleted = true →
    ∀ delivered ∈ w.state.received client,
      ∀ sent ∈ sentRows isoformat (requests client) delivered.1, reportedClosed sent.2 = true →
        ReadFrom w.reads (requests client).provider (requests client).dataSchema sent.1

-- Each line of a range that is reported as closed is of a bar that is not the newest.
def RangeClosed (isoformat : Value → String) (r : RangeRequest)
    (table : List Row) : Prop :=
  ∀ raised spec lines, schemas r.provider r.dataSchema = some spec →
    rangeSnapshot isoformat raised r table = .ok lines →
      ∀ sent ∈ lines, reportedClosed sent.2 = true → ¬ Newest spec table sent.1

-- The request raises, is not for bars, or leaves the newest bars out.
def rangeEndsBeforeOpen (r : RangeRequest) (table : List Row) : Bool :=
  (schemas r.provider r.dataSchema).all fun spec =>
    !spec.isBar || !(r.query spec).answered spec || (r.query spec).endsBeforeOpen spec table

structure Heard (reads : List Read) (key : String) (lsn : Listener) : Prop where
  registered : schemas lsn.provider lsn.dataSchema = some lsn.spec
  named : ∃ exchange, key = streamKey lsn.provider lsn.dataSchema lsn.symbol exchange
  filtered : symbolFilterExpr lsn.spec lsn.symbol ∈ lsn.view.filters
  curr : ∀ bar, lsn.curr = some bar → bar.get lsn.spec.symbolCol = .str lsn.symbol
  buffered : lsn.spec.isBar = true → ∀ batch ∈ lsn.buf, ∀ row ∈ batch.completed.getD [],
    ReadFrom reads lsn.provider lsn.dataSchema row

def AllHeard (reads : List Read) (s : State) : Prop :=
  ∀ key lsn, s.feeder.lsn.lookup key = some lsn → Heard reads key lsn

def Event.Seen (r : Request) (reads : List Read) (event : Event) : Prop :=
  wantsClosed r = true → ∀ row ∈ event.table.rows, ReadFrom reads r.provider r.dataSchema row

structure Seen (requests : Nat → Request) (reads : List Read) (s : State) : Prop where
  heard : AllHeard reads s
  events : EventsMeet (fun client event => event.Seen (requests client) reads) s

end Definitions

def Watched.start (seqs : Dict String Nat) (tables : String → String → List Row) : Watched :=
  { state := .start {} seqs tables, reads := [] }

variable {requests : Nat → Request} {s s' : State} {client : Nat} {reads : List Read} {r : Request}
  {lsn : Listener} {key : String} {event : Event}

theorem ReadFrom.more {provider dataSchema : String} {row : Row}
    (from_ : ReadFrom reads provider dataSchema row) (more : List Read) :
    ReadFrom (reads ++ more) provider dataSchema row := by
  obtain ⟨read, member, same⟩ := from_
  exact ⟨read, List.mem_append_left _ member, same⟩

theorem readFrom_readRows {provider dataSchema : String} {spec : SchemaSpec} {rows : List Row}
    {row : Row} (member : row ∈ rows) :
    ReadFrom (reads ++ readRows s provider dataSchema spec rows) provider dataSchema row :=
  ⟨_, List.mem_append_right _ (List.mem_map_of_mem member), rfl, rfl, rfl⟩

theorem isBarSchema_eq {provider dataSchema : String} {spec : SchemaSpec}
    (registered : schemas provider dataSchema = some spec) :
    isBarSchema provider dataSchema = spec.isBar := by
  rw [isBarSchema, registered]
  rfl

theorem isBarSchema_of_closed {isoformat : Value → String} {row : Record}
    {provider dataSchema : String} {part : RowPart} {fieldsList : Option (List String)}
    (closed : reportedClosed (adaptRow isoformat row provider dataSchema part fieldsList) = true) :
    isBarSchema provider dataSchema = true := by
  unfold adaptRow at closed
  split at closed
  next bar => exact bar
  next =>
    rw [adaptTradeRow_closed] at closed
    cases closed

section Runs

variable [Uppercase]

theorem Heard.more (heard : Heard reads key lsn) (more : List Read) :
    Heard (reads ++ more) key lsn :=
  { heard with buffered := fun bar batch inside row member =>
      (heard.buffered bar batch inside row member).more more }

theorem Seen.more (seen : Seen requests reads s) (more : List Read) :
    Seen requests (reads ++ more) s where
  heard key lsn found := (seen.heard key lsn found).more more
  events := seen.events.imp fun _ _ known wants row member => (known wants row member).more more

theorem emitCompleted_rows {batch : Batch} (wired : Wired requests s)
    (member : event ∈ emitCompleted requests s.feeder key batch)
    (only : (requests event.client).onlyCompleted = true) :
    key = (requests event.client).key ∧
      ∀ row ∈ event.table.rows, row ∈ batch.completed.getD [] := by
  obtain ⟨entry, inside, same, id, part, table, listed, rows⟩ := mem_emitCompleted_part member
  have known : s.feeder.handles.lookup entry.1 = some entry.2 := AList.mem_lookup_iff.mpr inside
  obtain ⟨client, _, found, _⟩ := wired.handles entry.1 entry.2 known
  have own : event.client = client := by
    rw [← id, found]
    rfl
  subst own
  have completed : entry.2.onlyCompleted = true := by
    rw [found]
    exact only
  rw [completed, if_pos rfl] at listed
  refine ⟨?_, ?_⟩
  · rw [← same, found]
    rfl
  · rw [rows, completedParts_rows listed]
    exact fun _ member => member

theorem catchupSinceNs_rows {feeder : MarketFeeder} {sinceNs : Option Int}
    {exchange : Option String} (member : event ∈ catchupSinceNs feeder r client sinceNs exchange)
    (only : r.onlyCompleted = true) :
    ∃ lsn, feeder.lsn.lookup (streamKey r.provider r.dataSchema r.symbol exchange) = some lsn ∧
      ∃ batch ∈ lsn.buf, ∀ row ∈ event.table.rows, row ∈ batch.completed.getD [] := by
  obtain ⟨lsn, found, batch, inside, part, listed⟩ := mem_catchupSinceNs_part member
  rw [only, if_pos rfl] at listed
  rw [completedParts_rows listed]
  exact ⟨lsn, found, batch, inside, fun _ member => member⟩

theorem Heard.schema (heard : Heard reads key lsn) {exchange : Option String}
    (wants : wantsClosed r = true)
    (named : key = streamKey r.provider r.dataSchema r.symbol exchange) :
    lsn.provider = r.provider ∧ lsn.dataSchema = r.dataSchema ∧ lsn.spec.isBar = true := by
  obtain ⟨exchange', named'⟩ := heard.named
  rw [wantsClosed, Bool.and_eq_true] at wants
  cases registered : schemas r.provider r.dataSchema with
  | none => simp [isBarSchema, registered] at wants
  | some spec =>
      obtain ⟨provider, dataSchema⟩ :=
        streamKey_registered heard.registered registered (named'.symm.trans named)
      refine ⟨provider, dataSchema, ?_⟩
      rw [← isBarSchema_eq heard.registered, provider, dataSchema]
      exact wants.2

theorem onlyClosed_of_seen {isoformat : Value → String} {w : Watched}
    (seen : Seen requests w.reads w.state) (closed : ∀ read ∈ w.reads, read.Closed) :
    OnlyClosed isoformat requests w := by
  refine ⟨closed, ?_⟩
  intro client only delivered member sent inside reported
  obtain ⟨row, listed, rfl⟩ := List.mem_map.mp inside
  have wants : wantsClosed (requests client) = true := by
    rw [wantsClosed, only, isBarSchema_of_closed reported]
    rfl
  exact seen.events.received client delivered member wants row listed

variable [QueryLanguage]

theorem Heard.mem_viewRows (heard : Heard reads key lsn)
    (plain : backtick ∉ lsn.symbol.toList) {positions : List Nat} {row : Row}
    (member : row ∈ positions.filterMap fun i => (viewRows s lsn)[i]?) :
    row ∈ s.tables lsn.provider lsn.dataSchema ∧
      row.get lsn.spec.symbolCol = .str lsn.symbol := by
  obtain ⟨i, _, at_⟩ := List.mem_filterMap.mp member
  obtain ⟨stored, all⟩ := List.mem_filter.mp (List.mem_of_getElem? at_)
  have own := List.all_eq_true.mp all _ heard.filtered
  rw [holds_of_test ((symbolFilterExpr_test_iff (symbolCol_of_registered heard.registered)).mpr plain)]
    at own
  exact ⟨stored, Value.isStr_iff.mp own⟩

theorem snapshotReads_closed_iff {nowNs : Int} :
    (∀ read ∈ snapshotReads (requests client) s nowNs, read.Closed) ↔
      readsClosed requests s (.takeSnapshot client nowNs none) = true := by
  simp only [readsClosed, snapshotReads]
  cases registered : schemas (requests client).provider (requests client).dataSchema with
  | none => simp
  | some spec =>
      by_cases wants : wantsClosed (requests client) = true
      · have rows : (snapshotTable s (requests client) spec nowNs).rows =
            ((requests client).query nowNs).rows spec
              (s.tables (requests client).provider (requests client).dataSchema) :=
          snapshotRange_rows registered _ _ _
        cases answered : ((requests client).query nowNs).answered spec with
        | false => simp [wants, answered]
        | true =>
            simp only [wants, answered, Bool.and_self, if_true, Bool.not_true, Bool.false_or,
              Option.all_some]
            rw [endsBeforeOpen_iff, rows]
            simp [readRows, Read.Closed]
      · simp [wants]

theorem plain_of_readsClosed {added modified : List Nat} {nowNs : Int}
    (found : s.feeder.lsn.lookup key = some lsn) (bar : lsn.spec.isBar = true)
    (closed : readsClosed requests s (.update key added modified nowNs) = true) :
    backtick ∉ lsn.symbol.toList := by
  simpa [readsClosed, found, bar] using closed

theorem readsOf_closed {a : Action} (seen : Seen requests reads s)
    (closed : readsClosed requests s a = true) : ∀ read ∈ readsOf requests s a, read.Closed := by
  cases a with
  | update key added modified nowNs =>
      intro read member
      simp only [readsOf] at member
      split at member
      next lsn found =>
        split at member
        next bar =>
          obtain ⟨row, inside, rfl⟩ := List.mem_map.mp member
          have heard := seen.heard key lsn found
          have plain := plain_of_readsClosed found bar closed
          exact (onUpdate_superseded bar nowNs heard.curr (fun _ => heard.mem_viewRows plain) row
            inside).not_newest
        next => cases member
      next => cases member
  | takeSnapshot client nowNs failure =>
      cases failure with
      | none => exact snapshotReads_closed_iff.mpr closed
      | some text => exact fun _ member => by cases member
  | _ => exact fun _ member => by cases member

theorem Heard.update (heard : Heard reads key lsn)
    {added modified : List Nat} {nowNs : Int}
    (plain : lsn.spec.isBar = true → backtick ∉ lsn.symbol.toList)
    (read : lsn.spec.isBar = true →
      ∀ row ∈ (lsn.onUpdate (tableUpdate s lsn added modified) nowNs).1.completed.getD [],
        ReadFrom reads lsn.provider lsn.dataSchema row) :
    Heard reads key { lsn with
      toSymListener := (lsn.onUpdate (tableUpdate s lsn added modified) nowNs).2 } := by
  obtain ⟨spec, buf⟩ := lsn.toSymListener.onUpdate_remembers (tableUpdate s lsn added modified) nowNs
  constructor
  · exact heard.registered.trans (congrArg some spec.symm)
  · exact heard.named
  · change symbolFilterExpr (lsn.onUpdate (tableUpdate s lsn added modified) nowNs).2.spec _ ∈ _
    rw [spec]
    exact heard.filtered
  · intro bar here
    change bar.get (lsn.onUpdate (tableUpdate s lsn added modified) nowNs).2.spec.symbolCol = _
    rw [spec]
    by_cases isBar : lsn.spec.isBar = true
    · exact onUpdate_own nowNs heard.curr
        (fun row member => (heard.mem_viewRows (plain isBar) member).2)
        (fun row member => (heard.mem_viewRows (plain isBar) member).2) bar here
    · unfold SymListener.onUpdate at here
      rw [if_neg isBar] at here
      exact heard.curr bar here
  · intro bar batch member row inside
    rw [spec] at bar
    rcases buf batch member with before | rfl
    · exact heard.buffered bar batch before row inside
    · exact read bar row inside

theorem readsOf_update {added modified : List Nat} {nowNs : Int}
    (found : s.feeder.lsn.lookup key = some lsn) (bar : lsn.spec.isBar = true) :
    ∀ row ∈ (lsn.onUpdate (tableUpdate s lsn added modified) nowNs).1.completed.getD [],
      ReadFrom (reads ++ readsOf requests s (.update key added modified nowNs)) lsn.provider
        lsn.dataSchema row := by
  intro row member
  simp only [readsOf, found, bar, if_true]
  exact readFrom_readRows member

theorem step_heard {a : Action} (heard : AllHeard reads s)
    (closed : readsClosed requests s a = true) (taken : step requests s a = some s') :
    AllHeard (reads ++ readsOf requests s a) s' := by
  apply step_listeners (fun key lsn found => (heard key lsn found).more _) _ _ taken
  · exact fun client spec bufLen registered =>
      { registered
        named := ⟨(requests client).exchange, rfl⟩
        filtered := List.mem_cons_self
        curr := fun _ absurd => nomatch absurd
        buffered := fun _ _ member => nomatch member }
  · rintro key added modified nowNs lsn rfl found
    exact ((heard key lsn found).more _).update
      (fun bar => plain_of_readsClosed found bar closed) (readsOf_update found)

theorem queued_seen {a : Action} (heard : AllHeard reads s)
    (wired : Wired requests s) (taken : step requests s a = some s') :
    ∀ event ∈ queued requests s a,
      event.Seen (requests event.client) (reads ++ readsOf requests s a) := by
  intro event member wants row inside
  have only : (requests event.client).onlyCompleted = true := by
    rw [wantsClosed, Bool.and_eq_true] at wants
    exact wants.1
  obtain ⟨key, added, modified, nowNs, lsn, rfl, found, emitted⟩ |
    ⟨client, nowNs, spec, rfl, registered, snapshot⟩ | ⟨client, rfl, replayed⟩ |
    ⟨client, handle, watermark, rfl, _, rfl⟩ := mem_queued member
  · obtain ⟨own, rows⟩ := emitCompleted_rows wired emitted only
    obtain ⟨provider, dataSchema, bar⟩ := (heard key lsn found).schema wants own
    rw [← provider, ← dataSchema]
    exact readsOf_update found bar row (rows row inside)
  · obtain ⟨same, _, _, _, rows⟩ := mem_snapshotEvents snapshot
    obtain ⟨_, _, ⟨_, failed, _⟩ | ⟨_, spec', registered', answered, _⟩⟩ := takeSnapshot_eq taken
    · cases failed
    cases registered.symm.trans registered'
    rw [same] at wants ⊢
    simp only [readsOf, snapshotReads, registered, wants, answered, Bool.and_self, if_true]
    exact readFrom_readRows (rows row inside)
  · have same := (mem_replay replayed).1
    rw [same] at wants only ⊢
    unfold replay at replayed
    split at replayed
    next =>
      obtain ⟨lsn, found, batch, buffered, rows⟩ := catchupSinceNs_rows replayed only
      have listener := heard _ lsn found
      obtain ⟨provider, dataSchema, bar⟩ := listener.schema wants rfl
      rw [← provider, ← dataSchema]
      exact (listener.buffered bar batch buffered row (rows row inside)).more _
    next => cases replayed
  · cases inside

theorem step_seen {a : Action} (seen : Seen requests reads s)
    (wired : Wired requests s)
    (closed : readsClosed requests s a = true) (taken : step requests s a = some s') :
    Seen requests (reads ++ readsOf requests s a) s' where
  heard := step_heard seen.heard closed taken
  events := step_eventsMeet (seen.more _).events (queued_seen seen.heard wired taken) taken

theorem watch_eq {w w' : Watched} {a : Action}
    (taken : watch requests w a = some w') :
    step requests w.state a = some w'.state ∧ w'.reads = w.reads ++ readsOf requests w.state a := by
  obtain ⟨state, stepped, rfl⟩ := Option.map_eq_some_iff.mp taken
  exact ⟨stepped, rfl⟩

theorem rangeClosed_iff {isoformat : Value → String}
    {request : RangeRequest} {table : List Row} :
    RangeClosed isoformat request table ↔ rangeEndsBeforeOpen request table = true := by
  unfold RangeClosed rangeEndsBeforeOpen rangeSnapshot
  cases registered : schemas request.provider request.dataSchema with
  | none => simp
  | some spec =>
      have bars := isBarSchema_eq registered
      cases answered : (request.query spec).answered spec with
      | false => simp [answered]
      | true =>
          simp only [answered, if_true, Option.some.injEq, Except.ok.injEq, Option.all_some, adaptRow,
            snapshotRange_rows registered]
          cases bar : spec.isBar with
          | false => simp [bars, bar, adaptTradeRow_closed]
          | true => simp [bars, bar, adaptBarRow_closed, endsBeforeOpen_iff]

theorem closed_bars_are_closed {isoformat : Value → String}
    {seqs : Dict String Nat} {tables : String → String → List Row} {w : Watched}
    (reached : Reaches (watch requests)
      (fun w a => readsClosed requests w.state a = true) (.start seqs tables) w) :
    OnlyClosed isoformat requests w ∧
      (∀ client nowNs, (∀ read ∈ readsOf requests w.state (.takeSnapshot client nowNs none),
          read.Closed) ↔ readsClosed requests w.state (.takeSnapshot client nowNs none) = true) ∧
      ∀ request table, RangeClosed isoformat request table ↔
        rangeEndsBeforeOpen request table = true := by
  have invariant : Wired requests w.state ∧ Seen requests w.reads w.state ∧
      ∀ read ∈ w.reads, read.Closed := by
    apply reached.invariant fun w => Wired requests w.state ∧ Seen requests w.reads w.state ∧
      ∀ read ∈ w.reads, read.Closed
    · refine ⟨start_wired _ _ _, ⟨?_, start_eventsMeet _ _ _⟩, ?_⟩
      · intro key lsn found
        cases found
      · intro read member
        cases member
    · rintro w a w' ⟨wired, seen, closed⟩ permitted taken
      obtain ⟨stepped, reads⟩ := watch_eq taken
      rw [reads]
      refine ⟨step_wired wired stepped, step_seen seen wired permitted stepped, ?_⟩
      intro read member
      rcases List.mem_append.mp member with before | here
      · exact closed read before
      · exact readsOf_closed seen permitted read here
  obtain ⟨_, seen, closed⟩ := invariant
  refine ⟨onlyClosed_of_seen seen closed, ?_, ?_⟩
  · exact fun client nowNs => snapshotReads_closed_iff
  · exact fun request table => rangeClosed_iff

end Runs

def minuteRequests (_ : Nat) : Request :=
  { provider := "binance", dataSchema := "ohlcv_1m", symbol := "BTCUSDT", startNs := some 0 }

def minuteBar (minute : Int) : Row where
  time := minute * 60000000000
  cells := [("Symbol", .str "BTCUSDT"), ("Close", .float 100), ("IsEmpty", .bool false)]
  distinct := by decide

def minuteText (_ : Value) : String := "1970-01-01T00:01:00Z"

def closedTimes (w : Watched) (client : Nat) : List Int :=
  (w.state.received client).flatMap fun delivered =>
    ((sentRows minuteText (minuteRequests client) delivered.1).filter fun sent =>
      reportedClosed sent.2).map fun sent => sent.1.time

attribute [local instance] asciiUppercase equalityTests

-- The client attaches before the first bar.
theorem closed_bars_are_closed_live :
    ∃ w, Reaches (watch minuteRequests)
        (fun w a => readsClosed minuteRequests w.state a = true) (.start ∅ fun _ _ => []) w ∧
      closedTimes w 0 = [60000000000] ∧ OnlyClosed minuteText minuteRequests w := by
  obtain ⟨w, reached, times⟩ := reaches_allowed_of_check (watch minuteRequests)
    (fun w a => readsClosed minuteRequests w.state a = true) (.start ∅ fun _ _ => [])
    (attaches 0 ++
      [.write "binance" "ohlcv_1m" [minuteBar 1], .update "binance|ohlcv_1m|BTCUSDT" [0] [] 0,
        .write "binance" "ohlcv_1m" [minuteBar 1, minuteBar 2],
        .update "binance|ohlcv_1m|BTCUSDT" [1] [] 0] ++ emits .updates)
    (fun w => closedTimes w 0 = [60000000000]) (by decide +kernel) (by decide +kernel)
  exact ⟨w, reached, of_decide_eq_true times, (closed_bars_are_closed reached).1⟩

-- The bar of the snapshot is still open, and so is the one of the range.
theorem open_bar_reported_closed :
    (∃ w, Reaches (watch minuteRequests) anyStep (.start ∅ fun _ _ => []) w ∧
      closedTimes w 0 = [60000000000] ∧
      (w.state.tables "binance" "ohlcv_1m").map Row.time = [60000000000] ∧
      ¬ OnlyClosed minuteText minuteRequests w) ∧
    ¬ RangeClosed minuteText
      { provider := "binance", dataSchema := "ohlcv_1m", symbol := "BTCUSDT" } [minuteBar 1] := by
  constructor
  · obtain ⟨w, reached, sent⟩ := reaches_of_check (watch minuteRequests) (.start ∅ fun _ _ => [])
      ([.write "binance" "ohlcv_1m" [minuteBar 1]] ++ attaches 0)
      (fun w => decide (closedTimes w 0 = [60000000000]) &&
        decide ((w.state.tables "binance" "ohlcv_1m").map Row.time = [60000000000]) &&
        w.reads.any fun read =>
          read.table.all fun other => decide (other.time ≤ read.row.time)) (by decide +kernel)
    simp only [Bool.and_eq_true, decide_eq_true_eq] at sent
    obtain ⟨⟨times, table⟩, newest⟩ := sent
    obtain ⟨read, member, older⟩ := List.any_eq_true.mp newest
    refine ⟨w, reached, times, table, ?_⟩
    intro closed
    apply closed.reads read member
    exact fun other stored _ => of_decide_eq_true (List.all_eq_true.mp older other stored)
  · rw [rangeClosed_iff]
    decide +kernel

end DeepFeeder.Gapless
