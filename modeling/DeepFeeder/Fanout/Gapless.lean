import Mathlib.Logic.Function.Basic
import DeepFeeder.Shared.Transition
import DeepFeeder.Fanout.Columns

set_option autoImplicit false

namespace DeepFeeder.Gapless

inductive Phase where
  | snapshot
  | snapshotBoundary
  | live
  deriving DecidableEq

inductive Part where
  | added
  | updated
  | completed
  deriving DecidableEq

structure Request where
  provider : String
  dataSchema : String
  symbol : String
  exchange : Option String := none
  fields : Option (List String) := none
  onlyCompleted : Bool := true
  startNs : Option Int := none
  snapshotBatch : Bool := true
  deriving DecidableEq

namespace Request

def key [Uppercase] (r : Request) : String := streamKey r.provider r.dataSchema r.symbol r.exchange

-- An empty exchange counts as none.
def hasExchange (r : Request) : Bool :=
  match r.exchange with
  | none | some "" => false
  | some _ => true

theorem key_of_noExchange [Uppercase] {r : Request} (without : r.hasExchange = false) :
    streamKey r.provider r.dataSchema r.symbol none = r.key := by
  unfold hasExchange at without
  split at without
  next none_ => unfold key; rw [none_]
  next empty => unfold key; rw [empty]; rfl
  next => cases without

def timeCol (r : Request) : String := DeepFeeder.timeCol r.provider r.dataSchema

def sub (r : Request) (client : Nat) : Subscription :=
  { provider := r.provider, dataSchema := r.dataSchema, symbol := r.symbol
    callback := ⟨client, client⟩, fields := r.fields, onlyCompleted := r.onlyCompleted
    exchange := r.exchange }

def query (r : Request) (nowNs : Int) : Query :=
  { symbol := r.symbol, exchange := r.exchange
    startNs := some (r.startNs.getD (dayStart nowNs)) }

end Request

structure Event where
  client : Nat
  stream : String
  counter : String
  phase : Phase
  part : Option Part
  table : PaTable
  watermarkNs : Option Int

/-- A thread, with the events that it has yet to emit. For the first of them it may have read the
counter, or have counted it. -/
structure Worker where
  read : Option (Event × Nat) := none
  numbered : Option (Event × Nat) := none
  todo : List Event := []

namespace Worker

def events (w : Worker) : List Event :=
  (w.read.map Prod.fst).toList ++ (w.numbered.map Prod.fst).toList ++ w.todo

def idle (w : Worker) : Bool := w.read.isNone && w.numbered.isNone && w.todo.isEmpty

theorem idle_iff {w : Worker} : w.idle = true ↔ w = {} := by
  cases w with
  | mk read numbered todo => cases read <;> cases numbered <;> cases todo <;> simp [idle]

@[simp] theorem events_todo (todo : List Event) : ({ todo } : Worker).events = todo := rfl

@[simp] theorem events_read (event : Event) (seq : Nat) (todo : List Event) :
    ({ read := some (event, seq), todo } : Worker).events = event :: todo := rfl

@[simp] theorem events_numbered (event : Event) (seq : Nat) (todo : List Event) :
    ({ numbered := some (event, seq), todo } : Worker).events = event :: todo := rfl

theorem idle_eq_isEmpty (w : Worker) : w.idle = w.events.isEmpty := by
  cases w with
  | mk read numbered todo => cases read <;> cases numbered <;> rfl

end Worker

inductive Thread where
  | updates
  | client (id : Nat)
  deriving DecidableEq

inductive AttachPc where
  | begin
  | reset
  | subscribed (handle : String)
  | snapshotted (handle : String) (watermark : Option Int)
  | caughtUp (handle : String) (watermark : Option Int)
  | bounded (handle : String)
  | failed (text : String)
  | detached
  deriving DecidableEq

structure State where
  feeder : MarketFeeder
  seqs : Dict String Nat
  tables : String → String → List Row
  pc : Nat → AttachPc
  workers : Thread → Worker
  received : Nat → List (Event × Nat)

namespace State

def start (feeder : MarketFeeder) (seqs : Dict String Nat)
    (tables : String → String → List Row) : State :=
  { feeder := { feeder with handles := ∅ }, seqs, tables, pc := fun _ => .begin
    workers := fun _ => {}, received := fun _ => [] }

def setPc (s : State) (client : Nat) (pc : AttachPc) : State :=
  { s with pc := Function.update s.pc client pc }

def queue (s : State) (thread : Thread) (events : List Event) : State :=
  { s with workers := Function.update s.workers thread { todo := events } }

def setListener (s : State) (key : String) (lsn : Listener) : State :=
  { s with feeder := { s.feeder with lsn := s.feeder.lsn.set key lsn } }

def nextSeq (s : State) (counter : String) : Nat := (s.seqs.lookup counter).getD 0

-- The two statements of `_next_seq`, for the first of a thread's events. No lock is held.
def readSeq (s : State) (thread : Thread) (event : Event) (rest : List Event) : State :=
  { s with
    workers := Function.update s.workers thread
      { read := some (event, s.nextSeq event.counter), todo := rest } }

def writeSeq (s : State) (thread : Thread) (event : Event) (seq : Nat) (rest : List Event) : State :=
  { s with
    seqs := s.seqs.set event.counter (seq + 1)
    workers := Function.update s.workers thread { numbered := some (event, seq), todo := rest } }

def deliver (s : State) (thread : Thread) (event : Event) (seq : Nat) (rest : List Event) : State :=
  { s with
    workers := Function.update s.workers thread { todo := rest }
    received := Function.update s.received event.client (s.received event.client ++ [(event, seq)]) }

theorem setPc_pc (s : State) (client : Nat) (pc : AttachPc) (other : Nat) :
    (s.setPc client pc).pc other = if other = client then pc else s.pc other :=
  Function.update_apply _ _ _ _

theorem queue_workers (s : State) (thread : Thread) (events : List Event) (other : Thread) :
    (s.queue thread events).workers other =
      if other = thread then { todo := events } else s.workers other :=
  Function.update_apply _ _ _ _

theorem readSeq_workers (s : State) (thread : Thread) (event : Event) (rest : List Event)
    (other : Thread) :
    (s.readSeq thread event rest).workers other =
      if other = thread then { read := some (event, s.nextSeq event.counter), todo := rest }
      else s.workers other :=
  Function.update_apply _ _ _ _

theorem writeSeq_workers (s : State) (thread : Thread) (event : Event) (seq : Nat)
    (rest : List Event) (other : Thread) :
    (s.writeSeq thread event seq rest).workers other =
      if other = thread then { numbered := some (event, seq), todo := rest } else s.workers other :=
  Function.update_apply _ _ _ _

theorem deliver_workers (s : State) (thread : Thread) (event : Event) (seq : Nat)
    (rest : List Event) (other : Thread) :
    (s.deliver thread event seq rest).workers other =
      if other = thread then { todo := rest } else s.workers other :=
  Function.update_apply _ _ _ _

theorem deliver_received (s : State) (thread : Thread) (event : Event) (seq : Nat)
    (rest : List Event) (client : Nat) :
    (s.deliver thread event seq rest).received client =
      if client = event.client then s.received event.client ++ [(event, seq)]
      else s.received client :=
  Function.update_apply _ _ _ _

theorem nextSeq_set (s : State) (counter key : String) (value : Nat) :
    nextSeq { s with seqs := s.seqs.set counter value } key =
      if key = counter then value else s.nextSeq key := by
  unfold nextSeq
  rw [Dict.lookup_set]
  split
  · rfl
  · rfl

theorem readSeq_events {s : State} {thread : Thread} {event : Event} {rest : List Event}
    (here : s.workers thread = { todo := event :: rest }) (other : Thread) :
    ((s.readSeq thread event rest).workers other).events = (s.workers other).events := by
  rw [readSeq_workers]
  split
  next same =>
    rw [same, here]
    rfl
  next => rfl

theorem writeSeq_events {s : State} {thread : Thread} {event : Event} {seq : Nat}
    {rest : List Event} (here : s.workers thread = { read := some (event, seq), todo := rest })
    (other : Thread) :
    ((s.writeSeq thread event seq rest).workers other).events = (s.workers other).events := by
  rw [writeSeq_workers]
  split
  next same =>
    rw [same, here]
    rfl
  next => rfl

theorem deliver_events {s : State} {thread other : Thread} {event queued : Event} {seq : Nat}
    {rest : List Event} (here : s.workers thread = { numbered := some (event, seq), todo := rest })
    (member : queued ∈ ((s.deliver thread event seq rest).workers other).events) :
    queued ∈ (s.workers other).events := by
  rw [deliver_workers] at member
  split at member
  next same =>
    rw [same, here]
    exact List.mem_cons_of_mem _ member
  next => exact member

theorem queue_nil {s : State} {thread : Thread} (idle : s.workers thread = {}) :
    s.queue thread [] = s := by
  unfold queue
  rw [← idle, Function.update_eq_self]

def attached (s : State) (client : Nat) : Bool :=
  match s.pc client with
  | .bounded _ => (s.workers (.client client)).idle
  | _ => false

end State

def emitTables (client : Nat) (stream counter : String) (phase : Phase)
    (parts : List (Part × Option PaTable)) : List Event :=
  parts.filterMap fun part =>
    match part.2 with
    | none => none
    | some table =>
        if table.rows.isEmpty then none
        else some { client, stream, counter, phase, part := some part.1, table, watermarkNs := none }

theorem mem_emitTables {client : Nat} {event : Event} {stream counter : String} {phase : Phase}
    {parts : List (Part × Option PaTable)}
    (member : event ∈ emitTables client stream counter phase parts) :
    event.client = client ∧ event.stream = stream ∧ event.counter = counter ∧
      event.phase = phase ∧ ∃ part, (part, some event.table) ∈ parts ∧ event.part = some part := by
  unfold emitTables at member
  obtain ⟨⟨part, table⟩, inside, made⟩ := List.mem_filterMap.mp member
  cases table with
  | none => cases made
  | some table =>
      simp only at made
      split at made
      next => cases made
      next =>
        cases made
        exact ⟨rfl, rfl, rfl, rfl, part, inside, rfl⟩

def batchParts (timeCol : String) (batch : Batch) : List (Part × Option PaTable) :=
  [(.added, batch.added.map (.ofRows timeCol)), (.updated, batch.updated.map (.ofRows timeCol)),
    (.completed, batch.completed.map (.ofRows timeCol))]

def completedParts (timeCol : String) (batch : Batch) : List (Part × Option PaTable) :=
  [(.completed, batch.completed.map (.ofRows timeCol))]

theorem completedParts_rows {timeCol : String} {batch : Batch} {part : Part} {table : PaTable}
    (listed : (part, some table) ∈ completedParts timeCol batch) :
    table.rows = batch.completed.getD [] := by
  simp only [completedParts, List.mem_singleton, Prod.mk.injEq] at listed
  cases rows : batch.completed with
  | none => simp [rows] at listed
  | some rows_ =>
      rw [rows, Option.map_some, Option.some.injEq] at listed
      rw [listed.2]
      rfl

section Emitted

variable [Uppercase]

-- `emit_completed`: what the live callbacks of the listener's handles emit.
def emitCompleted (requests : Nat → Request) (feeder : MarketFeeder) (key : String)
    (batch : Batch) : List Event :=
  feeder.handles.entries.flatMap fun entry =>
    let info := entry.2
    let client := info.callback.id
    let timeCol := (requests client).timeCol
    let parts := if info.onlyCompleted then completedParts timeCol batch else batchParts timeCol batch
    if info.key = key then
      emitTables client key (requests client).key .live
        (parts.map fun part => (part.1, part.2.bind (filterFields info.fields)))
    else []

def snapshotEvents (r : Request) (client : Nat) (table : PaTable) (watermarkNs : Option Int) :
    List Event :=
  let event (table : PaTable) : Event :=
    { client, stream := r.key, counter := r.key, phase := .snapshot, part := some .completed, table
      watermarkNs }
  if r.snapshotBatch then [event table] else table.rows.map fun row => event { table with rows := [row] }

def catchupSinceNs (feeder : MarketFeeder) (r : Request) (client : Nat) (sinceNs : Option Int)
    (exchange : Option String) : List Event :=
  let key := streamKey r.provider r.dataSchema r.symbol exchange
  match feeder.lsn.lookup key with
  | none => []
  | some lsn =>
      lsn.buf.flatMap fun batch =>
        if sinceNs.all fun since => decide (since < batch.tsNs) then
          emitTables client key key .snapshot
            (if r.onlyCompleted then completedParts r.timeCol batch else batchParts r.timeCol batch)
        else []

-- What the catch-up of a client emits; the call leaves the exchange out.
def replay (r : Request) (s : State) (client : Nat) : List Event :=
  match s.pc client with
  | .snapshotted _ watermark => catchupSinceNs s.feeder r client watermark none
  | _ => []

def boundaryEvent (r : Request) (client : Nat) (watermarkNs : Option Int) : Event :=
  { client, stream := r.key, counter := r.key, phase := .snapshotBoundary, part := none
    table := ⟨[], []⟩, watermarkNs }

end Emitted

inductive Action where
  | write (provider dataSchema : String) (rows : List Row)
  -- The rows are given by their positions in the listener's view.
  | update (key : String) (added modified : List Nat) (nowNs : Int)
  | reset (client : Nat)
  | subscribe (client : Nat) (creation : Creation)
  | takeSnapshot (client : Nat) (nowNs : Int) (failure : Option String)
  | catchUp (client : Nat)
  | boundary (client : Nat)
  | detach (client : Nat)
  | number (thread : Thread)
  | advance (thread : Thread)
  | emit (thread : Thread)

def viewRows [QueryLanguage] (s : State) (lsn : Listener) : List Row :=
  (s.tables lsn.provider lsn.dataSchema).filter fun row =>
    lsn.view.filters.all fun text => holds text row

def tableUpdate [QueryLanguage] (s : State) (lsn : Listener) (added modified : List Nat) :
    TableUpdate :=
  let view := viewRows s lsn
  { added := added.filterMap fun i => view[i]?, modified := modified.filterMap fun i => view[i]? }

section Steps

variable [Uppercase] [QueryLanguage] (requests : Nat → Request) (s : State)

def write (provider dataSchema : String) (rows : List Row) : State :=
  { s with tables := fun p d => if p = provider ∧ d = dataSchema then rows else s.tables p d }

def update (key : String) (added modified : List Nat) (nowNs : Int) : Option State :=
  match s.feeder.lsn.lookup key with
  | none => none
  | some lsn =>
      if (s.workers .updates).idle then
        let emitted := lsn.onUpdate (tableUpdate s lsn added modified) nowNs
        let heard : Listener := { lsn with toSymListener := emitted.2 }
        some ((s.setListener key heard).queue .updates
          (emitCompleted requests s.feeder key emitted.1))
      else none

def reset (r : Request) (client : Nat) : Option State :=
  match s.pc client, schemas r.provider r.dataSchema with
  | .begin, none =>
      some (s.setPc client
        (.failed ("Unknown provider/schema: " ++ r.provider ++ "/" ++ r.dataSchema)))
  | .begin, some _ => some (State.setPc { s with seqs := s.seqs.set r.key 0 } client .reset)
  | _, _ => none

def subscribe (r : Request) (client : Nat) (creation : Creation) : Option State :=
  match s.pc client, s.feeder.subscribe (r.sub client) creation with
  | .reset, (.error text, feeder) => some (State.setPc { s with feeder } client (.failed text))
  | .reset, (.ok handle, feeder) => some (State.setPc { s with feeder } client (.subscribed handle))
  | _, _ => none

def snapshotTable (r : Request) (spec : SchemaSpec) (nowNs : Int) : PaTable :=
  snapshotRange spec r.timeCol (s.tables r.provider r.dataSchema) (r.query nowNs) r.fields

def watermark (spec : SchemaSpec) (table : PaTable) : Option Int :=
  (watermarkRow spec table.names table.rows).map Row.time

def takeSnapshot (r : Request) (client : Nat) (nowNs : Int) (failure : Option String) :
    Option State :=
  match s.pc client, failure, schemas r.provider r.dataSchema with
  | .subscribed _, some text, _ => some (s.setPc client (.failed text))
  | .subscribed handle, none, some spec =>
      if (r.query nowNs).answered spec then
        let table := snapshotTable s r spec nowNs
        some ((s.setPc client (.snapshotted handle (watermark spec table))).queue (.client client)
          (snapshotEvents r client table (watermark spec table)))
      else none
  | _, _, _ => none

def catchUp (r : Request) (client : Nat) : Option State :=
  match s.pc client, (s.workers (.client client)).idle with
  | .snapshotted handle watermark, true =>
      some ((s.setPc client (.caughtUp handle watermark)).queue (.client client) (replay r s client))
  | _, _ => none

def boundary (r : Request) (client : Nat) : Option State :=
  match s.pc client, (s.workers (.client client)).idle with
  | .caughtUp handle watermark, true =>
      some ((s.setPc client (.bounded handle)).queue (.client client)
        [boundaryEvent r client watermark])
  | _, _ => none

def detach (client : Nat) : Option State :=
  match s.pc client, (s.workers (.client client)).idle with
  | .bounded handle, true =>
      some (State.setPc { s with feeder := s.feeder.unsubscribe handle } client .detached)
  | _, _ => none

def number (thread : Thread) : Option State :=
  match s.workers thread with
  | { read := none, numbered := none, todo := event :: rest } => some (s.readSeq thread event rest)
  | _ => none

def advance (thread : Thread) : Option State :=
  match s.workers thread with
  | { read := some (event, seq), numbered := none, todo := rest } =>
      some (s.writeSeq thread event seq rest)
  | _ => none

def emit (thread : Thread) : Option State :=
  match s.workers thread with
  | { read := none, numbered := some (event, seq), todo := rest } =>
      some (s.deliver thread event seq rest)
  | _ => none

def step : Action → Option State
  | .write provider dataSchema rows => some (write s provider dataSchema rows)
  | .update key added modified nowNs => update requests s key added modified nowNs
  | .reset client => reset s (requests client) client
  | .subscribe client creation => subscribe s (requests client) client creation
  | .takeSnapshot client nowNs failure => takeSnapshot s (requests client) client nowNs failure
  | .catchUp client => catchUp s (requests client) client
  | .boundary client => boundary s (requests client) client
  | .detach client => detach s client
  | .number thread => number s thread
  | .advance thread => advance s thread
  | .emit thread => emit s thread

end Steps

section Events

variable [Uppercase] {requests : Nat → Request} {feeder : MarketFeeder} {r : Request} {client : Nat}
  {event : Event}

theorem mem_emitCompleted {key : String} {batch : Batch}
    (member : event ∈ emitCompleted requests feeder key batch) :
    event.stream = key ∧ event.counter = (requests event.client).key ∧ event.phase = .live ∧
      ∃ entry ∈ feeder.handles.entries, entry.2.key = key ∧ entry.2.callback.id = event.client := by
  unfold emitCompleted at member
  obtain ⟨entry, inside, made⟩ := List.mem_flatMap.mp member
  simp only at made
  split at made
  next same =>
    obtain ⟨client, stream, counter, phase, _⟩ := mem_emitTables made
    rw [← client] at counter
    exact ⟨stream, counter, phase, entry, inside, same, client.symm⟩
  next => cases made

theorem mem_emitCompleted_part {key : String} {batch : Batch}
    (member : event ∈ emitCompleted requests feeder key batch) :
    ∃ entry ∈ feeder.handles.entries, entry.2.key = key ∧ entry.2.callback.id = event.client ∧
      ∃ part table, (part, some table) ∈
          (if entry.2.onlyCompleted then completedParts (requests event.client).timeCol batch
            else batchParts (requests event.client).timeCol batch) ∧
        event.table.rows = table.rows := by
  unfold emitCompleted at member
  obtain ⟨entry, inside, made⟩ := List.mem_flatMap.mp member
  simp only at made
  split at made
  next same =>
    obtain ⟨client, _, _, _, part, listed, _⟩ := mem_emitTables made
    obtain ⟨⟨part', table⟩, partOf, filtered⟩ := List.mem_map.mp listed
    simp only [Prod.mk.injEq, Option.bind_eq_some_iff] at filtered
    obtain ⟨_, table, rfl, filtered⟩ := filtered
    rw [client]
    exact ⟨entry, inside, same, rfl, part', table, partOf, filterFields_rows filtered⟩
  next => cases made

theorem mem_catchupSinceNs_part {sinceNs : Option Int} {exchange : Option String}
    (member : event ∈ catchupSinceNs feeder r client sinceNs exchange) :
    ∃ lsn, feeder.lsn.lookup (streamKey r.provider r.dataSchema r.symbol exchange) = some lsn ∧
      ∃ batch ∈ lsn.buf, ∃ part, (part, some event.table) ∈
        if r.onlyCompleted then completedParts r.timeCol batch else batchParts r.timeCol batch := by
  unfold catchupSinceNs at member
  simp only at member
  split at member
  next => cases member
  next lsn found =>
    obtain ⟨batch, inside, made⟩ := List.mem_flatMap.mp member
    split at made
    next =>
      obtain ⟨_, _, _, _, part, listed, _⟩ := mem_emitTables made
      exact ⟨lsn, found, batch, inside, part, listed⟩
    next => cases made

theorem mem_snapshotEvents {table : PaTable} {watermarkNs : Option Int}
    (member : event ∈ snapshotEvents r client table watermarkNs) :
    event.client = client ∧ event.stream = r.key ∧ event.counter = r.key ∧
      event.phase = .snapshot ∧ ∀ row ∈ event.table.rows, row ∈ table.rows := by
  unfold snapshotEvents at member
  simp only at member
  split at member
  next =>
    rw [List.mem_singleton] at member
    subst member
    exact ⟨rfl, rfl, rfl, rfl, fun _ => id⟩
  next =>
    obtain ⟨row, inside, rfl⟩ := List.mem_map.mp member
    refine ⟨rfl, rfl, rfl, rfl, ?_⟩
    intro other single
    rw [List.mem_singleton.mp single]
    exact inside

theorem mem_catchupSinceNs {sinceNs : Option Int} {exchange : Option String}
    (member : event ∈ catchupSinceNs feeder r client sinceNs exchange) :
    event.client = client ∧
      event.stream = streamKey r.provider r.dataSchema r.symbol exchange ∧
      event.counter = event.stream ∧ event.phase = .snapshot := by
  unfold catchupSinceNs at member
  simp only at member
  split at member
  next => cases member
  next =>
    obtain ⟨batch, _, made⟩ := List.mem_flatMap.mp member
    split at made
    next =>
      obtain ⟨client, stream, counter, phase, _⟩ := mem_emitTables made
      exact ⟨client, stream, counter.trans stream.symm, phase⟩
    next => cases made

theorem mem_replay {s : State} (member : event ∈ replay r s client) :
    event.client = client ∧ event.stream = streamKey r.provider r.dataSchema r.symbol none ∧
      event.counter = event.stream ∧ event.phase = .snapshot := by
  unfold replay at member
  split at member
  · exact mem_catchupSinceNs member
  · cases member

end Events

section Inversion

variable {requests : Nat → Request} {s s' : State} {r : Request} {client : Nat} {thread : Thread}

theorem detach_eq (taken : detach s client = some s') :
    ∃ handle, s.pc client = .bounded handle ∧ s.workers (.client client) = {} ∧
      s' = State.setPc { s with feeder := s.feeder.unsubscribe handle } client .detached := by
  unfold detach at taken
  split at taken
  next here idle => cases taken; exact ⟨_, here, Worker.idle_iff.mp idle, rfl⟩
  next => cases taken

theorem number_eq (taken : number s thread = some s') :
    ∃ event rest, s.workers thread = { todo := event :: rest } ∧
      s' = s.readSeq thread event rest := by
  unfold number at taken
  split at taken
  next event rest here => cases taken; exact ⟨event, rest, here, rfl⟩
  next => cases taken

theorem advance_eq (taken : advance s thread = some s') :
    ∃ event seq rest, s.workers thread = { read := some (event, seq), todo := rest } ∧
      s' = s.writeSeq thread event seq rest := by
  unfold advance at taken
  split at taken
  next event seq rest here => cases taken; exact ⟨event, seq, rest, here, rfl⟩
  next => cases taken

theorem emit_eq (taken : emit s thread = some s') :
    ∃ event seq rest, s.workers thread = { numbered := some (event, seq), todo := rest } ∧
      s' = s.deliver thread event seq rest := by
  unfold emit at taken
  split at taken
  next event seq rest here => cases taken; exact ⟨event, seq, rest, here, rfl⟩
  next => cases taken

variable [Uppercase]

theorem reset_eq (taken : reset s r client = some s') :
    s.pc client = .begin ∧
      ((∃ text, s' = s.setPc client (.failed text)) ∨
        s' = State.setPc { s with seqs := s.seqs.set r.key 0 } client .reset) := by
  unfold reset at taken
  split at taken
  next here _ => cases taken; exact ⟨here, .inl ⟨_, rfl⟩⟩
  next here _ => cases taken; exact ⟨here, .inr rfl⟩
  next => cases taken

theorem subscribe_eq {creation : Creation} (taken : subscribe s r client creation = some s') :
    s.pc client = .reset ∧
      ((∃ text feeder, s.feeder.subscribe (r.sub client) creation = (.error text, feeder) ∧
          s' = State.setPc { s with feeder } client (.failed text)) ∨
        ∃ handle feeder, s.feeder.subscribe (r.sub client) creation = (.ok handle, feeder) ∧
          s' = State.setPc { s with feeder } client (.subscribed handle)) := by
  unfold subscribe at taken
  split at taken
  next text feeder here result => cases taken; exact ⟨here, .inl ⟨text, feeder, result, rfl⟩⟩
  next handle feeder here result => cases taken; exact ⟨here, .inr ⟨handle, feeder, result, rfl⟩⟩
  next => cases taken

theorem catchUp_eq (taken : catchUp s r client = some s') :
    ∃ handle watermark, s.pc client = .snapshotted handle watermark ∧
      s.workers (.client client) = {} ∧
      s' = (s.setPc client (.caughtUp handle watermark)).queue (.client client)
        (replay r s client) := by
  unfold catchUp at taken
  split at taken
  next here idle => cases taken; exact ⟨_, _, here, Worker.idle_iff.mp idle, rfl⟩
  next => cases taken

theorem boundary_eq (taken : boundary s r client = some s') :
    ∃ handle watermark, s.pc client = .caughtUp handle watermark ∧
      s.workers (.client client) = {} ∧
      s' = (s.setPc client (.bounded handle)).queue (.client client)
        [boundaryEvent r client watermark] := by
  unfold boundary at taken
  split at taken
  next here idle => cases taken; exact ⟨_, _, here, Worker.idle_iff.mp idle, rfl⟩
  next => cases taken

variable [QueryLanguage]

theorem update_eq {key : String} {added modified : List Nat} {nowNs : Int}
    (taken : update requests s key added modified nowNs = some s') :
    ∃ lsn, s.feeder.lsn.lookup key = some lsn ∧ s.workers .updates = {} ∧
      s' = (s.setListener key
          { lsn with toSymListener := (lsn.onUpdate (tableUpdate s lsn added modified) nowNs).2 }).queue
        .updates
        (emitCompleted requests s.feeder key
          (lsn.onUpdate (tableUpdate s lsn added modified) nowNs).1) := by
  unfold update at taken
  split at taken
  next => cases taken
  next lsn found =>
    split at taken
    next idle =>
      cases taken
      exact ⟨lsn, found, Worker.idle_iff.mp idle, rfl⟩
    next => cases taken

theorem takeSnapshot_eq {nowNs : Int} {failure : Option String}
    (taken : takeSnapshot s r client nowNs failure = some s') :
    ∃ handle, s.pc client = .subscribed handle ∧
      ((∃ text, failure = some text ∧ s' = s.setPc client (.failed text)) ∨
        failure = none ∧ ∃ spec, schemas r.provider r.dataSchema = some spec ∧
          (r.query nowNs).answered spec = true ∧ s' = (s.setPc client
              (.snapshotted handle (watermark spec (snapshotTable s r spec nowNs)))).queue
            (.client client)
            (snapshotEvents r client (snapshotTable s r spec nowNs)
              (watermark spec (snapshotTable s r spec nowNs)))) := by
  unfold takeSnapshot at taken
  split at taken
  next here => cases taken; exact ⟨_, here, .inl ⟨_, rfl, rfl⟩⟩
  next here registered =>
    split at taken
    next answered => cases taken; exact ⟨_, here, .inr ⟨rfl, _, registered, answered, rfl⟩⟩
    next => cases taken
  next => cases taken

end Inversion

-- What is true of each event that a step queues is true of all events.

section Events

variable {requests : Nat → Request} {s s' : State} {P : Nat → Event → Prop}

structure EventsMeet (P : Nat → Event → Prop) (s : State) : Prop where
  received : ∀ client, ∀ delivered ∈ s.received client, P client delivered.1
  underway : ∀ thread, ∀ event ∈ (s.workers thread).events, P event.client event

theorem EventsMeet.imp {Q : Nat → Event → Prop} (met : EventsMeet P s)
    (weaken : ∀ client event, P client event → Q client event) : EventsMeet Q s where
  received client delivered member := weaken _ _ (met.received client delivered member)
  underway thread event member := weaken _ _ (met.underway thread event member)

theorem EventsMeet.queue (met : EventsMeet P s) {thread : Thread} {events : List Event}
    (new : ∀ event ∈ events, P event.client event) : EventsMeet P (s.queue thread events) := by
  refine { met with underway := ?_ }
  intro other event member
  rw [State.queue_workers] at member
  split at member
  next => exact new event member
  next => exact met.underway other event member

theorem start_eventsMeet (feeder : MarketFeeder) (seqs : Dict String Nat)
    (tables : String → String → List Row) : EventsMeet P (.start feeder seqs tables) where
  received _ _ member := by cases member
  underway _ _ member := by cases member

variable [Uppercase] [QueryLanguage]

def queued (requests : Nat → Request) (s : State) : Action → List Event
  | .update key added modified nowNs =>
      match s.feeder.lsn.lookup key with
      | none => []
      | some lsn =>
          emitCompleted requests s.feeder key
            (lsn.onUpdate (tableUpdate s lsn added modified) nowNs).1
  | .takeSnapshot client nowNs none =>
      let r := requests client
      match schemas r.provider r.dataSchema with
      | none => []
      | some spec =>
          let table := snapshotTable s r spec nowNs
          snapshotEvents r client table (watermark spec table)
  | .catchUp client => replay (requests client) s client
  | .boundary client =>
      match s.pc client with
      | .caughtUp _ watermark => [boundaryEvent (requests client) client watermark]
      | _ => []
  | _ => []

theorem mem_queued {a : Action} {event : Event} (member : event ∈ queued requests s a) :
    (∃ key added modified nowNs lsn, a = .update key added modified nowNs ∧
        s.feeder.lsn.lookup key = some lsn ∧
        event ∈ emitCompleted requests s.feeder key
          (lsn.onUpdate (tableUpdate s lsn added modified) nowNs).1) ∨
      (∃ client nowNs spec, a = .takeSnapshot client nowNs none ∧
        schemas (requests client).provider (requests client).dataSchema = some spec ∧
        event ∈ snapshotEvents (requests client) client (snapshotTable s (requests client) spec nowNs)
          (watermark spec (snapshotTable s (requests client) spec nowNs))) ∨
      (∃ client, a = .catchUp client ∧ event ∈ replay (requests client) s client) ∨
      ∃ client handle watermark, a = .boundary client ∧ s.pc client = .caughtUp handle watermark ∧
        event = boundaryEvent (requests client) client watermark := by
  cases a with
  | update key added modified nowNs =>
      simp only [queued] at member
      split at member
      next => cases member
      next lsn found => exact .inl ⟨key, added, modified, nowNs, lsn, rfl, found, member⟩
  | takeSnapshot client nowNs failure =>
      cases failure with
      | some text => cases member
      | none =>
          simp only [queued] at member
          split at member
          next => cases member
          next spec registered =>
            exact .inr (.inl ⟨client, nowNs, spec, rfl, registered, member⟩)
  | catchUp client => exact .inr (.inr (.inl ⟨client, rfl, member⟩))
  | boundary client =>
      simp only [queued] at member
      split at member
      next handle watermark here =>
        exact .inr (.inr (.inr ⟨client, handle, watermark, rfl, here, List.mem_singleton.mp member⟩))
      next => cases member
  | _ => cases member

theorem step_eventsMeet {a : Action} (met : EventsMeet P s)
    (new : ∀ event ∈ queued requests s a, P event.client event)
    (taken : step requests s a = some s') : EventsMeet P s' := by
  cases a with
  | write provider dataSchema rows => cases taken; exact { met with }
  | update key added modified nowNs =>
      obtain ⟨lsn, found, _, rfl⟩ := update_eq taken
      simp only [queued, found] at new
      exact EventsMeet.queue (s := s.setListener key _) { met with } new
  | reset client =>
      obtain ⟨_, ⟨text, rfl⟩ | rfl⟩ := reset_eq taken
      · exact { met with }
      · exact { met with }
  | subscribe client creation =>
      obtain ⟨_, ⟨text, feeder, _, rfl⟩ | ⟨handle, feeder, _, rfl⟩⟩ := subscribe_eq taken
      · exact { met with }
      · exact { met with }
  | takeSnapshot client nowNs failure =>
      obtain ⟨handle, _, ⟨text, _, rfl⟩ | ⟨rfl, spec, registered, _, rfl⟩⟩ := takeSnapshot_eq taken
      · exact { met with }
      · simp only [queued, registered] at new
        exact EventsMeet.queue (s := s.setPc client _) { met with } new
  | catchUp client =>
      obtain ⟨handle, watermark, _, _, rfl⟩ := catchUp_eq taken
      exact EventsMeet.queue (s := s.setPc client _) { met with } new
  | boundary client =>
      obtain ⟨handle, watermark, here, _, rfl⟩ := boundary_eq taken
      simp only [queued, here] at new
      exact EventsMeet.queue (s := s.setPc client _) { met with } new
  | detach client =>
      obtain ⟨handle, _, _, rfl⟩ := detach_eq taken
      exact { met with }
  | number thread =>
      obtain ⟨event, rest, here, rfl⟩ := number_eq taken
      refine { met with underway := ?_ }
      intro other queued member
      rw [State.readSeq_events here] at member
      exact met.underway other queued member
  | advance thread =>
      obtain ⟨event, seq, rest, here, rfl⟩ := advance_eq taken
      refine { met with underway := ?_ }
      intro other queued member
      rw [State.writeSeq_events here] at member
      exact met.underway other queued member
  | emit thread =>
      obtain ⟨event, seq, rest, here, rfl⟩ := emit_eq taken
      constructor
      · intro other delivered member
        rw [State.deliver_received] at member
        split at member
        next same =>
          subst same
          rcases List.mem_append.mp member with before | last
          · exact met.received event.client delivered before
          · rw [List.mem_singleton.mp last]
            exact met.underway thread event (by simp [here])
        next => exact met.received other delivered member
      · intro other queued member
        exact met.underway other queued (State.deliver_events here member)

end Events

def tradeRequests (_ : Nat) : Request :=
  { provider := "binance", dataSchema := "trades", symbol := "BTCUSDT", startNs := some 0 }

def tradeAt (time : Int) : Row where
  time
  cells := [("Symbol", .str "BTCUSDT")]
  distinct := by simp

def tradesUpTo (time : Int) : Action :=
  .write "binance" "trades" ([1000000000, 2000000000, 3000000000].filter (· ≤ time) |>.map tradeAt)

def emits (thread : Thread) : List Action := [.number thread, .advance thread, .emit thread]

-- A whole attach of a client, without anything between its steps; the feeder has the snapshot and
-- the boundary to emit.
def attaches (client : Nat) : List Action :=
  [.reset client, .subscribe client (.started 256), .takeSnapshot client 0 none] ++
    emits (.client client) ++ [.catchUp client, .boundary client] ++ emits (.client client)

end DeepFeeder.Gapless
