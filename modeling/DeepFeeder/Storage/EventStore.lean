import Mathlib.Data.List.Sort
import Mathlib.Data.Int.Order.Basic
import DeepFeeder.Shared.Binary64
import DeepFeeder.Storage.Arrow

set_option autoImplicit false

namespace DeepFeeder

structure ArrowRow where
  provider : String
  stream : String
  symbol : String
  tsNs : Int
  seq : Int
  isFinal : Bool
  payload : Payload

-- All columns of an Arrow table have one length, so a table is the list of its rows.
abbrev ArrowTable := List ArrowRow

def payloadType (ticks : List Tick) : ArrowType :=
  let payloads := ticks.map fun t => Value.dict t.payload
  .infer (Value.depths payloads + 1) payloads

def arrowRow (coerce : Coercion) (type : ArrowType) (t : Tick) : Option ArrowRow :=
  match type.store coerce (.dict t.payload) with
  | some (.dict payload) =>
      let seq := t.seq.getD (-1)
      if isBigint t.tsNs ∧ isBigint seq then
        some
          { provider := t.provider, stream := t.stream, symbol := t.symbol, tsNs := t.tsNs, seq
            isFinal := t.isFinal, payload }
      else none
  | _ => none

def ticksToArrow (coerce : Coercion) (ticks : List Tick) : Option ArrowTable :=
  ticks.mapM (arrowRow coerce (payloadType ticks))

def ArrowRow.toTick (r : ArrowRow) : Tick :=
  { provider := r.provider, stream := r.stream, symbol := r.symbol, tsNs := r.tsNs
    seq := if r.seq = -1 then none else some r.seq
    payload := r.payload
    isFinal := r.isFinal }

def arrowToTicks (tbl : ArrowTable) : List Tick := tbl.map ArrowRow.toTick

theorem arrowRow_eq_some_iff {coerce : Coercion} {type : ArrowType} {t : Tick} {r : ArrowRow} :
    arrowRow coerce type t = some r ↔ ∃ payload, type.store coerce (.dict t.payload) =
      some (.dict payload) ∧ (isBigint t.tsNs ∧ isBigint (t.seq.getD (-1))) ∧
        r = { provider := t.provider, stream := t.stream, symbol := t.symbol, tsNs := t.tsNs
              seq := t.seq.getD (-1), isFinal := t.isFinal, payload } := by
  unfold arrowRow
  split
  next payload stored =>
    rw [stored]
    simp only [Option.ite_none_right_eq_some, Option.some.injEq, Value.dict.injEq, exists_eq_left']
    rw [eq_comm (a := r)]
  next refused =>
    constructor
    · rintro ⟨⟩
    · rintro ⟨payload, stored, _⟩
      exact absurd stored (refused payload)

-- `-1` stands for None, so a number -1 is read back as None.
theorem seq_read_iff (seq : Option Int) :
    (if seq.getD (-1) = -1 then none else some (seq.getD (-1))) = seq ↔ seq ≠ some (-1) := by
  cases seq with
  | none => simp
  | some n =>
      by_cases sentinel : n = -1
      · simp [sentinel]
      · simp [sentinel]

theorem arrowToTicks_ticksToArrow {coerce : Coercion} {ticks : List Tick} {table : ArrowTable}
    {columns : List (String × Kind)} (distinct : (columns.map Prod.fst).Nodup)
    (scalar : ∀ column ∈ columns, column.2 ≠ .list ∧ column.2 ≠ .dict)
    (typed : ∀ t ∈ ticks, Typed columns t.payload)
    (numbered : ∀ t ∈ ticks, t.seq ≠ some (-1)) (stored : ticksToArrow coerce ticks = some table) :
    arrowToTicks table = ticks := by
  have reads : ∀ t ∈ ticks, ∀ r, arrowRow coerce (payloadType ticks) t = some r →
      r.toTick = id t := by
    intro t member r made
    obtain ⟨payload, kept, _, rfl⟩ := arrowRow_eq_some_iff.mp made
    have listed : t.payload ∈ ticks.map Tick.payload := List.mem_map_of_mem member
    have deep : 0 < Value.depths (ticks.map fun t => Value.dict t.payload) := by
      apply Nat.pos_of_ne_zero
      intro flat
      have below := ArrowType.depths_le_iff.mp (le_of_eq flat) _ (List.mem_map_of_mem member)
      exact absurd below (Nat.not_succ_le_zero _)
    obtain ⟨fuel, isFuel⟩ := Nat.exists_eq_add_one.mpr deep
    have same : payload = t.payload := by
      unfold payloadType at kept
      simp only [isFuel] at kept
      rw [show (fun t : Tick => Value.dict t.payload) = Value.dict ∘ Tick.payload from rfl,
        ← List.map_map] at kept
      have back := ArrowType.store_dict_eq_self distinct scalar (List.forall_mem_map.mpr typed) listed
        kept
      exact Value.dict.inj back
    simp only [ArrowRow.toTick, same, (seq_read_iff t.seq).mpr (numbered t member), id]
  have same := Fallible.map_of_mapM (h := id) stored reads
  rwa [List.map_id] at same

structure StoreRow where
  batchId : Int
  -- A TIMESTAMP column keeps microseconds.
  producedAt : Int
  firstOff : Int
  lastOff : Int
  rowCount : Nat
  payload : ArrowTable

-- `env.first_offset or -1`: an offset of zero is falsy.
def offsetColumn : Option Int → Int
  | some 0 | none => -1
  | some n => n

-- `to_timestamp(?/1e9)`, with doubles in between; it rounds to microseconds.
def toTimestamp (ns : Int) : Int :=
  Binary64.roundHalfEven (Binary64.round (Binary64.round (Binary64.round ns / 10 ^ 9) * 10 ^ 6))

-- `int(extract(epoch FROM produced_at)*1e9)`.
def epochNs (micros : Int) : Int :=
  let product := Binary64.round (Binary64.round (Binary64.round micros / 10 ^ 6) * 10 ^ 9)
  if 0 ≤ product then product.floor else product.ceil

example : epochNs (toTimestamp 999) = 1000 := by decide +kernel

def StoreRow.fits (row : StoreRow) : Bool :=
  isBigint row.batchId && isBigint row.producedAt && isBigint row.firstOff &&
    isBigint row.lastOff && row.rowCount ≤ 2147483647

def StoreRow.ofTable (batchId : Int) (env : Envelope) (payload : ArrowTable) : StoreRow :=
  { batchId
    producedAt := toTimestamp env.producedAtNs
    firstOff := offsetColumn env.firstOffset
    lastOff := offsetColumn env.lastOffset
    rowCount := env.rows.length
    payload }

def StoreRow.ofEnvelope (coerce : Coercion) (batchId : Int) (env : Envelope) : Option StoreRow :=
  (ticksToArrow coerce env.rows).bind fun payload =>
    let row := StoreRow.ofTable batchId env payload
    if row.fits then some row else none

theorem StoreRow.ofEnvelope_eq_some_iff {coerce : Coercion} {batchId : Int} {env : Envelope}
    {row : StoreRow} : StoreRow.ofEnvelope coerce batchId env = some row ↔
      ∃ table, ticksToArrow coerce env.rows = some table ∧ row = .ofTable batchId env table ∧
        row.fits = true := by
  unfold StoreRow.ofEnvelope
  rw [Option.bind_eq_some_iff]
  apply exists_congr
  intro table
  apply and_congr_right
  intro _
  simp only [Option.ite_none_right_eq_some, Option.some.injEq]
  constructor
  · rintro ⟨fits, rfl⟩
    exact ⟨rfl, fits⟩
  · rintro ⟨rfl, fits⟩
    exact ⟨fits, rfl⟩

def StoreRow.toEnvelope (row : StoreRow) : Envelope :=
  { batchId := row.batchId
    producedAtNs := epochNs row.producedAt
    firstOffset := if row.firstOff < 0 then none else some row.firstOff
    lastOffset := if row.lastOff < 0 then none else some row.lastOff
    rows := arrowToTicks row.payload }

abbrev rowIds (rows : List StoreRow) : List Int := rows.map StoreRow.batchId

/-- One database file: the `event_store` table, the value in `acks` and the next value of
`event_store_seq`. Only the store's own statements write to it, so the ids it holds are ordered
and the sequence is past all of them. -/
structure Database where
  eventStore : List StoreRow
  acks : Int
  eventStoreSeq : Int
  ordered : (rowIds eventStore).Pairwise (· < ·)
  positive : ∀ id ∈ rowIds eventStore, 1 ≤ id
  fresh : ∀ id ∈ rowIds eventStore, id < eventStoreSeq
  started : 1 ≤ eventStoreSeq

namespace Database

def new : Database :=
  { eventStore := [], acks := 0, eventStoreSeq := 1
    ordered := by simp, positive := by simp, fresh := by simp, started := by simp }

/-- `SELECT COALESCE(MAX(batch_id), 0) FROM event_store`. -/
def maxBatchId (db : Database) : Int := (rowIds db.eventStore).max?.getD 0

theorem le_maxBatchId (db : Database) {id : Int} (member : id ∈ rowIds db.eventStore) :
    id ≤ db.maxBatchId := by
  unfold maxBatchId
  cases top : (rowIds db.eventStore).max? with
  | none => simp_all [List.max?_eq_none_iff]
  | some m => exact (List.max?_eq_some_iff.mp top).2 id member

theorem maxBatchId_cases (db : Database) :
    db.maxBatchId = 0 ∨ db.maxBatchId ∈ rowIds db.eventStore := by
  unfold maxBatchId
  cases top : (rowIds db.eventStore).max? with
  | none => exact .inl rfl
  | some m => exact .inr (List.max?_eq_some_iff.mp top).1

theorem maxBatchId_nonneg (db : Database) : 0 ≤ db.maxBatchId := by
  rcases db.maxBatchId_cases with zero | member
  · omega
  · exact le_trans (by omega) (db.positive _ member)

/-- The end of `_ensure_schema`: the sequence is dropped and created again above the rows. -/
def ensureSchema (db : Database) : Database :=
  { db with
    eventStoreSeq := db.maxBatchId + 1
    fresh := fun _ member => Int.lt_add_one_of_le (db.le_maxBatchId member)
    started := by have := db.maxBatchId_nonneg; omega }

def insert (db : Database) (row : StoreRow) : Database :=
  { db with
    eventStore := db.eventStore ++ [{ row with batchId := db.eventStoreSeq }]
    eventStoreSeq := db.eventStoreSeq + 1
    ordered := by
      simp only [rowIds, List.map_append, List.pairwise_append]
      refine ⟨db.ordered, by simp, ?_⟩
      intro id member last inserted
      have old := db.fresh id member
      simp at inserted
      omega
    positive := by
      intro id member
      simp only [rowIds, List.map_append, List.mem_append] at member
      rcases member with old | inserted
      · exact db.positive id old
      · simp at inserted
        exact inserted ▸ db.started
    fresh := by
      intro id member
      simp only [rowIds, List.map_append, List.mem_append] at member
      rcases member with old | inserted
      · have := db.fresh id old
        omega
      · simp at inserted
        omega
    started := by have := db.started; omega }

def deleteUpto (db : Database) (cutoff : Int) : Database :=
  have kept : ∀ id ∈ rowIds (db.eventStore.filter fun r => cutoff < r.batchId),
      id ∈ rowIds db.eventStore := by
    intro id member
    obtain ⟨row, inside, rfl⟩ := List.mem_map.mp member
    exact List.mem_map_of_mem (List.mem_filter.mp inside).1
  { db with
    eventStore := db.eventStore.filter fun r => cutoff < r.batchId
    ordered := db.ordered.sublist (List.filter_sublist.map _)
    positive := fun id member => db.positive id (kept id member)
    fresh := fun id member => db.fresh id (kept id member) }

end Database

/-- The constructor's retention settings, times in nanoseconds. -/
structure Retention where
  pruneInterval : Int := 600 * 1000000000
  pruneSafetyBatches : Int := 100
  vacuumEveryNPrunes : Int := 6

structure DuckDbEventStore where
  con : Database
  retention : Retention
  coerce : Coercion := .refuse
  lastPruneTs : Int := 0
  lastPrunedBatch : Int := 0
  pruneCount : Int := 0

inductive PyError where
  | duckdbError
  | zeroDivisionError
  deriving DecidableEq

inductive MarkFault where
  | update
  | delete
  | afterCommit
  deriving DecidableEq

namespace DuckDbEventStore

def connect (db : Database) (retention : Retention) (coerce : Coercion := .refuse) :
    DuckDbEventStore :=
  { con := db.ensureSchema, retention, coerce }

def append (store : DuckDbEventStore) (env : Envelope) : Option (Int × DuckDbEventStore) :=
  (StoreRow.ofEnvelope store.coerce store.con.eventStoreSeq env).map fun row =>
    (store.con.eventStoreSeq, { store with con := store.con.insert row })

def nextFrom (store : DuckDbEventStore) (nextBatchId : Int) (maxN : Nat) : List Envelope :=
  let pending := store.con.eventStore.filter fun r => nextBatchId ≤ r.batchId
  ((pending.insertionSort fun a b => a.batchId ≤ b.batchId).take maxN).map StoreRow.toEnvelope

def lastCommitted (store : DuckDbEventStore) : Int := store.con.acks

def maxBatchId (store : DuckDbEventStore) : Int := store.con.maxBatchId

def pruneUptoLocked (store : DuckDbEventStore) (cutoffInclusive : Int) : Nat × DuckDbEventStore :=
  let n := store.con.eventStore.countP fun r => r.batchId ≤ cutoffInclusive
  if n = 0 then (0, store) else (n, { store with con := store.con.deleteUpto cutoffInclusive })

def pruneUpto (store : DuckDbEventStore) (batchId : Int) : Nat × DuckDbEventStore :=
  store.pruneUptoLocked batchId

def recordPrune (store : DuckDbEventStore) (cutoff now : Int) : DuckDbEventStore :=
  { store with
    lastPrunedBatch := cutoff
    lastPruneTs := now
    pruneCount := store.pruneCount + 1 }

def maybePruneLocked (store : DuckDbEventStore) (now : Int) (fault : Option MarkFault) :
    Except PyError Unit × DuckDbEventStore :=
  if store.retention.pruneInterval ≤ 0 then (.ok (), store)
  else if now - store.lastPruneTs < store.retention.pruneInterval then (.ok (), store)
  else
    let cutoff := store.lastCommitted - store.retention.pruneSafetyBatches
    if cutoff ≤ 0 ∨ cutoff ≤ store.lastPrunedBatch then (.ok (), { store with lastPruneTs := now })
    else
      let pruned := (store.pruneUptoLocked cutoff).2
      match fault with
      | some .delete => (.error .duckdbError, store)
      | some .afterCommit => (.error .duckdbError, pruned)
      | _ =>
        let done := pruned.recordPrune cutoff now
        -- VACUUM changes no table; a zero setting makes the remainder raise.
        if store.retention.vacuumEveryNPrunes = 0 then (.error .zeroDivisionError, done)
        else (.ok (), done)

def setAck (store : DuckDbEventStore) (batchId : Int) : DuckDbEventStore :=
  { store with con := { store.con with acks := batchId } }

def markCommitted (store : DuckDbEventStore) (batchId now : Int) (fault : Option MarkFault) :
    Except PyError Unit × DuckDbEventStore :=
  match fault with
  | some .update => (.error .duckdbError, store)
  | _ => (store.setAck batchId).maybePruneLocked now fault

def stored (store : DuckDbEventStore) : List Int := rowIds store.con.eventStore

theorem stored_ordered (store : DuckDbEventStore) : store.stored.Pairwise (· < ·) :=
  store.con.ordered

theorem append_eq {store store' : DuckDbEventStore} {env : Envelope} {id : Int}
    (appended : store.append env = some (id, store')) : id = store.con.eventStoreSeq ∧
      ∃ row, StoreRow.ofEnvelope store.coerce store.con.eventStoreSeq env = some row ∧
        store' = { store with con := store.con.insert row } := by
  obtain ⟨row, made, pair⟩ := Option.map_eq_some_iff.mp appended
  cases pair
  exact ⟨rfl, row, made, rfl⟩

theorem append_id {store store' : DuckDbEventStore} {env : Envelope} {id : Int}
    (appended : store.append env = some (id, store')) : id = store.con.eventStoreSeq :=
  (append_eq appended).1

theorem append_seq {store store' : DuckDbEventStore} {env : Envelope} {id : Int}
    (appended : store.append env = some (id, store')) :
    store'.con.eventStoreSeq = store.con.eventStoreSeq + 1 := by
  obtain ⟨_, row, _, rfl⟩ := append_eq appended
  rfl

theorem append_lastCommitted {store store' : DuckDbEventStore} {env : Envelope} {id : Int}
    (appended : store.append env = some (id, store')) :
    store'.lastCommitted = store.lastCommitted := by
  obtain ⟨_, row, _, rfl⟩ := append_eq appended
  rfl

theorem stored_append {store store' : DuckDbEventStore} {env : Envelope} {id : Int}
    (appended : store.append env = some (id, store')) :
    store'.stored = store.stored ++ [store.con.eventStoreSeq] := by
  obtain ⟨_, row, _, rfl⟩ := append_eq appended
  simp [stored, Database.insert]

theorem ids_nextFrom (store : DuckDbEventStore) (nextBatchId : Int) (maxN : Nat) :
    ids (store.nextFrom nextBatchId maxN) =
      (store.stored.filter fun id => nextBatchId ≤ id).take maxN := by
  have ordered : (store.con.eventStore.filter fun r => nextBatchId ≤ r.batchId).Pairwise
      fun a b => a.batchId ≤ b.batchId :=
    (List.pairwise_map.mp store.con.ordered).imp (fun less => le_of_lt less) |>.filter _
  simp only [nextFrom, ordered.insertionSort_eq, ids, stored, rowIds, List.map_map,
    List.filter_map, List.map_take]
  rfl

theorem mem_nextFrom {store : DuckDbEventStore} {nextBatchId id : Int} {maxN : Nat}
    (member : id ∈ store.stored) (le : nextBatchId ≤ id) (room : store.stored.length ≤ maxN) :
    id ∈ ids (store.nextFrom nextBatchId maxN) := by
  rw [ids_nextFrom, List.take_of_length_le (le_trans (List.length_filter_le _ _) room)]
  exact List.mem_filter.mpr ⟨member, decide_eq_true le⟩

theorem ids_nextFrom_succ (store : DuckDbEventStore) (lastId : Int) (maxN : Nat) :
    ids (store.nextFrom (lastId + 1) maxN) =
      (store.stored.filter fun id => lastId < id).take maxN := by
  rw [ids_nextFrom]
  simp only [Int.add_one_le_iff]

theorem stored_pruneUptoLocked (store : DuckDbEventStore) (cutoff : Int) :
    (store.pruneUptoLocked cutoff).2.stored = store.stored.filter fun id => cutoff < id := by
  have deleted : rowIds (store.con.deleteUpto cutoff).eventStore =
      store.stored.filter fun id => cutoff < id := by
    simp only [Database.deleteUpto, stored, rowIds, List.filter_map]
    rfl
  simp only [pruneUptoLocked]
  split
  next none =>
    refine (List.filter_eq_self.mpr ?_).symm
    intro id member
    obtain ⟨row, inside, rfl⟩ := List.mem_map.mp member
    have above := List.countP_eq_zero.mp none row inside
    simpa using above
  next => exact deleted

@[simp] theorem pruneUptoLocked_seq (store : DuckDbEventStore) (cutoff : Int) :
    (store.pruneUptoLocked cutoff).2.con.eventStoreSeq = store.con.eventStoreSeq := by
  simp only [pruneUptoLocked]
  split <;> rfl

@[simp] theorem pruneUptoLocked_lastCommitted (store : DuckDbEventStore) (cutoff : Int) :
    (store.pruneUptoLocked cutoff).2.lastCommitted = store.lastCommitted := by
  simp only [pruneUptoLocked]
  split <;> rfl

@[simp] theorem recordPrune_stored (store : DuckDbEventStore) (cutoff now : Int) :
    (store.recordPrune cutoff now).stored = store.stored := rfl

@[simp] theorem recordPrune_lastCommitted (store : DuckDbEventStore) (cutoff now : Int) :
    (store.recordPrune cutoff now).lastCommitted = store.lastCommitted := rfl

@[simp] theorem recordPrune_seq (store : DuckDbEventStore) (cutoff now : Int) :
    (store.recordPrune cutoff now).con.eventStoreSeq = store.con.eventStoreSeq := rfl

def dueCutoff (store : DuckDbEventStore) (now : Int) : Option Int :=
  let cutoff := store.lastCommitted - store.retention.pruneSafetyBatches
  if store.retention.pruneInterval ≤ 0 ∨ now - store.lastPruneTs < store.retention.pruneInterval ∨
      cutoff ≤ 0 ∨ cutoff ≤ store.lastPrunedBatch then none
  else some cutoff

def surviving (store : DuckDbEventStore) (now : Int) (fault : Option MarkFault) : List Int :=
  match store.dueCutoff now, fault with
  | none, _ | _, some .delete => store.stored
  | some cutoff, _ => store.stored.filter fun id => cutoff < id

/-- What `_maybe_prune_locked` does to the store: it deletes rows up to a due cutoff and touches
neither the commit pointer nor the sequence. -/
structure Pruned (store after : DuckDbEventStore) (now : Int) (fault : Option MarkFault) : Prop where
  stored : after.stored = store.surviving now fault
  lastCommitted : after.lastCommitted = store.lastCommitted
  seq : after.con.eventStoreSeq = store.con.eventStoreSeq

theorem maybePruneLocked_pruned (store : DuckDbEventStore) (now : Int) (fault : Option MarkFault) :
    Pruned store (store.maybePruneLocked now fault).2 now fault := by
  simp only [maybePruneLocked]
  split
  next off => exact ⟨by simp [surviving, dueCutoff, off], rfl, rfl⟩
  next on =>
    split
    next early => exact ⟨by simp [surviving, dueCutoff, early], rfl, rfl⟩
    next late =>
      split
      next skip =>
        refine ⟨?_, rfl, rfl⟩
        rcases skip with skip | skip <;> simp [surviving, dueCutoff, skip, DuckDbEventStore.stored]
      next due =>
        have cutoff : store.dueCutoff now =
            some (store.lastCommitted - store.retention.pruneSafetyBatches) := by
          simp only [dueCutoff]
          rw [if_neg]
          simp_all
        have deleted := stored_pruneUptoLocked store
          (store.lastCommitted - store.retention.pruneSafetyBatches)
        match fault with
        | some .delete => exact ⟨by simp [surviving, cutoff], rfl, rfl⟩
        | some .afterCommit => exact ⟨by simp [surviving, cutoff, deleted], by simp, by simp⟩
        | some .update | none =>
          by_cases vacuum : store.retention.vacuumEveryNPrunes = 0 <;>
            exact ⟨by simpa [surviving, cutoff, vacuum] using deleted, by simp [vacuum],
              by simp [vacuum]⟩

/-- A `mark_committed` either fails at its first statement and changes nothing, or moves the commit
pointer and then prunes. -/
theorem markCommitted_cases (store : DuckDbEventStore) (batchId now : Int)
    (fault : Option MarkFault) :
    (fault = some .update ∧ store.markCommitted batchId now fault = (.error .duckdbError, store)) ∨
      (fault ≠ some .update ∧
        Pruned (store.setAck batchId) (store.markCommitted batchId now fault).2 now fault) := by
  match fault with
  | some .update => exact .inl ⟨rfl, rfl⟩
  | none | some .delete | some .afterCommit =>
    exact .inr ⟨by simp, maybePruneLocked_pruned _ now _⟩

theorem surviving_subset (store : DuckDbEventStore) (now : Int) (fault : Option MarkFault) {id : Int}
    (member : id ∈ store.surviving now fault) : id ∈ store.stored := by
  unfold surviving at member
  split at member
  · exact member
  · exact member
  · exact (List.mem_filter.mp member).1

def doomed (store : DuckDbEventStore) (batchId now : Int) (fault : Option MarkFault) : List Int :=
  if fault = some .update then []
  else store.stored.filter fun id => id ∉ (store.setAck batchId).surviving now fault

theorem mem_stored_of_doomed {store : DuckDbEventStore} {batchId now id : Int}
    {fault : Option MarkFault} (member : id ∈ store.doomed batchId now fault) :
    id ∈ store.stored := by
  unfold doomed at member
  split at member
  · cases member
  · exact (List.mem_filter.mp member).1

theorem markCommitted_stored (store : DuckDbEventStore) (batchId now : Int) (fault : Option MarkFault)
    (id : Int) :
    id ∈ (store.markCommitted batchId now fault).2.stored ↔
      id ∈ store.stored ∧ id ∉ store.doomed batchId now fault := by
  rcases store.markCommitted_cases batchId now fault with ⟨failed, unchanged⟩ | ⟨moved, pruned⟩
  · rw [unchanged, doomed, if_pos failed]
    simp
  · rw [pruned.stored, doomed, if_neg moved]
    constructor
    · intro survives
      exact ⟨surviving_subset (store.setAck batchId) now fault survives, by simp [survives]⟩
    · rintro ⟨member, kept⟩
      simpa [member] using kept

theorem markCommitted_seq (store : DuckDbEventStore) (batchId now : Int) (fault : Option MarkFault) :
    (store.markCommitted batchId now fault).2.con.eventStoreSeq = store.con.eventStoreSeq := by
  rcases store.markCommitted_cases batchId now fault with ⟨_, unchanged⟩ | ⟨_, pruned⟩
  · rw [unchanged]
  · exact pruned.seq

theorem markCommitted_lastCommitted (store : DuckDbEventStore) (batchId now : Int)
    (fault : Option MarkFault) :
    (store.markCommitted batchId now fault).2.lastCommitted =
      if fault = some .update then store.lastCommitted else batchId := by
  rcases store.markCommitted_cases batchId now fault with ⟨failed, unchanged⟩ | ⟨moved, pruned⟩
  · rw [unchanged, if_pos failed]
  · rw [if_neg moved]
    exact pruned.lastCommitted

theorem row_of_nextFrom {store : DuckDbEventStore} {nextBatchId : Int} {maxN : Nat} {env : Envelope}
    (member : env ∈ store.nextFrom nextBatchId maxN) :
    ∃ row ∈ store.con.eventStore, row.toEnvelope = env := by
  unfold nextFrom at member
  obtain ⟨row, taken, same⟩ := List.mem_map.mp member
  have sorted := List.mem_of_mem_take taken
  rw [List.mem_insertionSort] at sorted
  exact ⟨row, List.mem_of_mem_filter sorted, same⟩

theorem rows_pruneUptoLocked {store : DuckDbEventStore} {cutoff : Int} {row : StoreRow}
    (member : row ∈ (store.pruneUptoLocked cutoff).2.con.eventStore) :
    row ∈ store.con.eventStore := by
  unfold pruneUptoLocked at member
  simp only at member
  split at member
  · exact member
  · exact List.mem_of_mem_filter member

theorem rows_maybePruneLocked {store : DuckDbEventStore} {now : Int} {fault : Option MarkFault}
    {row : StoreRow} (member : row ∈ (store.maybePruneLocked now fault).2.con.eventStore) :
    row ∈ store.con.eventStore := by
  unfold maybePruneLocked at member
  simp only at member
  split at member
  · exact member
  · split at member
    · exact member
    · split at member
      · exact member
      · split at member
        · exact member
        · exact rows_pruneUptoLocked member
        · split at member
          · exact rows_pruneUptoLocked member
          · exact rows_pruneUptoLocked member

theorem rows_markCommitted {store : DuckDbEventStore} {batchId now : Int}
    {fault : Option MarkFault} {row : StoreRow}
    (member : row ∈ (store.markCommitted batchId now fault).2.con.eventStore) :
    row ∈ store.con.eventStore := by
  unfold markCommitted at member
  split at member
  · exact member
  · have acked := rows_maybePruneLocked member
    exact acked

end DuckDbEventStore

end DeepFeeder
