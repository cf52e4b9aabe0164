import Mathlib.Algebra.Order.Field.Rat
import Mathlib.Logic.Function.Basic
import DeepFeeder.Core.EventBus
import DeepFeeder.Providers.Binance
import DeepFeeder.Providers.TradingView

set_option autoImplicit false

namespace DeepFeeder

inductive ListRef where
  | batch (producer : Nat)
  | copy (n : Nat)
  deriving DecidableEq

abbrev ListHeap := ListRef → List Tick

structure RingEnvelope where
  batchId : Int
  producedAtNs : Int
  firstOffset : Option Int
  lastOffset : Option Int
  rows : ListRef

def RingEnvelope.read (heap : ListHeap) (env : RingEnvelope) : Envelope :=
  ⟨env.batchId, env.producedAtNs, env.firstOffset, env.lastOffset, heap env.rows⟩

structure RingBus where
  buf : List RingEnvelope
  maxEnvelopes : Int
  jrCursor : Int
  dhCursor : Int

namespace RingBus

def evict (maxEnvelopes dhCursor jrCursor : Int) : List RingEnvelope → List RingEnvelope
  | [] => []
  | head :: rest =>
      if maxEnvelopes < ((head :: rest).length : Int) then
        if head.batchId ≤ dhCursor ∧ head.batchId ≤ jrCursor then
          evict maxEnvelopes dhCursor jrCursor rest
        else head :: rest
      else head :: rest

def insert (bus : RingBus) (env : RingEnvelope) : RingBus :=
  { bus with buf := evict bus.maxEnvelopes bus.dhCursor bus.jrCursor (bus.buf ++ [env]) }

def read (heap : ListHeap) (bus : RingBus) : EventBus :=
  { buf := bus.buf.map (RingEnvelope.read heap), maxEnvelopes := bus.maxEnvelopes
    jrCursor := bus.jrCursor, dhCursor := bus.dhCursor }

theorem map_evict (heap : ListHeap) (maxEnvelopes dhCursor jrCursor : Int)
    (buf : List RingEnvelope) :
    (evict maxEnvelopes dhCursor jrCursor buf).map (RingEnvelope.read heap) =
      EventBus.evict maxEnvelopes dhCursor jrCursor (buf.map (RingEnvelope.read heap)) := by
  induction buf with
  | nil => rfl
  | cons head rest ih =>
      unfold evict EventBus.evict
      simp only [List.map_cons, List.length_cons, List.length_map, RingEnvelope.read]
      split
      · split
        · exact ih
        · rfl
      · rfl

-- Seen through the heap, this is the bus whose envelopes hold their rows.
theorem read_insert (heap : ListHeap) (bus : RingBus) (env : RingEnvelope) :
    (bus.insert env).read heap = (bus.read heap).insert (env.read heap) := by
  unfold insert read EventBus.insert
  simp only [map_evict, List.map_append, List.map_cons, List.map_nil]

theorem mem_evict {maxEnvelopes dhCursor jrCursor : Int} {buf : List RingEnvelope}
    {env : RingEnvelope} (member : env ∈ evict maxEnvelopes dhCursor jrCursor buf) : env ∈ buf := by
  induction buf with
  | nil => exact member
  | cons head rest ih =>
      unfold evict at member
      split_ifs at member
      · exact List.mem_cons_of_mem _ (ih member)
      · exact member
      · exact member

end RingBus

/-- Where a producer's thread is in `_flush_if_needed`. With the list object that is published stands
what it held when `publish` was called. -/
inductive FlushPc where
  | idle
  | publishing (rows : ListRef) (atCall : List Tick) (now : Rat)
  | persisted (env : RingEnvelope) (now : Rat)
  | clearing (now : Rat)

inductive Feed where
  | binance
  | tradingview (quotes : TvQuotes)

def Feed.isBinance : Feed → Bool
  | .binance => true
  | .tradingview _ => false

structure WsProducer where
  feed : Feed
  batchSize : Int
  flushIntervalS : Rat
  lastFlush : Rat
  pc : FlushPc := .idle

/-- Producers that share a bus and its store, and the rows of each batch that was stored, by its
`batch_id`. -/
structure WsSystem where
  heap : ListHeap
  copies : Nat
  eventStore : DuckDbEventStore
  bus : RingBus
  producers : Nat → WsProducer
  published : List (Int × List Tick)

namespace WsSystem

def start (eventStore : DuckDbEventStore) (maxEnvelopes : Int) (producers : Nat → WsProducer) :
    WsSystem :=
  { heap := fun _ => [], copies := 0, eventStore
    bus :=
      { buf := [], maxEnvelopes, jrCursor := eventStore.lastCommitted
        dhCursor := eventStore.lastCommitted }
    producers := fun i => { producers i with pc := .idle }
    published := [] }

def setProducer (s : WsSystem) (i : Nat) (producer : WsProducer) : WsSystem :=
  { s with producers := Function.update s.producers i producer }

def setPc (s : WsSystem) (i : Nat) (pc : FlushPc) : WsSystem :=
  s.setProducer i { s.producers i with pc }

def write (s : WsSystem) (ref : ListRef) (rows : List Tick) : WsSystem :=
  { s with heap := Function.update s.heap ref rows }

@[simp]
theorem write_same (s : WsSystem) (ref : ListRef) (rows : List Tick) :
    (s.write ref rows).heap ref = rows := Function.update_self ..

theorem write_other (s : WsSystem) {ref other : ListRef} (different : other ≠ ref)
    (rows : List Tick) : (s.write ref rows).heap other = s.heap other := by
  simp [write, different]

-- The argument of `publish`: `list(self._batch)`, or the batch itself.
def publishing (s : WsSystem) (i : Nat) (now : Rat) : WsSystem :=
  let batch := s.heap (.batch i)
  match (s.producers i).feed with
  | .binance =>
      let copied := { s.write (.copy s.copies) batch with copies := s.copies + 1 }
      copied.setPc i (.publishing (.copy s.copies) batch now)
  | .tradingview _ => s.setPc i (.publishing (.batch i) batch now)

def flushIfNeeded (s : WsSystem) (i : Nat) (force : Bool) (now : Rat) : WsSystem :=
  let producer := s.producers i
  let batch := s.heap (.batch i)
  if batch.isEmpty then s
  else if force = true ∨ producer.batchSize ≤ batch.length ∨
      producer.flushIntervalS ≤ now - producer.lastFlush then s.publishing i now
  else s

def accept (s : WsSystem) (i : Nat) (tick : Tick) (now : Rat) : WsSystem :=
  (s.write (.batch i) (s.heap (.batch i) ++ [tick])).flushIfNeeded i false now

def binanceTick (message : Value) : Option Tick :=
  match message with
  | .dict m => match (m.lookup "data").getD (.dict m) with
      | .dict d => tradeJsonToTick d
      | _ => none
  | _ => none

inductive Action where
  | binanceMessage (i : Nat) (message : Value) (now : Rat)
  -- One update of a `qsd` message.
  | qsdUpdate (i : Nat) (it : Value) (arrivalNs : Int) (now : Rat)
  -- The `finally` of `_run`.
  | forceFlush (i : Nat) (now : Rat)
  -- `event_store.append` stores the envelope or raises.
  | append (i : Nat) (producedNs : Int) (stored : Bool)
  | insert (i : Nat)
  -- The `finally` of `_flush_if_needed`.
  | clear (i : Nat)
  | ackDh (lastBatchId : Int)
  | ackJournal (lastBatchId : Int)
  | setDhCursor (batchId : Int)
  | markCommitted (batchId now : Int) (fault : Option MarkFault)

def appendRows (s : WsSystem) (i : Nat) (rows : ListRef) (atCall : List Tick) (now : Rat)
    (producedNs : Int) : Option WsSystem :=
  (s.eventStore.append ⟨-1, producedNs, none, none, s.heap rows⟩).map fun (batchId, eventStore) =>
    let stored := { s with eventStore, published := s.published ++ [(batchId, atCall)] }
    stored.setPc i (.persisted ⟨batchId, producedNs, none, none, rows⟩ now)

def clear (s : WsSystem) (i : Nat) (now : Rat) : WsSystem :=
  (s.write (.batch i) []).setProducer i { s.producers i with lastFlush := now, pc := .idle }

def step [Uppercase] (py : Python) (s : WsSystem) : Action → Option WsSystem
  | .binanceMessage i message now => match (s.producers i).pc, (s.producers i).feed with
      | .idle, .binance => match binanceTick message with
          | none => some s
          | some tick => some (s.accept i tick now)
      | _, _ => none
  | .qsdUpdate i it arrivalNs now => match (s.producers i).pc, (s.producers i).feed with
      | .idle, .tradingview quotes => match quotes.handleItem py it arrivalNs with
          | none => some s
          | some (tick, quotes) =>
              let updated := s.setProducer i { s.producers i with feed := .tradingview quotes }
              match tick with
              | none => some updated
              | some tick => some (updated.accept i tick now)
      | _, _ => none
  | .forceFlush i now => match (s.producers i).pc with
      | .idle => some (s.flushIfNeeded i true now)
      | _ => none
  | .append i producedNs stored => match (s.producers i).pc with
      | .publishing rows atCall now =>
          if stored then s.appendRows i rows atCall now producedNs
          else some (s.setPc i (.clearing now))
      | _ => none
  | .insert i => match (s.producers i).pc with
      | .persisted env now => some ({ s with bus := s.bus.insert env }.setPc i (.clearing now))
      | _ => none
  | .clear i => match (s.producers i).pc with
      | .clearing now => some (s.clear i now)
      | _ => none
  | .ackDh lastBatchId => some { s with bus := { s.bus with dhCursor := max s.bus.dhCursor lastBatchId } }
  | .ackJournal lastBatchId =>
      some { s with bus := { s.bus with jrCursor := max s.bus.jrCursor lastBatchId } }
  | .setDhCursor batchId => some { s with bus := { s.bus with dhCursor := batchId } }
  | .markCommitted batchId now fault =>
      some { s with eventStore := (s.eventStore.markCommitted batchId now fault).2 }

def drainForDh (s : WsSystem) (maxN : Nat) : List Envelope :=
  (s.bus.read s.heap).drainForDh s.eventStore maxN

end WsSystem

end DeepFeeder
