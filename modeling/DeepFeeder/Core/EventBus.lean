import DeepFeeder.Storage.EventStore

set_option autoImplicit false

namespace DeepFeeder

structure EventBus where
  buf : List Envelope
  maxEnvelopes : Int
  jrCursor : Int
  dhCursor : Int

namespace EventBus

def init (eventStore : DuckDbEventStore) (maxEnvelopes : Int) : EventBus :=
  { buf := []
    maxEnvelopes
    jrCursor := eventStore.lastCommitted
    dhCursor := eventStore.lastCommitted }

def setDhCursor (bus : EventBus) (batchId : Int) : EventBus := { bus with dhCursor := batchId }

-- The ring gives up its head only when it is too long and both drains have passed the head.
def evict (maxEnvelopes dhCursor jrCursor : Int) : List Envelope → List Envelope
  | [] => []
  | head :: rest =>
      if maxEnvelopes < ((head :: rest).length : Int) then
        if head.batchId ≤ dhCursor ∧ head.batchId ≤ jrCursor then
          evict maxEnvelopes dhCursor jrCursor rest
        else head :: rest
      else head :: rest

-- publish is two critical sections: this one under the store's lock, `insert` under the bus lock.
def persist (eventStore : DuckDbEventStore) (rows : List Tick) (producedNs : Int) :
    Option (Envelope × DuckDbEventStore) :=
  let env : Envelope := ⟨-1, producedNs, none, none, rows⟩
  (eventStore.append env).map fun (batchId, eventStore) => ({ env with batchId }, eventStore)

def insert (bus : EventBus) (env : Envelope) : EventBus :=
  { bus with buf := evict bus.maxEnvelopes bus.dhCursor bus.jrCursor (bus.buf ++ [env]) }

-- One pass of the loop in `_drain`. The bus lock is held across it, so the ring cannot change between
-- the two reads and the pass takes effect when the store is read.
def drain (bus : EventBus) (eventStore : DuckDbEventStore) (lastId : Int) (maxN : Nat) :
    List Envelope :=
  match (bus.buf.filter fun e => lastId < e.batchId).take maxN with
  | [] => eventStore.nextFrom (lastId + 1) maxN
  | out => out

def drainForDh (bus : EventBus) (eventStore : DuckDbEventStore) (maxN : Nat) : List Envelope :=
  bus.drain eventStore bus.dhCursor maxN

def drainForJournal (bus : EventBus) (eventStore : DuckDbEventStore) (maxN : Nat) : List Envelope :=
  bus.drain eventStore bus.jrCursor maxN

def ackDh (bus : EventBus) (lastBatchId : Int) : EventBus :=
  { bus with dhCursor := max bus.dhCursor lastBatchId }

def ackJournal (bus : EventBus) (lastBatchId : Int) : EventBus :=
  { bus with jrCursor := max bus.jrCursor lastBatchId }

theorem persist_append {eventStore after : DuckDbEventStore} {rows : List Tick} {producedNs : Int}
    {env : Envelope} (persisted : persist eventStore rows producedNs = some (env, after)) :
    eventStore.append ⟨-1, producedNs, none, none, rows⟩ = some (env.batchId, after) := by
  obtain ⟨⟨batchId, store⟩, appended, pair⟩ := Option.map_eq_some_iff.mp persisted
  cases pair
  exact appended

section Persist

variable {eventStore after : DuckDbEventStore} {rows : List Tick} {producedNs : Int} {env : Envelope}
  (persisted : persist eventStore rows producedNs = some (env, after))

include persisted

theorem persist_batchId : env.batchId = eventStore.con.eventStoreSeq :=
  DuckDbEventStore.append_id (persist_append persisted)

theorem persist_seq : after.con.eventStoreSeq = eventStore.con.eventStoreSeq + 1 :=
  DuckDbEventStore.append_seq (persist_append persisted)

theorem persist_stored : after.stored = eventStore.stored ++ [eventStore.con.eventStoreSeq] :=
  DuckDbEventStore.stored_append (persist_append persisted)

theorem persist_lastCommitted : after.lastCommitted = eventStore.lastCommitted :=
  DuckDbEventStore.append_lastCommitted (persist_append persisted)

theorem persist_retention : after.retention = eventStore.retention := by
  obtain ⟨_, row, _, rfl⟩ := DuckDbEventStore.append_eq (persist_append persisted)
  rfl

end Persist

theorem evict_suffix (maxEnvelopes dhCursor jrCursor : Int) (buf : List Envelope) :
    evict maxEnvelopes dhCursor jrCursor buf <:+ buf := by
  induction buf with
  | nil => simp [evict]
  | cons head rest ih =>
      unfold evict
      split_ifs
      · exact ih.trans (List.suffix_cons head rest)
      · exact List.suffix_rfl
      · exact List.suffix_rfl

theorem mem_evict_or_passed (maxEnvelopes dhCursor jrCursor : Int) (buf : List Envelope)
    {env : Envelope} (member : env ∈ buf) :
    env ∈ evict maxEnvelopes dhCursor jrCursor buf ∨
      env.batchId ≤ dhCursor ∧ env.batchId ≤ jrCursor := by
  induction buf with
  | nil => cases member
  | cons head rest ih =>
      unfold evict
      split_ifs with long passed
      · rcases List.mem_cons.mp member with rfl | later
        · exact .inr passed
        · exact ih later
      · exact .inl member
      · exact .inl member

def held (bus : EventBus) : List Int := ids bus.buf

theorem held_insert_suffix (bus : EventBus) (env : Envelope) :
    (bus.insert env).held <:+ bus.held ++ [env.batchId] := by
  have kept := evict_suffix bus.maxEnvelopes bus.dhCursor bus.jrCursor (bus.buf ++ [env])
  have mapped := kept.map Envelope.batchId
  rw [List.map_append] at mapped
  exact mapped

theorem ids_drain (bus : EventBus) (eventStore : DuckDbEventStore) (lastId : Int) (maxN : Nat)
    (positive : 0 < maxN) :
    ids (bus.drain eventStore lastId maxN) =
      if ∀ id ∈ bus.held, id ≤ lastId then (eventStore.stored.filter fun id => lastId < id).take maxN
      else (bus.held.filter fun id => lastId < id).take maxN := by
  have above : ids (bus.buf.filter fun e => lastId < e.batchId) =
      bus.held.filter fun id => lastId < id := by
    simp only [ids, held, List.filter_map]
    rfl
  unfold drain
  split
  next none =>
    have empty : bus.buf.filter (fun e => lastId < e.batchId) = [] := by
      rcases List.take_eq_nil_iff.mp none with zero | empty
      · omega
      · exact empty
    rw [if_pos, eventStore.ids_nextFrom_succ]
    · rw [empty] at above
      simpa [ids, List.filter_eq_nil_iff] using above.symm
  next some =>
    rw [if_neg]
    · rw [← above, ids, ids, List.map_take]
    · intro below
      apply some
      have empty : bus.held.filter (fun id => lastId < id) = [] := by
        simpa [List.filter_eq_nil_iff] using below
      rw [← above, ids, List.map_eq_nil_iff] at empty
      rw [empty, List.take_nil]

end EventBus

end DeepFeeder
