import DeepFeeder.Shared.OrderedLog
import DeepFeeder.Runtime.Consumers

set_option autoImplicit false

namespace DeepFeeder.Pipeline

open Transition EventBus DuckDbEventStore OrderedLog

structure Logged (s : Pipeline) : Prop where
  positive : ∀ id ∈ s.log, 1 ≤ id
  newest : ∀ id ∈ s.log, id < s.eventStore.con.eventStoreSeq
  stored : ∀ id ∈ s.eventStore.stored, id ∈ s.log
  held : ∀ id ∈ s.bus.held, id ∈ s.log
  inFlight : ∀ id ∈ ids s.inFlight, id ∈ s.log

variable {s s' : Pipeline}

theorem start_logged (eventStore : DuckDbEventStore) (maxEnvelopes dhStart : Int) :
    Logged (.start eventStore maxEnvelopes dhStart) where
  positive := eventStore.con.positive
  newest := eventStore.con.fresh
  stored _ member := member
  held _ member := by cases member
  inFlight _ member := by cases member

theorem persist_logged (logged : s.Logged) {rows : List Tick} {producedNs : Int} {env : Envelope}
    {eventStore : DuckDbEventStore}
    (persisted : EventBus.persist s.eventStore rows producedNs = some (env, eventStore)) :
    Logged { s with
      eventStore, inFlight := s.inFlight ++ [env], log := s.log ++ [env.batchId] } where
  positive := by
    intro id member
    rcases List.mem_append.mp member with old | new
    · exact logged.positive id old
    · rw [List.mem_singleton.mp new, persist_batchId persisted]
      exact s.eventStore.con.started
  newest := by
    intro id member
    rw [persist_seq persisted]
    rcases List.mem_append.mp member with old | new
    · have := logged.newest id old
      omega
    · rw [List.mem_singleton.mp new, persist_batchId persisted]
      omega
  stored := by
    intro id member
    rw [persist_stored persisted, ← persist_batchId persisted] at member
    exact List.mem_append.mpr ((List.mem_append.mp member).imp_left (logged.stored id))
  held id member := List.mem_append_left _ (logged.held id member)
  inFlight := by
    intro id member
    rw [ids, List.map_append] at member
    exact List.mem_append.mpr ((List.mem_append.mp member).imp_left (logged.inFlight id))

theorem insert_logged (logged : s.Logged) {env : Envelope} (flying : env ∈ s.inFlight) :
    Logged { s with
      bus := s.bus.insert env
      inFlight := s.inFlight.filter fun e => e.batchId ≠ env.batchId } where
  positive := logged.positive
  newest := logged.newest
  stored := logged.stored
  held := by
    intro id member
    rcases List.mem_append.mp ((held_insert_suffix s.bus env).subset member) with old | new
    · exact logged.held id old
    · rw [List.mem_singleton.mp new]
      exact logged.inFlight _ (List.mem_map_of_mem flying)
  inFlight := by
    intro id member
    obtain ⟨e, kept, rfl⟩ := List.mem_map.mp member
    exact logged.inFlight _ (List.mem_map_of_mem (List.mem_filter.mp kept).1)

theorem mark_logged (logged : s.Logged) (batchId now : Int) (fault : Option MarkFault) (jr : JrLoop) :
    Logged { s with eventStore := (s.eventStore.markCommitted batchId now fault).2, jr } where
  positive := logged.positive
  newest := by
    rw [markCommitted_seq]
    exact logged.newest
  stored id member :=
    logged.stored id ((s.eventStore.markCommitted_stored batchId now fault id).mp member).1
  held := logged.held
  inFlight := logged.inFlight

theorem step_logged {a : Action} (logged : s.Logged) (taken : step s a = some s') : s'.Logged := by
  cases a with
  | persist rows producedNs =>
      obtain ⟨_, _, persisted, rfl⟩ := persist_cases taken
      exact persist_logged logged persisted
  | insert batchId =>
      obtain ⟨env, flying, rfl, rfl⟩ := insert_cases taken
      exact insert_logged logged flying
  | dhDrain =>
      obtain ⟨_, rfl | rfl⟩ := dhDrain_cases taken
      · exact logged
      · exact ⟨logged.positive, logged.newest, logged.stored, logged.held, logged.inFlight⟩
  | dhWrite ok =>
      obtain ⟨_, _, _, _, ⟨_, rfl⟩ | ⟨_, rfl⟩⟩ := dhWrite_cases taken <;>
        exact ⟨logged.positive, logged.newest, logged.stored, logged.held, logged.inFlight⟩
  | dhAck =>
      obtain ⟨_, _, rfl⟩ := dhAck_cases taken
      refine ⟨logged.positive, logged.newest, logged.stored, ?_, logged.inFlight⟩
      by_cases written : 0 ≤ s.dh.last
      · simpa [written, ackDh, EventBus.held] using logged.held
      · simpa [written] using logged.held
  | jrPoll =>
      obtain ⟨_, ⟨_, rfl⟩ | rfl⟩ := jrPoll_cases taken <;>
        exact ⟨logged.positive, logged.newest, logged.stored, logged.held, logged.inFlight⟩
  | jrDrain =>
      obtain ⟨_, rfl | rfl⟩ := jrDrain_cases taken <;>
        exact ⟨logged.positive, logged.newest, logged.stored, logged.held, logged.inFlight⟩
  | jrAppend ok =>
      obtain ⟨_, _, _, _, _, ⟨_, rfl⟩ | ⟨_, rfl⟩⟩ := jrAppend_cases taken <;>
        exact ⟨logged.positive, logged.newest, logged.stored, logged.held, logged.inFlight⟩
  | jrMark now fault =>
      obtain ⟨env, _, _, _, _, ⟨_, rfl⟩ | ⟨_, rfl⟩⟩ := jrMark_cases taken
      · exact mark_logged logged env.batchId now fault _
      · exact mark_logged logged env.batchId now fault _
  | jrAck =>
      obtain ⟨_, lastBid, _, rfl⟩ := jrAck_cases taken
      refine ⟨logged.positive, logged.newest, logged.stored, ?_, logged.inFlight⟩
      cases lastBid with
      | none => exact logged.held
      | some batchId => exact logged.held

theorem step_log {a : Action} (taken : step s a = some s') :
    (s'.log = s.log ∧ s'.eventStore.con.eventStoreSeq = s.eventStore.con.eventStoreSeq) ∨
      ∃ rows producedNs env eventStore,
        EventBus.persist s.eventStore rows producedNs = some (env, eventStore) ∧
          s' = { s with
            eventStore, inFlight := s.inFlight ++ [env], log := s.log ++ [env.batchId] } := by
  cases a with
  | persist rows producedNs =>
      exact .inr ⟨rows, producedNs, persist_cases taken⟩
  | insert batchId =>
      obtain ⟨_, _, _, rfl⟩ := insert_cases taken
      exact .inl ⟨rfl, rfl⟩
  | dhDrain =>
      obtain ⟨_, rfl | rfl⟩ := dhDrain_cases taken <;> exact .inl ⟨rfl, rfl⟩
  | dhWrite ok =>
      obtain ⟨_, _, _, _, ⟨_, rfl⟩ | ⟨_, rfl⟩⟩ := dhWrite_cases taken <;> exact .inl ⟨rfl, rfl⟩
  | dhAck =>
      obtain ⟨_, _, rfl⟩ := dhAck_cases taken
      exact .inl ⟨rfl, rfl⟩
  | jrPoll =>
      obtain ⟨_, ⟨_, rfl⟩ | rfl⟩ := jrPoll_cases taken <;> exact .inl ⟨rfl, rfl⟩
  | jrDrain =>
      obtain ⟨_, rfl | rfl⟩ := jrDrain_cases taken <;> exact .inl ⟨rfl, rfl⟩
  | jrAppend ok =>
      obtain ⟨_, _, _, _, _, ⟨_, rfl⟩ | ⟨_, rfl⟩⟩ := jrAppend_cases taken <;> exact .inl ⟨rfl, rfl⟩
  | jrMark now fault =>
      obtain ⟨_, _, _, _, _, ⟨_, rfl⟩ | ⟨_, rfl⟩⟩ := jrMark_cases taken <;>
        exact .inl ⟨rfl, markCommitted_seq _ _ _ _⟩
  | jrAck =>
      obtain ⟨_, _, _, rfl⟩ := jrAck_cases taken
      exact .inl ⟨rfl, rfl⟩

theorem stored_or_new {allowed : Pipeline → Action → Prop} {eventStore : DuckDbEventStore}
    {maxEnvelopes dhStart : Int}
    (reached : Reaches step allowed (.start eventStore maxEnvelopes dhStart) s) :
    ∀ id ∈ s.log, id ∈ eventStore.stored ∨ eventStore.con.eventStoreSeq ≤ id := by
  have both : eventStore.con.eventStoreSeq ≤ s.eventStore.con.eventStoreSeq ∧
      ∀ id ∈ s.log, id ∈ eventStore.stored ∨ eventStore.con.eventStoreSeq ≤ id := by
    apply reached.invariant fun s =>
      eventStore.con.eventStoreSeq ≤ s.eventStore.con.eventStoreSeq ∧
        ∀ id ∈ s.log, id ∈ eventStore.stored ∨ eventStore.con.eventStoreSeq ≤ id
    · exact ⟨le_refl _, fun id member => .inl member⟩
    · intro s a s' ⟨sequence, added⟩ _ taken
      rcases step_log taken with ⟨log, seq⟩ | ⟨_, _, env, eventStore, persisted, rfl⟩
      · rw [log, seq]
        exact ⟨sequence, added⟩
      · refine ⟨?_, ?_⟩
        · rw [persist_seq persisted]
          exact le_trans sequence (le_of_lt (Int.lt_succ _))
        · intro id member
          rcases List.mem_append.mp member with old | new
          · exact added id old
          · rw [List.mem_singleton.mp new, persist_batchId persisted]
            exact .inr sequence
  exact both.2

-- What a drain from the cursor reads: the ring if it has anything newer, otherwise the store.
def source (s : Pipeline) (cursor : Int) : List Int :=
  if ∀ id ∈ s.bus.held, id ≤ cursor then s.eventStore.stored else s.bus.held

theorem Logged.source (logged : s.Logged) (cursor : Int) : ∀ id ∈ s.source cursor, id ∈ s.log := by
  intro id member
  unfold Pipeline.source at member
  split at member
  · exact logged.stored id member
  · exact logged.held id member

theorem ids_drain_source (s : Pipeline) (cursor : Int) {maxN : Nat} (positive : 0 < maxN) :
    ids (s.bus.drain s.eventStore cursor maxN) =
      ((s.source cursor).filter (cursor < ·)).take maxN := by
  rw [ids_drain _ _ _ _ positive]
  unfold source
  split
  · rfl
  · rfl

theorem drain_next (logged : s.Logged) {cursor : Int} {done : Int → Prop}
    (covers : Covers s.log cursor done (s.source cursor)) {maxN : Nat} (positive : 0 < maxN) :
    Next s.log cursor done (ids (s.bus.drain s.eventStore cursor maxN)) := by
  rw [ids_drain_source s cursor positive]
  exact covers.next (logged.source cursor) maxN

end DeepFeeder.Pipeline
