import DeepFeeder.Runtime.PipelineLog

set_option autoImplicit false

namespace DeepFeeder.PruneSafety

open Transition Pipeline EventBus DuckDbEventStore

-- Every row that is gone after the step is behind the DH cursor or still in the ring.
def DeletesSafely (s s' : Pipeline) : Prop :=
  ∀ id ∈ s.eventStore.stored, id ∉ s'.eventStore.stored →
    id ≤ s'.bus.dhCursor ∨ id ∈ s'.bus.held

def deletes (s : Pipeline) : Action → List Int
  | .jrMark now fault => match s.jr.pc with
      | .marking env _ _ _ => s.eventStore.doomed env.batchId now fault
      | _ => []
  | _ => []

-- Rows that the ring cannot replace, those of an earlier process and those between the two halves of
-- publish, are deleted only behind the DH cursor.
def PruneWaits (eventStore : DuckDbEventStore) (s : Pipeline) (a : Action) : Prop :=
  ∀ id ∈ deletes s a, id ∈ eventStore.stored ∨ id ∈ ids s.inFlight → id ≤ s.bus.dhCursor

instance (eventStore : DuckDbEventStore) (s : Pipeline) (a : Action) :
    Decidable (PruneWaits eventStore s a) :=
  inferInstanceAs (Decidable (∀ id ∈ deletes s a,
    id ∈ eventStore.stored ∨ id ∈ ids s.inFlight → id ≤ s.bus.dhCursor))

structure Tracked (eventStore : DuckDbEventStore) (s : Pipeline) : Prop where
  place : ∀ id ∈ s.log,
    id ∈ eventStore.stored ∨ id ∈ ids s.inFlight ∨ id ∈ s.bus.held ∨ id ≤ s.bus.dhCursor
  apart : ∀ id ∈ ids s.inFlight, id ∉ s.bus.held
  flightNew : ∀ id ∈ ids s.inFlight, eventStore.con.eventStoreSeq ≤ id
  ringNew : ∀ id ∈ s.bus.held, eventStore.con.eventStoreSeq ≤ id
  sequence : eventStore.con.eventStoreSeq ≤ s.eventStore.con.eventStoreSeq

variable {eventStore : DuckDbEventStore} {s s' : Pipeline}

theorem persist_tracked (logged : s.Logged) (tracked : Tracked eventStore s) {rows : List Tick}
    {producedNs : Int} {env : Envelope} {after : DuckDbEventStore}
    (persisted : EventBus.persist s.eventStore rows producedNs = some (env, after)) :
    Tracked eventStore { s with
      eventStore := after, inFlight := s.inFlight ++ [env], log := s.log ++ [env.batchId] } := by
  have flying : ids (s.inFlight ++ [env]) = ids s.inFlight ++ [s.eventStore.con.eventStoreSeq] := by
    rw [← persist_batchId persisted]
    simp [ids]
  refine ⟨?_, ?_, ?_, tracked.ringNew, ?_⟩
  · intro id member
    rw [flying]
    rw [persist_batchId persisted] at member
    rcases List.mem_append.mp member with old | new
    · rcases tracked.place id old with stored | flight | later
      · exact .inl stored
      · exact .inr (.inl (List.mem_append_left _ flight))
      · exact .inr (.inr later)
    · exact .inr (.inl (List.mem_append_right _ new))
  · intro id member held
    rw [flying] at member
    rcases List.mem_append.mp member with old | new
    · exact tracked.apart id old held
    · rw [List.mem_singleton] at new
      have less := logged.newest id (logged.held id held)
      exact absurd new (ne_of_lt less)
  · intro id member
    rw [flying] at member
    rcases List.mem_append.mp member with old | new
    · exact tracked.flightNew id old
    · rw [List.mem_singleton.mp new]
      exact tracked.sequence
  · rw [persist_seq persisted]
    exact le_trans tracked.sequence (le_of_lt (Int.lt_succ _))

theorem insert_tracked (tracked : Tracked eventStore s) {env : Envelope}
    (flying : env ∈ s.inFlight) :
    Tracked eventStore { s with
      bus := s.bus.insert env
      inFlight := s.inFlight.filter fun e => e.batchId ≠ env.batchId } := by
  have held_cases {id : Int} (member : id ∈ (s.bus.insert env).held) :
      id ∈ s.bus.held ∨ id = env.batchId := by
    rcases List.mem_append.mp ((held_insert_suffix s.bus env).subset member) with old | new
    · exact .inl old
    · exact .inr (List.mem_singleton.mp new)
  have flight_cases {id : Int}
      (member : id ∈ ids (s.inFlight.filter fun e => e.batchId ≠ env.batchId)) :
      id ∈ ids s.inFlight ∧ id ≠ env.batchId := by
    obtain ⟨e, kept, rfl⟩ := List.mem_map.mp member
    obtain ⟨inside, other⟩ := List.mem_filter.mp kept
    exact ⟨List.mem_map_of_mem inside, by simpa using other⟩
  -- What the ring holds after the append stays in it or is behind both cursors.
  have kept {e : Envelope} (member : e ∈ s.bus.buf ++ [env]) :
      e.batchId ∈ (s.bus.insert env).held ∨ e.batchId ≤ s.bus.dhCursor := by
    rcases mem_evict_or_passed s.bus.maxEnvelopes s.bus.dhCursor s.bus.jrCursor _ member with
      stays | ⟨passed, _⟩
    · exact .inl (List.mem_map_of_mem stays)
    · exact .inr passed
  refine ⟨?_, ?_, ?_, ?_, tracked.sequence⟩
  · intro id member
    rcases tracked.place id member with stored | flight | held | passed
    · exact .inl stored
    · by_cases same : id = env.batchId
      · subst same
        exact .inr (.inr (kept (by simp)))
      · obtain ⟨e, inside, rfl⟩ := List.mem_map.mp flight
        refine .inr (.inl (List.mem_map_of_mem ?_))
        exact List.mem_filter.mpr ⟨inside, by simpa using same⟩
    · obtain ⟨e, inside, rfl⟩ := List.mem_map.mp held
      exact .inr (.inr (kept (List.mem_append_left _ inside)))
    · exact .inr (.inr (.inr passed))
  · intro id flight held
    obtain ⟨inside, other⟩ := flight_cases flight
    rcases held_cases held with old | same
    · exact tracked.apart id inside old
    · exact other same
  · intro id flight
    exact tracked.flightNew id (flight_cases flight).1
  · intro id held
    rcases held_cases held with old | same
    · exact tracked.ringNew id old
    · rw [same]
      exact tracked.flightNew _ (List.mem_map_of_mem flying)

theorem step_tracked {a : Action} (logged : s.Logged) (tracked : Tracked eventStore s)
    (taken : step s a = some s') : Tracked eventStore s' := by
  obtain ⟨place, apart, flightNew, ringNew, sequence⟩ := tracked
  cases a with
  | persist rows producedNs =>
      obtain ⟨_, _, persisted, rfl⟩ := persist_cases taken
      exact persist_tracked logged ⟨place, apart, flightNew, ringNew, sequence⟩ persisted
  | insert batchId =>
      obtain ⟨env, flying, rfl, rfl⟩ := insert_cases taken
      exact insert_tracked ⟨place, apart, flightNew, ringNew, sequence⟩ flying
  | dhDrain =>
      obtain ⟨_, rfl | rfl⟩ := dhDrain_cases taken <;>
        exact ⟨place, apart, flightNew, ringNew, sequence⟩
  | dhWrite ok =>
      obtain ⟨_, _, _, _, ⟨_, rfl⟩ | ⟨_, rfl⟩⟩ := dhWrite_cases taken <;>
        exact ⟨place, apart, flightNew, ringNew, sequence⟩
  | dhAck =>
      obtain ⟨_, _, rfl⟩ := dhAck_cases taken
      by_cases written : 0 ≤ s.dh.last
      · simp only [if_pos written]
        refine ⟨?_, apart, flightNew, ringNew, sequence⟩
        intro id member
        rcases place id member with stored | flight | held | passed
        · exact .inl stored
        · exact .inr (.inl flight)
        · exact .inr (.inr (.inl held))
        · exact .inr (.inr (.inr (le_trans passed (le_max_left _ _))))
      · simp only [if_neg written]
        exact ⟨place, apart, flightNew, ringNew, sequence⟩
  | jrPoll =>
      obtain ⟨_, ⟨_, rfl⟩ | rfl⟩ := jrPoll_cases taken <;>
        exact ⟨place, apart, flightNew, ringNew, sequence⟩
  | jrDrain =>
      obtain ⟨_, rfl | rfl⟩ := jrDrain_cases taken <;>
        exact ⟨place, apart, flightNew, ringNew, sequence⟩
  | jrAppend ok =>
      obtain ⟨_, _, _, _, _, ⟨_, rfl⟩ | ⟨_, rfl⟩⟩ := jrAppend_cases taken <;>
        exact ⟨place, apart, flightNew, ringNew, sequence⟩
  | jrMark now fault =>
      obtain ⟨env, _, _, _, _, ⟨_, rfl⟩ | ⟨_, rfl⟩⟩ := jrMark_cases taken <;>
        exact ⟨place, apart, flightNew, ringNew,
          le_of_le_of_eq sequence (markCommitted_seq _ _ _ _).symm⟩
  | jrAck =>
      obtain ⟨_, lastBid, _, rfl⟩ := jrAck_cases taken
      cases lastBid <;> exact ⟨place, apart, flightNew, ringNew, sequence⟩

theorem step_stored {a : Action} (taken : step s a = some s') {id : Int}
    (stored : id ∈ s.eventStore.stored) : id ∉ s'.eventStore.stored ↔ id ∈ deletes s a := by
  have unchanged : id ∉ s.eventStore.stored ↔ id ∈ ([] : List Int) := by simp [stored]
  cases a with
  | persist rows producedNs =>
      obtain ⟨_, _, persisted, rfl⟩ := persist_cases taken
      simp [persist_stored persisted, stored, deletes]
  | insert batchId =>
      obtain ⟨_, _, _, rfl⟩ := insert_cases taken
      exact unchanged
  | dhDrain =>
      obtain ⟨_, rfl | rfl⟩ := dhDrain_cases taken <;> exact unchanged
  | dhWrite ok =>
      obtain ⟨_, _, _, _, ⟨_, rfl⟩ | ⟨_, rfl⟩⟩ := dhWrite_cases taken <;> exact unchanged
  | dhAck =>
      obtain ⟨_, _, rfl⟩ := dhAck_cases taken
      exact unchanged
  | jrPoll =>
      obtain ⟨_, ⟨_, rfl⟩ | rfl⟩ := jrPoll_cases taken <;> exact unchanged
  | jrDrain =>
      obtain ⟨_, rfl | rfl⟩ := jrDrain_cases taken <;> exact unchanged
  | jrAppend ok =>
      obtain ⟨_, _, _, _, _, ⟨_, rfl⟩ | ⟨_, rfl⟩⟩ := jrAppend_cases taken <;> exact unchanged
  | jrMark now fault =>
      obtain ⟨env, rest, skipped, lastBid, marking, outcome⟩ := jrMark_cases taken
      have same : deletes s (.jrMark now fault) = s.eventStore.doomed env.batchId now fault := by
        simp [deletes, marking]
      have survives := s.eventStore.markCommitted_stored env.batchId now fault id
      rw [same]
      rcases outcome with ⟨_, rfl⟩ | ⟨_, rfl⟩
      · simp [survives, stored]
      · simp [survives, stored]
  | jrAck =>
      obtain ⟨_, _, _, rfl⟩ := jrAck_cases taken
      exact unchanged

theorem step_bus {a : Action} (taken : step s a = some s') (some : deletes s a ≠ []) :
    s'.bus = s.bus := by
  cases a with
  | jrMark now fault =>
      obtain ⟨_, _, _, _, _, ⟨_, rfl⟩ | ⟨_, rfl⟩⟩ := jrMark_cases taken <;> rfl
  | persist | insert | dhDrain | dhWrite | dhAck | jrPoll | jrDrain | jrAppend | jrAck =>
      exact absurd rfl some

theorem deletes_stored (s : Pipeline) (a : Action) : ∀ id ∈ deletes s a, id ∈ s.eventStore.stored := by
  intro id member
  unfold deletes at member
  split at member
  · split at member
    · exact mem_stored_of_doomed member
    · cases member
  · cases member

theorem reaches_tracked {allowed : Pipeline → Action → Prop} {maxEnvelopes dhStart : Int}
    (reached : Reaches step allowed (.start eventStore maxEnvelopes dhStart) s) :
    s.Logged ∧ Tracked eventStore s := by
  apply reached.invariant fun s => s.Logged ∧ Tracked eventStore s
  · refine ⟨start_logged eventStore maxEnvelopes dhStart, ?_, ?_, ?_, ?_, le_refl _⟩
    · exact fun id member => .inl member
    · exact fun id member => by cases member
    · exact fun id member => by cases member
    · exact fun id member => by cases member
  · intro s a s' ⟨logged, tracked⟩ _ taken
    exact ⟨step_logged logged taken, step_tracked logged tracked taken⟩

theorem deletes_safely_iff {maxEnvelopes dhStart : Int} {a : Action}
    (reached : Reaches step anyStep (.start eventStore maxEnvelopes dhStart) s)
    (taken : step s a = some s') : DeletesSafely s s' ↔ PruneWaits eventStore s a := by
  obtain ⟨logged, tracked⟩ := reaches_tracked reached
  constructor
  · intro safe id gone source
    have stored := deletes_stored s a id gone
    have bus := step_bus taken (List.ne_nil_of_mem gone)
    rcases safe id stored ((step_stored taken stored).mpr gone) with passed | held
    · rwa [bus] at passed
    · rw [bus] at held
      rcases source with backlog | flight
      · have old := eventStore.con.fresh id backlog
        have new := tracked.ringNew id held
        omega
      · exact absurd held (tracked.apart id flight)
  · intro waits id stored gone
    have doomed := (step_stored taken stored).mp gone
    rw [step_bus taken (List.ne_nil_of_mem doomed)]
    rcases tracked.place id (logged.stored id stored) with backlog | flight | held | passed
    · exact .inl (waits id doomed (.inl backlog))
    · exact .inl (waits id doomed (.inr flight))
    · exact .inr held
    · exact .inl passed

theorem deletes_safely_consumed :
    ∃ s s', Reaches step anyStep (.start (connect .new { pruneSafetyBatches := 1 }) 100000 0) s ∧
      step s (.jrMark (600 * 1000000000) none) = some s' ∧ s.eventStore.stored = [1, 2] ∧
      s'.eventStore.stored = [2] ∧ DeletesSafely s s' := by
  obtain ⟨s, s', reached, taken, last⟩ := reaches_step_of_check step
    (.start (connect .new { pruneSafetyBatches := 1 }) 100000 0)
    [.persist [] 0, .insert 1, .persist [] 1, .insert 2, .jrPoll, .jrAppend true, .jrMark 0 none,
      .jrAppend true]
    (.jrMark (600 * 1000000000) none)
    (fun s s' => s.eventStore.stored = [1, 2] ∧ s'.eventStore.stored = [2] ∧
      PruneWaits (connect .new { pruneSafetyBatches := 1 }) s (.jrMark (600 * 1000000000) none))
    (by decide +kernel)
  obtain ⟨before, after, waits⟩ := of_decide_eq_true last
  exact ⟨s, s', reached, taken, before, after, (deletes_safely_iff reached taken).mpr waits⟩

def backlog : DuckDbEventStore :=
  connect ((List.range 102).foldl (fun db _ => db.insert ⟨1, 0, -1, -1, 0, []⟩) .new) {}

def commitBacklog (now : Int) : List Action :=
  .jrPoll :: ((List.range 101).flatMap fun _ => [.jrAppend true, .jrMark now none]) ++
    [.jrAppend true]

theorem prune_overtakes_dh :
    ∃ s s', Reaches step anyStep (.start backlog 100000 0) s ∧
      step s (.jrMark ((1700000000 + 600) * 1000000000) none) = some s' ∧
      1 ∈ s.eventStore.stored ∧ 1 ∉ s'.eventStore.stored ∧ s'.bus.dhCursor = 0 ∧
      s'.bus.held = [] ∧ ¬ DeletesSafely s s' := by
  obtain ⟨s, s', reached, taken, last⟩ := reaches_step_of_check step (.start backlog 100000 0)
    (commitBacklog (1700000000 * 1000000000)) (.jrMark ((1700000000 + 600) * 1000000000) none)
    (fun s s' => 1 ∈ s.eventStore.stored ∧ 1 ∉ s'.eventStore.stored ∧ s'.bus.dhCursor = 0 ∧
      s'.bus.held = []) (by decide +kernel)
  obtain ⟨before, after, cursor, ring⟩ := of_decide_eq_true last
  refine ⟨s, s', reached, taken, before, after, cursor, ring, ?_⟩
  intro safe
  rcases safe 1 before after with passed | held
  · rw [cursor] at passed
    exact absurd passed (by decide)
  · rw [ring] at held
    cases held

end DeepFeeder.PruneSafety
