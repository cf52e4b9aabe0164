import Mathlib.Logic.Function.Basic
import DeepFeeder.Shared.Transition
import DeepFeeder.Core.EventBus

set_option autoImplicit false

namespace DeepFeeder

open Transition EventBus DuckDbEventStore

inductive DrainCall where
  | idle
  -- About to read under the lock, for the first time or again after a sleep.
  | looking (lastId : Int) (maxN : Nat)
  | waiting (lastId : Int) (maxN : Nat)
  | returned (envs : List Envelope)

def DrainCall.notified : DrainCall → DrainCall
  | .waiting lastId maxN => .looking lastId maxN
  | call => call

def DrainCall.sleep : DrainCall → Option (Int × Nat)
  | .waiting lastId maxN => some (lastId, maxN)
  | _ => none

/-- The bus with its condition variable: the store, the ring, the publish calls between their two
critical sections and the drain calls, one for each thread. -/
structure BusMonitor where
  eventStore : DuckDbEventStore
  bus : EventBus
  inFlight : List Envelope
  calls : Nat → DrainCall

namespace BusMonitor

-- The DH cursor is set once, before any thread runs.
def start (eventStore : DuckDbEventStore) (maxEnvelopes dhStart : Int) : BusMonitor :=
  { eventStore
    bus := (EventBus.init eventStore maxEnvelopes).setDhCursor dhStart
    inFlight := []
    calls := fun _ => .idle }

def notifyAll (m : BusMonitor) : BusMonitor :=
  { m with calls := fun thread => (m.calls thread).notified }

inductive Action where
  | persist (rows : List Tick) (producedNs : Int)
  | insert (batchId : Int)
  | ackDh (lastBatchId : Int)
  | ackJournal (lastBatchId : Int)
  | markCommitted (batchId now : Int) (fault : Option MarkFault)
  | drainForDh (thread maxN : Nat)
  | drainForJournal (thread maxN : Nat)
  -- One pass of the loop; `expired` is whether the deadline has passed when the pass finds nothing.
  | look (thread : Nat) (expired : Bool)
  -- The wait ends without a notification.
  | timeOut (thread : Nat)

def persist (m : BusMonitor) (rows : List Tick) (producedNs : Int) : Option BusMonitor :=
  (EventBus.persist m.eventStore rows producedNs).map fun (env, eventStore) =>
    { m with eventStore, inFlight := m.inFlight ++ [env] }

def insert (m : BusMonitor) (batchId : Int) : Option BusMonitor :=
  match m.inFlight.find? fun e => e.batchId = batchId with
  | some env =>
      some (notifyAll { m with
        bus := m.bus.insert env
        inFlight := m.inFlight.filter fun e => e.batchId ≠ batchId })
  | none => none

def setCall (m : BusMonitor) (thread : Nat) (call : DrainCall) : BusMonitor :=
  { m with calls := Function.update m.calls thread call }

def enter (m : BusMonitor) (thread : Nat) (lastId : Int) (maxN : Nat) : Option BusMonitor :=
  match m.calls thread with
  | .idle | .returned _ => some (m.setCall thread (.looking lastId maxN))
  | .looking _ _ | .waiting _ _ => none

def look (m : BusMonitor) (thread : Nat) (expired : Bool) : Option BusMonitor :=
  match m.calls thread with
  | .looking lastId maxN =>
      match m.bus.drain m.eventStore lastId maxN with
      | [] => some (m.setCall thread (if expired then .returned [] else .waiting lastId maxN))
      | out => some (m.setCall thread (.returned out))
  | .idle | .waiting _ _ | .returned _ => none

def timeOut (m : BusMonitor) (thread : Nat) : Option BusMonitor :=
  match m.calls thread with
  | .waiting lastId maxN => some (m.setCall thread (.looking lastId maxN))
  | .idle | .looking _ _ | .returned _ => none

def step (m : BusMonitor) : Action → Option BusMonitor
  | .persist rows producedNs => m.persist rows producedNs
  | .insert batchId => m.insert batchId
  | .ackDh lastBatchId => some (notifyAll { m with bus := m.bus.ackDh lastBatchId })
  | .ackJournal lastBatchId => some (notifyAll { m with bus := m.bus.ackJournal lastBatchId })
  | .markCommitted batchId now fault =>
      some { m with eventStore := (m.eventStore.markCommitted batchId now fault).2 }
  | .drainForDh thread maxN => m.enter thread m.bus.dhCursor maxN
  | .drainForJournal thread maxN => m.enter thread m.bus.jrCursor maxN
  | .look thread expired => m.look thread expired
  | .timeOut thread => m.timeOut thread

variable {m m' : BusMonitor} {a : Action} {thread other : Nat} {lastId : Int} {maxN : Nat}

@[simp] theorem setCall_self (call : DrainCall) : (m.setCall thread call).calls thread = call :=
  Function.update_self ..

theorem setCall_other (call : DrainCall) (different : other ≠ thread) :
    (m.setCall thread call).calls other = m.calls other :=
  Function.update_of_ne different ..

theorem sleep_eq_some {call : DrainCall} :
    call.sleep = some (lastId, maxN) ↔ call = .waiting lastId maxN := by
  cases call <;> simp [DrainCall.sleep]

theorem notified_ne_waiting (call : DrainCall) : call.notified ≠ .waiting lastId maxN := by
  cases call <;> simp [DrainCall.notified]

theorem persist_cases {rows : List Tick} {producedNs : Int}
    (taken : m.persist rows producedNs = some m') :
    ∃ env eventStore, EventBus.persist m.eventStore rows producedNs = some (env, eventStore) ∧
      m' = { m with eventStore, inFlight := m.inFlight ++ [env] } := by
  obtain ⟨⟨env, eventStore⟩, persisted, rfl⟩ := Option.map_eq_some_iff.mp taken
  exact ⟨env, eventStore, persisted, rfl⟩

theorem insert_cases {batchId : Int} (taken : m.insert batchId = some m') :
    ∃ env ∈ m.inFlight, env.batchId = batchId ∧
      m' = notifyAll { m with
        bus := m.bus.insert env
        inFlight := m.inFlight.filter fun e => e.batchId ≠ batchId } := by
  unfold insert at taken
  split at taken
  next env found =>
    have same := List.find?_some found
    cases taken
    exact ⟨env, List.mem_of_find?_eq_some found, by simpa using same, rfl⟩
  next => cases taken

theorem enter_cases (taken : m.enter thread lastId maxN = some m') :
    m' = m.setCall thread (.looking lastId maxN) := by
  unfold enter at taken
  split at taken <;> cases taken <;> rfl

theorem look_cases {expired : Bool} (taken : m.look thread expired = some m') :
    ∃ lastId maxN, m.calls thread = .looking lastId maxN ∧
      (m.bus.drain m.eventStore lastId maxN = [] ∧
          m' = m.setCall thread (if expired then .returned [] else .waiting lastId maxN) ∨
        m.bus.drain m.eventStore lastId maxN ≠ [] ∧
          m' = m.setCall thread (.returned (m.bus.drain m.eventStore lastId maxN))) := by
  unfold look at taken
  split at taken
  next lastId maxN looking =>
    refine ⟨lastId, maxN, looking, ?_⟩
    split at taken
    next none =>
      cases taken
      exact .inl ⟨none, rfl⟩
    next some =>
      cases taken
      exact .inr ⟨some, rfl⟩
  all_goals cases taken

theorem timeOut_cases (taken : m.timeOut thread = some m') :
    ∃ lastId maxN, m.calls thread = .waiting lastId maxN ∧
      m' = m.setCall thread (.looking lastId maxN) := by
  unfold timeOut at taken
  split at taken
  next lastId maxN waiting =>
    cases taken
    exact ⟨lastId, maxN, waiting, rfl⟩
  all_goals cases taken

structure NothingMissed (m : BusMonitor) (lastId : Int) : Prop where
  held : ∀ id ∈ m.bus.held, id ≤ lastId
  stored : ∀ id ∈ m.eventStore.stored, lastId < id → id ∈ ids m.inFlight

def SleepersMissNothing (m : BusMonitor) : Prop :=
  ∀ thread lastId maxN, m.calls thread = .waiting lastId maxN → 0 < maxN → NothingMissed m lastId

theorem notifyAll_missNothing (m : BusMonitor) : SleepersMissNothing (notifyAll m) := by
  intro thread lastId maxN waiting
  exact absurd waiting (notified_ne_waiting _)

theorem nothingMissed_of_drain (positive : 0 < maxN)
    (none : m.bus.drain m.eventStore lastId maxN = []) : NothingMissed m lastId := by
  have drained := m.bus.ids_drain m.eventStore lastId maxN positive
  rw [none, eq_comm, ids, List.map_nil] at drained
  have empty {rows : List Int} (taken : (rows.filter fun id => lastId < id).take maxN = []) :
      ∀ id ∈ rows, id ≤ lastId := by
    rcases List.take_eq_nil_iff.mp taken with zero | empty
    · omega
    · intro id member
      have passed := List.filter_eq_nil_iff.mp empty id member
      simpa using passed
  split at drained
  next below =>
    refine ⟨below, ?_⟩
    intro id member above
    exact absurd above (not_lt.mpr (empty drained id member))
  next some => exact absurd (empty drained) some

theorem step_missNothing (asleep : SleepersMissNothing m) (taken : step m a = some m') :
    SleepersMissNothing m' := by
  have setCall {thread : Nat} {call : DrainCall} (awake : ∀ lastId maxN, call ≠ .waiting lastId maxN) :
      SleepersMissNothing (m.setCall thread call) := by
    intro other lastId maxN waiting positive
    by_cases same : other = thread
    · subst same
      rw [setCall_self] at waiting
      exact absurd waiting (awake lastId maxN)
    · rw [setCall_other call same] at waiting
      obtain ⟨held, stored⟩ := asleep other lastId maxN waiting positive
      exact ⟨held, stored⟩
  cases a with
  | persist rows producedNs =>
      obtain ⟨env, eventStore, persisted, rfl⟩ := persist_cases taken
      intro thread lastId maxN waiting positive
      have missed := asleep thread lastId maxN waiting positive
      refine ⟨missed.held, ?_⟩
      intro id member above
      change id ∈ eventStore.stored at member
      change id ∈ ids (m.inFlight ++ [env])
      rw [persist_stored persisted, ← persist_batchId persisted] at member
      rw [ids, List.map_append]
      refine List.mem_append.mpr ((List.mem_append.mp member).imp_left fun old => ?_)
      exact missed.stored id old above
  | insert batchId =>
      obtain ⟨_, _, _, rfl⟩ := insert_cases taken
      exact notifyAll_missNothing _
  | ackDh lastBatchId | ackJournal lastBatchId =>
      cases taken
      exact notifyAll_missNothing _
  | markCommitted batchId now fault =>
      cases taken
      intro thread lastId maxN waiting positive
      have missed := asleep thread lastId maxN waiting positive
      refine ⟨missed.held, ?_⟩
      intro id member
      exact missed.stored id ((m.eventStore.markCommitted_stored batchId now fault id).mp member).1
  | drainForDh thread maxN | drainForJournal thread maxN =>
      rw [enter_cases taken]
      exact setCall (by simp)
  | look thread expired =>
      obtain ⟨lastId, maxN, _, ⟨none, rfl⟩ | ⟨_, rfl⟩⟩ := look_cases taken
      · cases expired with
        | true => exact setCall (by simp)
        | false =>
            intro other lastId' maxN' waiting positive
            by_cases same : other = thread
            · subst same
              rw [setCall_self] at waiting
              cases waiting
              obtain ⟨held, stored⟩ := nothingMissed_of_drain positive none
              exact ⟨held, stored⟩
            · rw [setCall_other _ same] at waiting
              obtain ⟨held, stored⟩ := asleep other lastId' maxN' waiting positive
              exact ⟨held, stored⟩
      · exact setCall (by simp)
  | timeOut thread =>
      obtain ⟨_, _, _, rfl⟩ := timeOut_cases taken
      exact setCall (by simp)

structure Woken (thread : Nat) (lastId : Int) (maxN : Nat) (batchId : Int) (m : BusMonitor) :
    Prop where
  looking : m.calls thread = .looking lastId maxN
  available : batchId ∈ m.bus.held ∨ batchId ≤ m.bus.dhCursor ∧ batchId ≤ m.bus.jrCursor

theorem available_insert {bus : EventBus} {batchId : Int} (env : Envelope)
    (available : batchId ∈ bus.held ++ [env.batchId] ∨
      batchId ≤ bus.dhCursor ∧ batchId ≤ bus.jrCursor) :
    batchId ∈ (bus.insert env).held ∨ batchId ≤ bus.dhCursor ∧ batchId ≤ bus.jrCursor := by
  rcases available with held | passed
  · have mapped : bus.held ++ [env.batchId] = (bus.buf ++ [env]).map Envelope.batchId := by
      simp [EventBus.held, ids]
    rw [mapped] at held
    obtain ⟨e, member, rfl⟩ := List.mem_map.mp held
    exact (mem_evict_or_passed bus.maxEnvelopes bus.dhCursor bus.jrCursor _ member).imp_left
      List.mem_map_of_mem
  · exact .inr passed

def Others (thread : Nat) (_ : BusMonitor) (a : Action) : Prop :=
  ∀ expired, a ≠ .look thread expired

theorem step_woken {batchId : Int} (woken : Woken thread lastId maxN batchId m)
    (others : Others thread m a) (taken : step m a = some m') :
    Woken thread lastId maxN batchId m' := by
  have notified (next : BusMonitor) (same : next.calls = m.calls) :
      (notifyAll next).calls thread = .looking lastId maxN := by
    simp [notifyAll, same, woken.looking, DrainCall.notified]
  have setCall {other : Nat} {call : DrainCall} (different : thread ≠ other) :
      Woken thread lastId maxN batchId (m.setCall other call) :=
    ⟨(setCall_other call different).trans woken.looking, woken.available⟩
  cases a with
  | persist rows producedNs =>
      obtain ⟨_, _, _, rfl⟩ := persist_cases taken
      exact ⟨woken.looking, woken.available⟩
  | markCommitted _ now fault =>
      cases taken
      exact ⟨woken.looking, woken.available⟩
  | insert inserted =>
      obtain ⟨env, _, _, rfl⟩ := insert_cases taken
      refine ⟨notified _ rfl, available_insert env ?_⟩
      exact woken.available.imp_left (List.mem_append_left _)
  | ackDh lastBatchId =>
      cases taken
      refine ⟨notified _ rfl, woken.available.imp_right fun passed => ?_⟩
      exact ⟨le_trans passed.1 (le_max_left _ _), passed.2⟩
  | ackJournal lastBatchId =>
      cases taken
      refine ⟨notified _ rfl, woken.available.imp_right fun passed => ?_⟩
      exact ⟨passed.1, le_trans passed.2 (le_max_left _ _)⟩
  | drainForDh other maxN | drainForJournal other maxN =>
      have different : thread ≠ other := by
        rintro rfl
        simp [step, enter, woken.looking] at taken
      rw [enter_cases taken]
      exact setCall different
  | look other expired =>
      have different : thread ≠ other := by
        rintro rfl
        exact others expired rfl
      obtain ⟨_, _, _, ⟨_, rfl⟩ | ⟨_, rfl⟩⟩ := look_cases taken <;> exact setCall different
  | timeOut other =>
      obtain ⟨_, _, waiting, rfl⟩ := timeOut_cases taken
      refine setCall ?_
      rintro rfl
      rw [woken.looking] at waiting
      cases waiting

theorem look_returns {batchId : Int} {expired : Bool} (woken : Woken thread lastId maxN batchId m)
    (positive : 0 < maxN) (above : lastId < batchId)
    (unpassed : ¬ (batchId ≤ m.bus.dhCursor ∧ batchId ≤ m.bus.jrCursor))
    (taken : step m (.look thread expired) = some m') :
    ∃ out, m'.calls thread = .returned out ∧ out ≠ [] ∧ ∀ id ∈ ids out, lastId < id := by
  have held := woken.available.resolve_right unpassed
  obtain ⟨_, _, looking, read⟩ := look_cases taken
  rw [woken.looking] at looking
  cases looking
  rcases read with ⟨none, _⟩ | ⟨some, rfl⟩
  · exact absurd above (not_lt.mpr ((nothingMissed_of_drain positive none).held batchId held))
  · refine ⟨_, setCall_self _, some, ?_⟩
    intro id member
    have inside : id ∈ ((if ∀ id ∈ m.bus.held, id ≤ lastId then m.eventStore.stored
        else m.bus.held).filter fun id => lastId < id).take maxN := by
      rw [m.bus.ids_drain m.eventStore lastId maxN positive] at member
      split_ifs at member ⊢ <;> exact member
    exact of_decide_eq_true (List.mem_filter.mp (List.mem_of_mem_take inside)).2

-- A drain sleeps only as long as everything after its position is still being published, and the end
-- of such a publish call ends the sleep with something to return.
theorem no_lost_wakeup {eventStore : DuckDbEventStore} {maxEnvelopes dhStart : Int}
    (reached : Reaches step anyStep (.start eventStore maxEnvelopes dhStart) m)
    (waiting : m.calls thread = .waiting lastId maxN) (positive : 0 < maxN) :
    NothingMissed m lastId ∧
      ∀ batchId m' m'', lastId < batchId → step m (.insert batchId) = some m' →
        Reaches step (Others thread) m' m'' → m''.calls thread = .looking lastId maxN ∧
          (batchId ≤ m''.bus.dhCursor ∧ batchId ≤ m''.bus.jrCursor ∨
            ∀ expired last, step m'' (.look thread expired) = some last →
              ∃ out, last.calls thread = .returned out ∧ out ≠ [] ∧ ∀ id ∈ ids out, lastId < id) := by
  have asleep : SleepersMissNothing m := by
    apply reached.invariant SleepersMissNothing
    · intro thread lastId maxN waiting
      cases waiting
    · intro m a m' asleep _ taken
      exact step_missNothing asleep taken
  refine ⟨asleep thread lastId maxN waiting positive, ?_⟩
  intro batchId m' m'' above taken later
  have woken : Woken thread lastId maxN batchId m' := by
    obtain ⟨env, _, rfl, rfl⟩ := insert_cases taken
    refine ⟨by simp [notifyAll, waiting, DrainCall.notified], available_insert env ?_⟩
    exact .inl (by simp)
  have still : Woken thread lastId maxN batchId m'' :=
    later.invariant (Woken thread lastId maxN batchId) woken
      fun _ _ _ woken others taken => step_woken woken others taken
  refine ⟨still.looking, ?_⟩
  by_cases passed : batchId ≤ m''.bus.dhCursor ∧ batchId ≤ m''.bus.jrCursor
  · exact .inl passed
  · exact .inr fun expired last taken => look_returns still positive above passed taken

-- The DH consumer sleeps while batch 1 is stored, and is woken when it enters the ring.
theorem no_lost_wakeup_publish :
    ∃ m m', Reaches step anyStep (.start (connect .new {}) 100000 0) m ∧
      ids m.inFlight = [1] ∧ m.calls 7 = .waiting 0 1024 ∧
      ids (m.bus.drain m.eventStore 0 1024) = [1] ∧
      NothingMissed m 0 ∧
      run step m [.insert 1, .ackJournal 1] = some m' ∧ m'.calls 7 = .looking 0 1024 := by
  obtain ⟨m, reached, last⟩ := reaches_of_check step (.start (connect .new {}) 100000 0)
    [.drainForDh 7 1024, .look 7 false, .persist [] 0]
    (fun m => ids m.inFlight = [1] ∧ (m.calls 7).sleep = some (0, 1024) ∧
      ids (m.bus.drain m.eventStore 0 1024) = [1] ∧
      (run step m [.insert 1, .ackJournal 1]).isSome = true) (by decide +kernel)
  obtain ⟨inFlight, sleep, drained, goesOn⟩ := of_decide_eq_true last
  have waiting := sleep_eq_some.mp sleep
  obtain ⟨missed, woken⟩ := no_lost_wakeup reached waiting (by decide)
  obtain ⟨m', result⟩ := Option.isSome_iff_exists.mp goesOn
  refine ⟨m, m', reached, inFlight, waiting, drained, missed, result, ?_⟩
  cases inserted : step m (.insert 1) with
  | none => simp [run, inserted] at result
  | some next =>
      have acked : Reaches step (Others 7) next m' := by
        apply Reaches.tail (a := .ackJournal 1) .refl
        · intro expired
          simp
        · simpa [run, inserted] using result
      exact (woken 1 next m' (by decide) inserted acked).1

end BusMonitor

end DeepFeeder
