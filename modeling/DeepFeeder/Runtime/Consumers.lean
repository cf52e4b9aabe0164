import DeepFeeder.Shared.Transition
import DeepFeeder.Core.EventBus

set_option autoImplicit false

namespace DeepFeeder

open EventBus DuckDbEventStore

inductive DhPc where
  | polling
  -- The rest of the drained batch, and the envelopes of the batch whose write raised.
  | writing (rest skipped : List Envelope)

structure DhLoop where
  last : Int
  pc : DhPc

inductive JrPc where
  | polling
  -- The store had nothing pending, so the live bus is drained.
  | draining
  | appending (rest skipped : List Envelope) (lastBid : Option Int)
  | marking (env : Envelope) (rest skipped : List Envelope) (lastBid : Option Int)

structure JrLoop where
  nextId : Int
  lastCommitted : Int
  pc : JrPc

-- The start position; the pointer cannot always be read.
def JrLoop.start : Option Int → JrLoop
  | some lastCommitted => { nextId := lastCommitted + 1, lastCommitted, pc := .polling }
  | none => { nextId := 1, lastCommitted := -1, pc := .polling }

/-- The event store, the bus, the publish calls between their two critical sections and the two
consumer loops. `log`, `written` and `journaled` are history: the ids in the store at the start and
every id handed out since, the envelopes that `write_envelope` returned for, and the envelopes that
`append_envelope` returned for. -/
structure Pipeline where
  eventStore : DuckDbEventStore
  bus : EventBus
  inFlight : List Envelope
  dh : DhLoop
  jr : JrLoop
  log : List Int
  written : List Envelope
  journaled : List Envelope

namespace Pipeline

def start (eventStore : DuckDbEventStore) (maxEnvelopes dhStart : Int) : Pipeline :=
  { eventStore
    bus := (EventBus.init eventStore maxEnvelopes).setDhCursor dhStart
    inFlight := []
    dh := { last := -1, pc := .polling }
    jr := .start (some eventStore.lastCommitted)
    log := eventStore.stored
    written := []
    journaled := [] }

def published (s : Pipeline) : List Int := s.log.filter fun id => id ∉ ids s.inFlight

inductive Action where
  | persist (rows : List Tick) (producedNs : Int)
  | insert (batchId : Int)
  | dhDrain
  | dhWrite (ok : Bool)
  | dhAck
  | jrPoll
  | jrDrain
  | jrAppend (ok : Bool)
  | jrMark (now : Int) (fault : Option MarkFault)
  | jrAck

def persist (s : Pipeline) (rows : List Tick) (producedNs : Int) : Option Pipeline :=
  (EventBus.persist s.eventStore rows producedNs).map fun (env, eventStore) =>
    { s with eventStore, inFlight := s.inFlight ++ [env], log := s.log ++ [env.batchId] }

def insert (s : Pipeline) (batchId : Int) : Option Pipeline :=
  match s.inFlight.find? fun e => e.batchId = batchId with
  | some env =>
      some { s with
        bus := s.bus.insert env
        inFlight := s.inFlight.filter fun e => e.batchId ≠ batchId }
  | none => none

def dhDrain (s : Pipeline) : Option Pipeline :=
  match s.dh.pc with
  | .polling =>
      match s.bus.drainForDh s.eventStore 1024 with
      | [] => some s
      | envs => some { s with dh := { s.dh with pc := .writing envs [] } }
  | .writing _ _ => none

def dhWrite (s : Pipeline) (ok : Bool) : Option Pipeline :=
  match s.dh.pc with
  | .writing (env :: rest) skipped =>
      if ok then
        some { s with
          dh := { last := env.batchId, pc := .writing rest skipped }
          written := s.written ++ [env] }
      else some { s with dh := { s.dh with pc := .writing rest (skipped ++ [env]) } }
  | _ => none

def dhAck (s : Pipeline) : Option Pipeline :=
  match s.dh.pc with
  | .writing [] _ =>
      some { s with
        bus := if 0 ≤ s.dh.last then s.bus.ackDh s.dh.last else s.bus
        dh := { s.dh with pc := .polling } }
  | _ => none

def jrPoll (s : Pipeline) : Option Pipeline :=
  match s.jr.pc with
  | .polling =>
      match s.eventStore.nextFrom s.jr.nextId 256 with
      | [] => some { s with jr := { s.jr with pc := .draining } }
      | envs => some { s with jr := { s.jr with pc := .appending envs [] none } }
  | _ => none

def jrDrain (s : Pipeline) : Option Pipeline :=
  match s.jr.pc with
  | .draining =>
      match s.bus.drainForJournal s.eventStore 1024 with
      | [] => some { s with jr := { s.jr with pc := .polling } }
      | envs => some { s with jr := { s.jr with pc := .appending envs [] none } }
  | _ => none

def jrAppend (s : Pipeline) (ok : Bool) : Option Pipeline :=
  match s.jr.pc with
  | .appending (env :: rest) skipped lastBid =>
      if ok then
        some { s with
          jr := { s.jr with pc := .marking env rest skipped lastBid }
          journaled := s.journaled ++ [env] }
      else some { s with jr := { s.jr with pc := .appending rest (skipped ++ [env]) lastBid } }
  | _ => none

def jrMark (s : Pipeline) (now : Int) (fault : Option MarkFault) : Option Pipeline :=
  match s.jr.pc with
  | .marking env rest skipped lastBid =>
      let marked := s.eventStore.markCommitted env.batchId now fault
      match marked.1 with
      | .ok () =>
          some { s with
            eventStore := marked.2
            jr :=
              { nextId := env.batchId + 1
                lastCommitted := env.batchId
                pc := .appending rest skipped (some env.batchId) } }
      -- break: the rest of the batch is dropped and read again from `nextId`.
      | .error _ =>
          some { s with
            eventStore := marked.2
            jr := { s.jr with pc := .appending [] skipped lastBid } }
  | _ => none

def jrAck (s : Pipeline) : Option Pipeline :=
  match s.jr.pc with
  | .appending [] _ lastBid =>
      some { s with
        bus := match lastBid with
          | some batchId => s.bus.ackJournal batchId
          | none => s.bus
        jr := { s.jr with pc := .polling } }
  | _ => none

def step (s : Pipeline) : Action → Option Pipeline
  | .persist rows producedNs => s.persist rows producedNs
  | .insert batchId => s.insert batchId
  | .dhDrain => s.dhDrain
  | .dhWrite ok => s.dhWrite ok
  | .dhAck => s.dhAck
  | .jrPoll => s.jrPoll
  | .jrDrain => s.jrDrain
  | .jrAppend ok => s.jrAppend ok
  | .jrMark now fault => s.jrMark now fault
  | .jrAck => s.jrAck

variable {s s' : Pipeline}

theorem persist_cases {rows : List Tick} {producedNs : Int}
    (taken : s.persist rows producedNs = some s') :
    ∃ env eventStore, EventBus.persist s.eventStore rows producedNs = some (env, eventStore) ∧
      s' = { s with eventStore, inFlight := s.inFlight ++ [env], log := s.log ++ [env.batchId] } := by
  obtain ⟨⟨env, eventStore⟩, persisted, rfl⟩ := Option.map_eq_some_iff.mp taken
  exact ⟨env, eventStore, persisted, rfl⟩

theorem insert_cases {batchId : Int} (taken : s.insert batchId = some s') :
    ∃ env ∈ s.inFlight, env.batchId = batchId ∧
      s' = { s with
        bus := s.bus.insert env
        inFlight := s.inFlight.filter fun e => e.batchId ≠ batchId } := by
  unfold insert at taken
  split at taken
  next env found =>
    have same := List.find?_some found
    cases taken
    exact ⟨env, List.mem_of_find?_eq_some found, by simpa using same, rfl⟩
  next => cases taken

theorem dhDrain_cases (taken : s.dhDrain = some s') :
    s.dh.pc = .polling ∧
      (s' = s ∨
        s' = { s with dh := { s.dh with
          pc := .writing (s.bus.drainForDh s.eventStore 1024) [] } }) := by
  unfold dhDrain at taken
  split at taken
  next polling =>
    split at taken
    · cases taken
      exact ⟨polling, .inl rfl⟩
    · cases taken
      exact ⟨polling, .inr rfl⟩
  next => cases taken

theorem dhWrite_cases {ok : Bool} (taken : s.dhWrite ok = some s') :
    ∃ env rest skipped, s.dh.pc = .writing (env :: rest) skipped ∧
      (ok = true ∧ s' = { s with
          dh := { last := env.batchId, pc := .writing rest skipped }
          written := s.written ++ [env] } ∨
        ok = false ∧ s' = { s with
          dh := { s.dh with pc := .writing rest (skipped ++ [env]) } }) := by
  unfold dhWrite at taken
  split at taken
  next env rest skipped writing =>
    split at taken
    next succeeded =>
      cases taken
      exact ⟨env, rest, skipped, writing, .inl ⟨succeeded, rfl⟩⟩
    next failed =>
      cases taken
      exact ⟨env, rest, skipped, writing, .inr ⟨by simpa using failed, rfl⟩⟩
  next => cases taken

theorem dhAck_cases (taken : s.dhAck = some s') :
    ∃ skipped, s.dh.pc = .writing [] skipped ∧
      s' = { s with
        bus := if 0 ≤ s.dh.last then s.bus.ackDh s.dh.last else s.bus
        dh := { s.dh with pc := .polling } } := by
  unfold dhAck at taken
  split at taken
  next skipped writing =>
    cases taken
    exact ⟨skipped, writing, rfl⟩
  next => cases taken

theorem jrPoll_cases (taken : s.jrPoll = some s') :
    s.jr.pc = .polling ∧
      (s.eventStore.nextFrom s.jr.nextId 256 = [] ∧ s' = { s with jr := { s.jr with pc := .draining } } ∨
        s' = { s with jr := { s.jr with
          pc := .appending (s.eventStore.nextFrom s.jr.nextId 256) [] none } }) := by
  unfold jrPoll at taken
  split at taken
  next polling =>
    split at taken
    next none =>
      cases taken
      exact ⟨polling, .inl ⟨none, rfl⟩⟩
    · cases taken
      exact ⟨polling, .inr rfl⟩
  next => cases taken

theorem jrDrain_cases (taken : s.jrDrain = some s') :
    s.jr.pc = .draining ∧
      (s' = { s with jr := { s.jr with pc := .polling } } ∨
        s' = { s with jr := { s.jr with
          pc := .appending (s.bus.drainForJournal s.eventStore 1024) [] none } }) := by
  unfold jrDrain at taken
  split at taken
  next draining =>
    split at taken
    · cases taken
      exact ⟨draining, .inl rfl⟩
    · cases taken
      exact ⟨draining, .inr rfl⟩
  next => cases taken

theorem jrAppend_cases {ok : Bool} (taken : s.jrAppend ok = some s') :
    ∃ env rest skipped lastBid, s.jr.pc = .appending (env :: rest) skipped lastBid ∧
      (ok = true ∧ s' = { s with
          jr := { s.jr with pc := .marking env rest skipped lastBid }
          journaled := s.journaled ++ [env] } ∨
        ok = false ∧ s' = { s with
          jr := { s.jr with pc := .appending rest (skipped ++ [env]) lastBid } }) := by
  unfold jrAppend at taken
  split at taken
  next env rest skipped lastBid appending =>
    split at taken
    next succeeded =>
      cases taken
      exact ⟨env, rest, skipped, lastBid, appending, .inl ⟨succeeded, rfl⟩⟩
    next failed =>
      cases taken
      exact ⟨env, rest, skipped, lastBid, appending, .inr ⟨by simpa using failed, rfl⟩⟩
  next => cases taken

theorem jrMark_cases {now : Int} {fault : Option MarkFault} (taken : s.jrMark now fault = some s') :
    ∃ env rest skipped lastBid, s.jr.pc = .marking env rest skipped lastBid ∧
      (fault ≠ some .update ∧ s' = { s with
          eventStore := (s.eventStore.markCommitted env.batchId now fault).2
          jr :=
            { nextId := env.batchId + 1
              lastCommitted := env.batchId
              pc := .appending rest skipped (some env.batchId) } } ∨
        (∃ e, (s.eventStore.markCommitted env.batchId now fault).1 = .error e) ∧
          s' = { s with
            eventStore := (s.eventStore.markCommitted env.batchId now fault).2
            jr := { s.jr with pc := .appending [] skipped lastBid } }) := by
  unfold jrMark at taken
  split at taken
  next env rest skipped lastBid marking =>
    refine ⟨env, rest, skipped, lastBid, marking, ?_⟩
    simp only at taken
    split at taken
    next ok =>
      cases taken
      refine .inl ⟨?_, rfl⟩
      rintro rfl
      simp [markCommitted] at ok
    next e error =>
      cases taken
      exact .inr ⟨⟨e, error⟩, rfl⟩
  next => cases taken

theorem jrAck_cases (taken : s.jrAck = some s') :
    ∃ skipped lastBid, s.jr.pc = .appending [] skipped lastBid ∧
      s' = { s with
        bus := match lastBid with
          | some batchId => s.bus.ackJournal batchId
          | none => s.bus
        jr := { s.jr with pc := .polling } } := by
  unfold jrAck at taken
  split at taken
  next skipped lastBid appending =>
    cases taken
    exact ⟨skipped, lastBid, appending, rfl⟩
  next => cases taken

end Pipeline

end DeepFeeder
