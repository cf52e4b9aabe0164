import DeepFeeder.Shared.AtLeastOnce
import DeepFeeder.Runtime.JournalProgress

set_option autoImplicit false

namespace DeepFeeder.Restarts

open Transition Pipeline OrderedLog AtLeastOnce JournalProgress DuckDbEventStore

/-- One process after another over the two database files. `found` is the journal as the process found
it when it started; `kills` and `failedMarks` count the killed processes and the `mark_committed` calls
that raised. -/
structure Processes where
  pipeline : Pipeline
  found : List Envelope
  kills : Nat
  failedMarks : Nat

/-- The process is killed and the next one opens the files: the bus, the consumer loops, the publish
calls and the Deephaven tables are new, the event store and the journal are not. -/
def Processes.restart (s : Processes) (retention : Retention) (maxEnvelopes dhStart : Int) :
    Processes :=
  { pipeline :=
      { Pipeline.start (connect s.pipeline.eventStore.con retention s.pipeline.eventStore.coerce)
          maxEnvelopes dhStart with
        log := s.pipeline.log
        journaled := s.pipeline.journaled }
    found := s.pipeline.journaled
    kills := s.kills + 1
    failedMarks := s.failedMarks }

inductive Event where
  | act (a : Action)
  | restart (retention : Retention) (maxEnvelopes dhStart : Int)

def marksInVain (s : Pipeline) : Action → Bool
  | .jrMark now fault => match s.jr.pc with
      | .marking env _ _ _ => match (s.eventStore.markCommitted env.batchId now fault).1 with
          | .ok () => false
          | .error _ => true
      | _ => false
  | _ => false

def step (s : Processes) : Event → Option Processes
  | .act a => (Pipeline.step s.pipeline a).map fun pipeline =>
      { s with pipeline, failedMarks := s.failedMarks + (marksInVain s.pipeline a).toNat }
  | .restart retention maxEnvelopes dhStart => some (s.restart retention maxEnvelopes dhStart)

def Processes.start (retention : Retention) (maxEnvelopes dhStart : Int) : Processes :=
  { pipeline := .start (connect .new retention) maxEnvelopes dhStart
    found := []
    kills := 0
    failedMarks := 0 }

-- Every process keeps a safety window when it prunes, and its journal loop reads in order.
def InOrder (s : Processes) : Event → Prop
  | .act a => JrInOrder s.pipeline a
  | .restart retention _ _ => 1 ≤ retention.pruneSafetyBatches

instance (s : Processes) (e : Event) : Decidable (InOrder s e) :=
  match e with
  | .act a => inferInstanceAs (Decidable (JrInOrder s.pipeline a))
  | .restart retention _ _ => inferInstanceAs (Decidable (1 ≤ retention.pruneSafetyBatches))

def current : JrPc → Option Int
  | .marking env _ _ _ => some env.batchId
  | _ => none

section Steps

variable {s s' : Pipeline} {a : Action}

theorem doomed_le {store : DuckDbEventStore} {batchId now id : Int} {fault : Option MarkFault}
    (member : id ∈ store.doomed batchId now fault) :
    id ≤ batchId - store.retention.pruneSafetyBatches := by
  unfold doomed at member
  split at member
  next => cases member
  next =>
    obtain ⟨stored, gone⟩ := List.mem_filter.mp member
    simp only [decide_eq_true_eq] at gone
    by_contra later
    apply gone
    unfold surviving
    cases due : (store.setAck batchId).dueCutoff now with
    | none => exact stored
    | some cutoff =>
        unfold dueCutoff at due
        simp only at due
        split at due
        next => cases due
        next =>
          cases due
          split
          next => exact stored
          next => exact stored
          next same _ _ =>
            cases same
            exact List.mem_filter.mpr ⟨stored, decide_eq_true (not_le.mp later)⟩

theorem markCommitted_retention (store : DuckDbEventStore) (batchId now : Int)
    (fault : Option MarkFault) :
    (store.markCommitted batchId now fault).2.retention = store.retention := by
  have pruned (store : DuckDbEventStore) (cutoff : Int) :
      (store.pruneUptoLocked cutoff).2.retention = store.retention := by
    simp only [pruneUptoLocked]
    split <;> rfl
  have maybe (store : DuckDbEventStore) : (store.maybePruneLocked now fault).2.retention =
      store.retention := by
    simp only [maybePruneLocked]
    split
    next => rfl
    next =>
      split
      next => rfl
      next =>
        split
        next => rfl
        next =>
          split
          next => rfl
          next => exact pruned store _
          next =>
            split
            next => exact pruned store _
            next => exact pruned store _
  unfold markCommitted
  split
  next => rfl
  next => exact maybe _

theorem step_retention (taken : Pipeline.step s a = some s') :
    s'.eventStore.retention = s.eventStore.retention := by
  cases a with
  | persist rows producedNs =>
      obtain ⟨_, _, persisted, rfl⟩ := persist_cases taken
      exact EventBus.persist_retention persisted
  | insert batchId =>
      obtain ⟨_, _, _, rfl⟩ := insert_cases taken
      rfl
  | dhDrain =>
      obtain ⟨_, rfl | rfl⟩ := dhDrain_cases taken <;> rfl
  | dhWrite ok =>
      obtain ⟨_, _, _, _, ⟨_, rfl⟩ | ⟨_, rfl⟩⟩ := dhWrite_cases taken <;> rfl
  | dhAck =>
      obtain ⟨_, _, rfl⟩ := dhAck_cases taken
      rfl
  | jrPoll =>
      obtain ⟨_, ⟨_, rfl⟩ | rfl⟩ := jrPoll_cases taken <;> rfl
  | jrDrain =>
      obtain ⟨_, rfl | rfl⟩ := jrDrain_cases taken <;> rfl
  | jrAppend ok =>
      obtain ⟨_, _, _, _, _, ⟨_, rfl⟩ | ⟨_, rfl⟩⟩ := jrAppend_cases taken <;> rfl
  | jrMark now fault =>
      obtain ⟨_, _, _, _, _, ⟨_, rfl⟩ | ⟨_, rfl⟩⟩ := jrMark_cases taken <;>
        exact markCommitted_retention _ _ _ _
  | jrAck =>
      obtain ⟨_, _, _, rfl⟩ := jrAck_cases taken
      rfl

def NewestStored (s : Pipeline) : Prop :=
  ∀ id ∈ s.log, ∃ row ∈ s.eventStore.stored, id ≤ row

theorem mark_newestStored (window : 1 ≤ s.eventStore.retention.pruneSafetyBatches)
    (newest : NewestStored s) {batchId : Int} (known : batchId ∈ s.log) (now : Int)
    (fault : Option MarkFault) (jr : JrLoop) :
    NewestStored { s with eventStore := (s.eventStore.markCommitted batchId now fault).2, jr } := by
  have stays {row : Int} (stored : row ∈ s.eventStore.stored) (later : batchId ≤ row) :
      row ∈ (s.eventStore.markCommitted batchId now fault).2.stored := by
    refine (s.eventStore.markCommitted_stored batchId now fault row).mpr ⟨stored, fun gone => ?_⟩
    have le := doomed_le gone
    omega
  intro id member
  obtain ⟨row, stored, le⟩ := newest id member
  rcases le_total batchId row with later | earlier
  next => exact ⟨row, stays stored later, le⟩
  next =>
    obtain ⟨top, there, above⟩ := newest batchId known
    exact ⟨top, stays there above, le_trans le (le_trans earlier above)⟩

theorem step_newestStored (progress : Progress 0 s.log s.eventStore.stored s.eventStore.lastCommitted
      s.bus.jrCursor s.jr (ids s.journaled))
    (window : 1 ≤ s.eventStore.retention.pruneSafetyBatches) (newest : NewestStored s)
    (taken : Pipeline.step s a = some s') : NewestStored s' := by
  cases a with
  | persist rows producedNs =>
      obtain ⟨_, eventStore, persisted, rfl⟩ := persist_cases taken
      intro id member
      change ∃ row ∈ eventStore.stored, id ≤ row
      rw [EventBus.persist_stored persisted, ← EventBus.persist_batchId persisted]
      rcases List.mem_append.mp member with old | new
      next =>
        obtain ⟨row, stored, le⟩ := newest id old
        exact ⟨row, List.mem_append_left _ stored, le⟩
      next =>
        rw [List.mem_singleton.mp new]
        exact ⟨_, List.mem_append_right _ List.mem_cons_self, le_of_eq rfl⟩
  | insert batchId =>
      obtain ⟨_, _, _, rfl⟩ := insert_cases taken
      exact newest
  | dhDrain =>
      obtain ⟨_, rfl | rfl⟩ := dhDrain_cases taken <;> exact newest
  | dhWrite ok =>
      obtain ⟨_, _, _, _, ⟨_, rfl⟩ | ⟨_, rfl⟩⟩ := dhWrite_cases taken <;> exact newest
  | dhAck =>
      obtain ⟨_, _, rfl⟩ := dhAck_cases taken
      exact newest
  | jrPoll =>
      obtain ⟨_, ⟨_, rfl⟩ | rfl⟩ := jrPoll_cases taken <;> exact newest
  | jrDrain =>
      obtain ⟨_, rfl | rfl⟩ := jrDrain_cases taken <;> exact newest
  | jrAppend ok =>
      obtain ⟨_, _, _, _, _, ⟨_, rfl⟩ | ⟨_, rfl⟩⟩ := jrAppend_cases taken <;> exact newest
  | jrMark now fault =>
      obtain ⟨env, rest, skipped, lastBid, marking, outcome⟩ := jrMark_cases taken
      have pending := progress.pending
      rw [marking] at pending
      have known : env.batchId ∈ s.log := pending.2.2.logged _ (by simp)
      rcases outcome with ⟨_, rfl⟩ | ⟨_, rfl⟩ <;>
        exact mark_newestStored window newest known now fault _
  | jrAck =>
      obtain ⟨_, _, _, rfl⟩ := jrAck_cases taken
      exact newest

theorem step_ascending (logged : s.Logged) (ascending : s.log.Pairwise (· < ·))
    (taken : Pipeline.step s a = some s') : s'.log.Pairwise (· < ·) := by
  rcases step_log taken with ⟨same, _⟩ | ⟨_, _, env, _, persisted, rfl⟩
  next =>
    rw [same]
    exact ascending
  next =>
    refine List.pairwise_append.mpr ⟨ascending, List.pairwise_singleton _ _, ?_⟩
    intro id member new inserted
    rw [List.mem_singleton.mp inserted, EventBus.persist_batchId persisted]
    exact logged.newest id member

structure Repeated (s : Pipeline) (interruptions : Nat) : Prop where
  pointer : position s.jr ≤ s.eventStore.lastCommitted
  known : ∀ id ∈ ids s.journaled, id ∈ s.log
  repeats : Repeats (ids s.journaled) (position s.jr) (current s.jr.pc) interruptions

theorem Repeated.same {interruptions : Nat} (repeated : Repeated s interruptions)
    (pointer : s'.eventStore.lastCommitted = s.eventStore.lastCommitted)
    (log : ∀ id ∈ s.log, id ∈ s'.log) (journaled : s'.journaled = s.journaled)
    (nextId : s'.jr.nextId = s.jr.nextId) (pc : current s'.jr.pc = current s.jr.pc) :
    Repeated s' interruptions where
  pointer := by
    rw [pointer, position, nextId]
    exact repeated.pointer
  known id member := log id (repeated.known id (journaled ▸ member))
  repeats := by
    rw [journaled, position, nextId, pc]
    exact repeated.repeats

theorem step_repeated {interruptions : Nat} (progress : Progress 0 s.log s.eventStore.stored
      s.eventStore.lastCommitted s.bus.jrCursor s.jr (ids s.journaled))
    (repeated : Repeated s interruptions) (taken : Pipeline.step s a = some s') :
    Repeated s' (interruptions + (marksInVain s a).toNat) := by
  cases a with
  | persist rows producedNs =>
      obtain ⟨_, _, persisted, rfl⟩ := persist_cases taken
      exact repeated.same (EventBus.persist_lastCommitted persisted)
        (fun _ => List.mem_append_left _) rfl rfl rfl
  | insert batchId =>
      obtain ⟨_, _, _, rfl⟩ := insert_cases taken
      exact repeated.same rfl (fun _ => id) rfl rfl rfl
  | dhDrain =>
      obtain ⟨_, rfl | rfl⟩ := dhDrain_cases taken <;>
        exact repeated.same rfl (fun _ => id) rfl rfl rfl
  | dhWrite ok =>
      obtain ⟨_, _, _, _, ⟨_, rfl⟩ | ⟨_, rfl⟩⟩ := dhWrite_cases taken <;>
        exact repeated.same rfl (fun _ => id) rfl rfl rfl
  | dhAck =>
      obtain ⟨_, _, rfl⟩ := dhAck_cases taken
      exact repeated.same rfl (fun _ => id) rfl rfl rfl
  | jrPoll =>
      obtain ⟨polling, ⟨_, rfl⟩ | rfl⟩ := jrPoll_cases taken <;>
        exact repeated.same rfl (fun _ => id) rfl rfl (by rw [polling]; rfl)
  | jrDrain =>
      obtain ⟨draining, rfl | rfl⟩ := jrDrain_cases taken <;>
        exact repeated.same rfl (fun _ => id) rfl rfl (by rw [draining]; rfl)
  | jrAppend ok =>
      obtain ⟨env, rest, skipped, lastBid, appending, ⟨_, rfl⟩ | ⟨_, rfl⟩⟩ := jrAppend_cases taken
      next =>
        have pending := progress.pending
        rw [appending] at pending
        have repeats := repeated.repeats
        rw [appending] at repeats
        refine ⟨repeated.pointer, ?_, ?_⟩
        next =>
          intro id member
          rw [ids, List.map_append] at member
          rcases List.mem_append.mp member with old | new
          next => exact repeated.known id old
          next =>
            rw [List.map_singleton, List.mem_singleton] at new
            exact new ▸ pending.2.logged _ (by simp)
        next =>
          rw [ids, List.map_append]
          exact repeats.append (pending.2.above env.batchId (by simp))
      next => exact repeated.same rfl (fun _ => id) rfl rfl (by rw [appending]; rfl)
  | jrMark now fault =>
      obtain ⟨env, rest, skipped, lastBid, marking, outcome⟩ := jrMark_cases taken
      have pending := progress.pending
      rw [marking] at pending
      have later : position s.jr < env.batchId := pending.2.2.above _ (by simp)
      have repeats := repeated.repeats
      rw [marking] at repeats
      have pointer := s.eventStore.markCommitted_lastCommitted env.batchId now fault
      rcases outcome with ⟨moved, rfl⟩ | ⟨⟨e, failed⟩, rfl⟩
      next =>
        rw [if_neg moved] at pointer
        have here : position ⟨env.batchId + 1, env.batchId,
            .appending rest skipped (some env.batchId)⟩ = env.batchId := by
          simp [position]
        refine ⟨le_of_eq (here.trans pointer.symm), repeated.known, ?_⟩
        rw [here]
        exact (repeats.commit later).mono (Nat.le_add_right _ _)
      next =>
        have vain : marksInVain s (.jrMark now fault) = true := by
          simp only [marksInVain, marking, failed]
        rw [vain]
        refine ⟨?_, repeated.known, repeats.interrupt (le_refl _)⟩
        change position s.jr ≤ (s.eventStore.markCommitted env.batchId now fault).2.lastCommitted
        rw [pointer]
        split
        next => exact repeated.pointer
        next => exact le_of_lt later
  | jrAck =>
      obtain ⟨_, _, appending, rfl⟩ := jrAck_cases taken
      exact repeated.same rfl (fun _ => id) rfl rfl (by rw [appending]; rfl)

end Steps

structure Sound (s : Processes) : Prop where
  logged : s.pipeline.Logged
  ascending : s.pipeline.log.Pairwise (· < ·)
  window : 1 ≤ s.pipeline.eventStore.retention.pruneSafetyBatches
  newest : NewestStored s.pipeline
  progress : Progress 0 s.pipeline.log s.pipeline.eventStore.stored s.pipeline.eventStore.lastCommitted
    s.pipeline.bus.jrCursor s.pipeline.jr (ids s.pipeline.journaled)
  repeated : Repeated s.pipeline (s.kills + s.failedMarks)

variable {retention : Retention} {maxEnvelopes dhStart : Int} {s s' : Processes}

theorem start_sound (window : 1 ≤ retention.pruneSafetyBatches) :
    Sound (.start retention maxEnvelopes dhStart) where
  logged := start_logged _ _ _
  ascending := List.Pairwise.nil
  window := window
  newest _ member := by cases member
  progress := Progress.start (connect .new retention)
  repeated :=
    { pointer := le_refl _
      known := fun _ member => by cases member
      repeats := Repeats.start _ }

theorem act_sound (sound : Sound s) {a : Action} (inOrder : JrInOrder s.pipeline a) {next : Pipeline}
    (taken : Pipeline.step s.pipeline a = some next) :
    Sound { s with
      pipeline := next
      failedMarks := s.failedMarks + (marksInVain s.pipeline a).toNat } where
  logged := step_logged sound.logged taken
  ascending := step_ascending sound.logged sound.ascending taken
  window := by
    rw [step_retention taken]
    exact sound.window
  newest := step_newestStored sound.progress sound.window sound.newest taken
  progress := step_progress sound.logged sound.progress inOrder taken
  repeated := by
    rw [← Nat.add_assoc]
    exact step_repeated sound.progress sound.repeated taken

theorem restart_progress (sound : Sound s) :
    Progress 0 s.pipeline.log s.pipeline.eventStore.stored s.pipeline.eventStore.lastCommitted
      s.pipeline.eventStore.lastCommitted
      (.start (some s.pipeline.eventStore.lastCommitted)) (ids s.pipeline.journaled) := by
  have pos : position (.start (some s.pipeline.eventStore.lastCommitted)) =
      s.pipeline.eventStore.lastCommitted := by
    simp [position, JrLoop.start]
  have progress := sound.progress
  refine ⟨?_, ?_, ?_, progress.acked, pos.symm⟩
  next =>
    intro id member above
    rw [pos]
    rcases progress.kept id member above with done | ⟨stored, waiting, _⟩
    next => exact .inl done
    next => exact .inr ⟨stored, waiting, waiting⟩
  next =>
    rw [pos]
    exact le_trans progress.begun sound.repeated.pointer
  next =>
    rw [pos]
    exact progress.acked

theorem restart_sound (sound : Sound s) (window : 1 ≤ retention.pruneSafetyBatches) :
    Sound (s.restart retention maxEnvelopes dhStart) where
  logged :=
    { positive := sound.logged.positive
      newest := by
        intro id member
        obtain ⟨row, stored, le⟩ := sound.newest id member
        exact Int.lt_add_one_of_le (le_trans le (s.pipeline.eventStore.con.le_maxBatchId stored))
      stored := sound.logged.stored
      held := fun _ member => by cases member
      inFlight := fun _ member => by cases member }
  ascending := sound.ascending
  window := window
  newest := sound.newest
  progress := by
    have progress := restart_progress sound
    exact progress
  repeated :=
    { pointer := by simp [Processes.restart, Pipeline.start, position, JrLoop.start]
      known := sound.repeated.known
      repeats := by
        have pos : position (.start (some s.pipeline.eventStore.lastCommitted)) =
            s.pipeline.eventStore.lastCommitted := by
          simp [position, JrLoop.start]
        have later := sound.repeated.repeats.interrupt sound.repeated.pointer
        rw [← pos, Nat.add_right_comm] at later
        exact later }

theorem step_sound (sound : Sound s) {e : Event} (inOrder : InOrder s e)
    (taken : step s e = some s') : Sound s' := by
  cases e with
  | act a =>
      obtain ⟨next, done, rfl⟩ := Option.map_eq_some_iff.mp taken
      exact act_sound sound inOrder done
  | restart retention maxEnvelopes dhStart =>
      cases taken
      exact restart_sound sound inOrder

/-- However often the process is killed, every id that `append` has returned is new, its envelope is in
the journal or waits where the journal loop of this and of the next process starts, and one kill or
failed commit puts one envelope into the journal again. -/
theorem restarts_lose_nothing (window : 1 ≤ retention.pruneSafetyBatches)
    (reached : Reaches step InOrder (.start retention maxEnvelopes dhStart) s) :
    s.pipeline.log.Pairwise (· < ·) ∧
      (∀ id ∈ s.pipeline.log, id ∈ ids s.pipeline.journaled ∨ Waits s.pipeline id) ∧
      (∀ id ∈ ids s.pipeline.journaled, id ∈ s.pipeline.log) ∧
      s.pipeline.journaled.length ≤
        (ids s.pipeline.journaled).toFinset.card + s.kills + s.failedMarks := by
  have sound : Sound s :=
    reached.invariant Sound (start_sound window) fun _ _ _ sound inOrder taken =>
      step_sound sound inOrder taken
  refine ⟨sound.ascending, ?_, sound.repeated.known, ?_⟩
  next =>
    intro id member
    have above : 0 < id := sound.logged.positive id member
    rcases sound.progress.kept id member above with done | ⟨stored, uncommitted, waiting⟩
    next => exact .inl done
    next =>
      have next : s.pipeline.jr.nextId ≤ id := Int.sub_one_lt_iff.mp waiting
      exact .inr ⟨stored, uncommitted, next, fun maxN room => mem_nextFrom stored next room⟩
  next =>
    have bound := sound.repeated.repeats.length_le
    rw [ids, List.length_map] at bound
    rw [Nat.add_assoc]
    exact bound

-- The first process is killed between an append and its commit, and one commit raises in the second.
theorem restarts_lose_nothing_two_kills :
    ∃ s : Processes, Reaches step InOrder (.start { pruneSafetyBatches := 1 } 100000 0) s ∧
      s.pipeline.log = [1, 2, 3] ∧ ids s.pipeline.journaled = [1, 1, 1, 2] ∧ s.kills = 2 ∧
      s.failedMarks = 1 ∧ s.pipeline.eventStore.stored = [2, 3] ∧
      (∀ id ∈ s.pipeline.log, id ∈ ids s.pipeline.journaled ∨ Waits s.pipeline id) := by
  obtain ⟨s, reached, checked⟩ := reaches_allowed_of_check step InOrder
    (.start { pruneSafetyBatches := 1 } 100000 0)
    [.act (.persist [] 0), .act (.insert 1), .act .jrPoll, .act (.jrAppend true),
      .restart { pruneSafetyBatches := 1 } 100000 0, .act (.persist [] 1), .act .jrPoll,
      .act (.jrAppend true), .act (.jrMark 0 (some .update)), .act .jrAck, .act .jrPoll,
      .act (.jrAppend true), .act (.jrMark 0 none), .act (.jrAppend true),
      .act (.jrMark (600 * 1000000000) none), .restart { pruneSafetyBatches := 1 } 100000 0,
      .act (.persist [] 2)]
    (fun s => s.pipeline.log = [1, 2, 3] ∧ ids s.pipeline.journaled = [1, 1, 1, 2] ∧ s.kills = 2 ∧
      s.failedMarks = 1 ∧ s.pipeline.eventStore.stored = [2, 3]) (by decide +kernel)
    (by decide +kernel)
  obtain ⟨log, journaled, kills, failed, stored⟩ := of_decide_eq_true checked
  exact ⟨s, reached, log, journaled, kills, failed, stored,
    (restarts_lose_nothing (by decide) reached).2.1⟩

end DeepFeeder.Restarts
