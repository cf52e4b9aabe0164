import DeepFeeder.Runtime.PipelineLog

set_option autoImplicit false

namespace DeepFeeder.JournalProgress

open Transition Pipeline OrderedLog EventBus DuckDbEventStore

-- A drain reads a source that lacks nothing but what is in the journal. A commit pointer moves only
-- over envelopes that are in the journal, and the prune behind it takes only such rows.
def JrInOrder (s : Pipeline) : Action → Prop
  | .jrDrain => Covers s.log s.bus.jrCursor (· ∈ ids s.journaled) (s.source s.bus.jrCursor)
  | .jrMark now fault => match s.jr.pc with
      | .marking env _ skipped _ =>
          fault = some .update ∨
            (∀ id ∈ ids skipped, id ∈ ids s.journaled) ∧
              ∀ id ∈ s.eventStore.doomed env.batchId now fault,
                id ≤ env.batchId ∨ id ∈ ids s.journaled
      | _ => True
  | _ => True

instance (s : Pipeline) (a : Action) : Decidable (JrInOrder s a) :=
  match a with
  | .jrDrain => inferInstanceAs (Decidable (Covers _ _ _ _))
  | .jrMark now fault =>
      match here : s.jr.pc with
      | .marking env rest skipped lastBid =>
          decidable_of_iff (fault = some .update ∨
            (∀ id ∈ ids skipped, id ∈ ids s.journaled) ∧
              ∀ id ∈ s.eventStore.doomed env.batchId now fault,
                id ≤ env.batchId ∨ id ∈ ids s.journaled) (by simp [JrInOrder, here])
      | .polling | .draining | .appending _ _ _ => isTrue (by simp [JrInOrder, here])
  | .persist _ _ | .insert _ | .dhDrain | .dhWrite _ | .dhAck | .jrPoll | .jrAppend _ | .jrAck =>
      isTrue trivial

def position (jr : JrLoop) : Int := jr.nextId - 1

def CursorBehind (jrCursor pos : Int) : Option Int → Prop
  | none => jrCursor = pos
  | some batchId => pos = batchId ∧ jrCursor ≤ batchId

structure Progress (committed : Int) (log stored : List Int) (acks jrCursor : Int) (jr : JrLoop)
    (journaled : List Int) : Prop where
  kept : ∀ id ∈ log, committed < id →
    id ∈ journaled ∨ id ∈ stored ∧ acks < id ∧ position jr < id
  begun : committed ≤ position jr
  known : position jr = committed ∨ position jr ∈ log
  acked : acks = committed ∨ acks ∈ log
  pending : match jr.pc with
    | .polling | .draining => jrCursor = position jr
    | .appending rest skipped lastBid =>
        CursorBehind jrCursor (position jr) lastBid ∧
          Next log (position jr) (fun id => id ∈ journaled ∨ id ∈ ids skipped) (ids rest)
    | .marking env rest skipped lastBid =>
        CursorBehind jrCursor (position jr) lastBid ∧ env.batchId ∈ journaled ∧
          Next log (position jr) (fun id => id ∈ journaled ∨ id ∈ ids skipped) (ids (env :: rest))

variable {committed acks jrCursor nextId lastCommitted : Int} {log stored journaled : List Int}
  {jr : JrLoop} {rest skipped : List Envelope} {env : Envelope} {lastBid : Option Int}

theorem CursorBehind.le {pos : Int} (behind : CursorBehind jrCursor pos lastBid) :
    jrCursor ≤ pos := by
  cases lastBid with
  | none => exact le_of_eq behind
  | some batchId =>
      obtain ⟨rfl, le⟩ := behind
      exact le

theorem Progress.start (eventStore : DuckDbEventStore) :
    Progress eventStore.lastCommitted eventStore.stored eventStore.stored eventStore.lastCommitted
      eventStore.lastCommitted (.start (some eventStore.lastCommitted)) [] := by
  have pos : position (.start (some eventStore.lastCommitted)) = eventStore.lastCommitted := by
    simp [position, JrLoop.start]
  refine ⟨?_, le_of_eq pos.symm, .inl pos, .inl rfl, pos.symm⟩
  intro id member above
  rw [pos]
  exact .inr ⟨member, above, above⟩

theorem Progress.persist (progress : Progress committed log stored acks jrCursor jr journaled)
    {new : Int} (newest : ∀ id ∈ log, id < new) :
    Progress committed (log ++ [new]) (stored ++ [new]) acks jrCursor jr journaled where
  kept := by
    intro id member above
    rcases List.mem_append.mp member with old | last
    · rcases progress.kept id old above with done | ⟨inside, waiting⟩
      · exact .inl done
      · exact .inr ⟨List.mem_append_left _ inside, waiting⟩
    · rw [List.mem_singleton] at last
      subst last
      refine .inr ⟨by simp, ?_, ?_⟩
      · rcases progress.acked with start | before
        · rwa [start]
        · exact newest _ before
      · rcases progress.known with start | before
        · rwa [start]
        · exact newest _ before
  begun := progress.begun
  known := progress.known.imp_right (List.mem_append_left _)
  acked := progress.acked.imp_right (List.mem_append_left _)
  pending := by
    have pending := progress.pending
    split at pending
    next => exact pending
    next => exact pending
    next => exact ⟨pending.1, pending.2.append_log newest⟩
    next => exact ⟨pending.1, pending.2.1, pending.2.2.append_log newest⟩

theorem Progress.poll
    (progress : Progress committed log stored acks jrCursor ⟨nextId, lastCommitted, .polling⟩ journaled)
    (ordered : stored.Pairwise (· < ·)) (logged : ∀ id ∈ stored, id ∈ log) {envs : List Envelope}
    {maxN : Nat} (read : ids envs = (stored.filter (nextId ≤ ·)).take maxN) :
    Progress committed log stored acks jrCursor ⟨nextId, lastCommitted, .appending envs [] none⟩
      journaled where
  kept := progress.kept
  begun := progress.begun
  known := progress.known
  acked := progress.acked
  pending := by
    refine ⟨progress.pending, ?_⟩
    change Next log (nextId - 1) _ _
    have complete : Covers log (nextId - 1) (· ∈ journaled) stored := by
      apply Covers.of_complete ordered
      intro id member above
      rcases progress.kept id member (lt_of_le_of_lt progress.begun above) with done | ⟨inside, _⟩
      · exact .inr done
      · exact .inl inside
    have next := complete.next logged maxN
    simp only [Int.sub_one_lt_iff] at next
    rw [read]
    exact next.weaken fun id done => .inl done

theorem Progress.drain
    (progress : Progress committed log stored acks jrCursor ⟨nextId, lastCommitted, .draining⟩ journaled)
    {envs : List Envelope} (next : Next log jrCursor (· ∈ journaled) (ids envs)) :
    Progress committed log stored acks jrCursor ⟨nextId, lastCommitted, .appending envs [] none⟩
      journaled where
  kept := progress.kept
  begun := progress.begun
  known := progress.known
  acked := progress.acked
  pending := by
    have here : jrCursor = position ⟨nextId, lastCommitted, .draining⟩ := progress.pending
    refine ⟨here, ?_⟩
    rw [here] at next
    exact next.weaken fun id done => .inl done

theorem Progress.append
    (progress : Progress committed log stored acks jrCursor
      ⟨nextId, lastCommitted, .appending (env :: rest) skipped lastBid⟩ journaled) :
    Progress committed log stored acks jrCursor
      ⟨nextId, lastCommitted, .marking env rest skipped lastBid⟩ (journaled ++ [env.batchId]) where
  kept id member above :=
    (progress.kept id member above).imp_left (List.mem_append_left _)
  begun := progress.begun
  known := progress.known
  acked := progress.acked
  pending := by
    obtain ⟨behind, next⟩ := progress.pending
    refine ⟨behind, by simp, ?_⟩
    exact next.weaken fun id done => done.imp_left (List.mem_append_left _)

theorem Progress.appendFails
    (progress : Progress committed log stored acks jrCursor
      ⟨nextId, lastCommitted, .appending (env :: rest) skipped lastBid⟩ journaled) :
    Progress committed log stored acks jrCursor
      ⟨nextId, lastCommitted, .appending rest (skipped ++ [env]) lastBid⟩ journaled where
  kept := progress.kept
  begun := progress.begun
  known := progress.known
  acked := progress.acked
  pending := by
    obtain ⟨behind, next⟩ := progress.pending
    refine ⟨behind, ?_⟩
    have more : Next log (position ⟨nextId, lastCommitted, .polling⟩)
        (fun id => id ∈ journaled ∨ id ∈ ids (skipped ++ [env])) (ids (env :: rest)) := by
      apply next.weaken
      intro id done
      rw [ids, List.map_append]
      exact done.imp_right (List.mem_append_left _)
    exact more.skip (.inr (by simp))

theorem Progress.overtaken
    (progress : Progress committed log stored acks jrCursor
      ⟨nextId, lastCommitted, .marking env rest skipped lastBid⟩ journaled)
    (covered : ∀ id ∈ ids skipped, id ∈ journaled) {id : Int} (member : id ∈ log)
    (above : committed < id) : id ∈ journaled ∨ id ∈ stored ∧ env.batchId < id := by
  obtain ⟨_, appended, next⟩ := progress.pending
  rcases progress.kept id member above with done | ⟨inside, _, waiting⟩
  · exact .inl done
  · rcases lt_trichotomy id env.batchId with less | same | greater
    · rcases next.before_head member waiting less with done | failed
      · exact .inl done
      · exact .inl (covered id failed)
    · exact .inl (same ▸ appended)
    · exact .inr ⟨inside, greater⟩

theorem Progress.mark
    (progress : Progress committed log stored acks jrCursor
      ⟨nextId, lastCommitted, .marking env rest skipped lastBid⟩ journaled)
    (covered : ∀ id ∈ ids skipped, id ∈ journaled) {left : List Int}
    (survives : ∀ id ∈ stored, env.batchId < id → id ∈ left ∨ id ∈ journaled) :
    Progress committed log left env.batchId jrCursor
      ⟨env.batchId + 1, env.batchId, .appending rest skipped (some env.batchId)⟩ journaled := by
  obtain ⟨behind, appended, next⟩ := progress.pending
  have pos : position ⟨env.batchId + 1, env.batchId, .appending rest skipped (some env.batchId)⟩ =
      env.batchId := by
    simp [position]
  have above := next.above env.batchId (by simp)
  have member := next.logged env.batchId (by simp)
  refine ⟨?_, ?_, ?_, .inr member, ?_, ?_⟩
  · intro id inLog new
    rw [pos]
    rcases progress.overtaken covered inLog new with done | ⟨inside, later⟩
    · exact .inl done
    · rcases survives id inside later with remains | done
      · exact .inr ⟨remains, later, later⟩
      · exact .inl done
  · rw [pos]
    exact le_of_lt (lt_of_le_of_lt progress.begun above)
  · rw [pos]
    exact .inr member
  · exact ⟨pos, le_of_lt (lt_of_le_of_lt behind.le above)⟩
  · rw [pos]
    exact next.tail

theorem Progress.markFails
    (progress : Progress committed log stored acks jrCursor
      ⟨nextId, lastCommitted, .marking env rest skipped lastBid⟩ journaled)
    (covered : ∀ id ∈ ids skipped, id ∈ journaled) {left : List Int}
    (survives : ∀ id ∈ stored, env.batchId < id → id ∈ left ∨ id ∈ journaled) :
    Progress committed log left env.batchId jrCursor
      ⟨nextId, lastCommitted, .appending [] skipped lastBid⟩ journaled := by
  obtain ⟨behind, appended, next⟩ := progress.pending
  have above := next.above env.batchId (by simp)
  refine ⟨?_, progress.begun, progress.known, .inr (next.logged _ (by simp)), behind, Next.nil⟩
  intro id inLog new
  rcases progress.overtaken covered inLog new with done | ⟨inside, later⟩
  · exact .inl done
  · rcases survives id inside later with remains | done
    · exact .inr ⟨remains, later, lt_trans above later⟩
    · exact .inl done

theorem Progress.unmarked
    (progress : Progress committed log stored acks jrCursor
      ⟨nextId, lastCommitted, .marking env rest skipped lastBid⟩ journaled) :
    Progress committed log stored acks jrCursor
      ⟨nextId, lastCommitted, .appending [] skipped lastBid⟩ journaled :=
  ⟨progress.kept, progress.begun, progress.known, progress.acked, progress.pending.1, Next.nil⟩

theorem Progress.ack
    (progress : Progress committed log stored acks jrCursor
      ⟨nextId, lastCommitted, .appending [] skipped lastBid⟩ journaled) :
    Progress committed log stored acks
      (match lastBid with
        | some batchId => max jrCursor batchId
        | none => jrCursor)
      ⟨nextId, lastCommitted, .polling⟩ journaled := by
  refine ⟨progress.kept, progress.begun, progress.known, progress.acked, ?_⟩
  have behind := progress.pending.1
  cases lastBid with
  | none => exact behind
  | some batchId =>
      obtain ⟨pos, le⟩ := behind
      change max jrCursor batchId = _
      rw [max_eq_right le]
      exact pos.symm

theorem jr_of_pc {pc : JrPc} (here : jr.pc = pc) : jr = ⟨jr.nextId, jr.lastCommitted, pc⟩ := by
  rw [← here]

theorem survives_mark {store : DuckDbEventStore} {batchId now : Int} {fault : Option MarkFault}
    (behind : ∀ id ∈ store.doomed batchId now fault, id ≤ batchId ∨ id ∈ journaled) :
    ∀ id ∈ store.stored, batchId < id →
      id ∈ (store.markCommitted batchId now fault).2.stored ∨ id ∈ journaled := by
  intro id inside later
  by_cases gone : id ∈ store.doomed batchId now fault
  · rcases behind id gone with le | done
    · exact absurd later (not_lt_of_ge le)
    · exact .inr done
  · exact .inl ((store.markCommitted_stored batchId now fault id).mpr ⟨inside, gone⟩)

theorem step_progress {s s' : Pipeline} {a : Action} (logged : s.Logged)
    (progress : Progress committed s.log s.eventStore.stored s.eventStore.lastCommitted
      s.bus.jrCursor s.jr (ids s.journaled))
    (inOrder : JrInOrder s a) (taken : step s a = some s') :
    Progress committed s'.log s'.eventStore.stored s'.eventStore.lastCommitted s'.bus.jrCursor s'.jr
      (ids s'.journaled) := by
  cases a with
  | persist rows producedNs =>
      obtain ⟨_, eventStore, persisted, rfl⟩ := persist_cases taken
      have grown := progress.persist logged.newest
      rw [← persist_stored persisted, ← persist_batchId persisted,
        ← persist_lastCommitted persisted] at grown
      exact grown
  | insert batchId =>
      obtain ⟨_, _, _, rfl⟩ := insert_cases taken
      exact progress
  | dhDrain =>
      obtain ⟨_, rfl | rfl⟩ := dhDrain_cases taken <;> exact progress
  | dhWrite ok =>
      obtain ⟨_, _, _, _, ⟨_, rfl⟩ | ⟨_, rfl⟩⟩ := dhWrite_cases taken <;> exact progress
  | dhAck =>
      obtain ⟨_, _, rfl⟩ := dhAck_cases taken
      have same : (if 0 ≤ s.dh.last then s.bus.ackDh s.dh.last else s.bus).jrCursor =
          s.bus.jrCursor := by
        split_ifs
        · rfl
        · rfl
      rw [same]
      exact progress
  | jrPoll =>
      obtain ⟨polling, ⟨_, rfl⟩ | rfl⟩ := jrPoll_cases taken
      · rw [jr_of_pc polling] at progress
        exact ⟨progress.kept, progress.begun, progress.known, progress.acked, progress.pending⟩
      · rw [jr_of_pc polling] at progress
        exact progress.poll s.eventStore.stored_ordered logged.stored (s.eventStore.ids_nextFrom _ _)
  | jrDrain =>
      obtain ⟨draining, rfl | rfl⟩ := jrDrain_cases taken
      · rw [jr_of_pc draining] at progress
        exact ⟨progress.kept, progress.begun, progress.known, progress.acked, progress.pending⟩
      · rw [jr_of_pc draining] at progress
        exact progress.drain (drain_next logged inOrder (by decide))
  | jrAppend ok =>
      obtain ⟨env, rest, skipped, lastBid, appending, ⟨_, rfl⟩ | ⟨_, rfl⟩⟩ := jrAppend_cases taken
      · rw [jr_of_pc appending] at progress
        simpa [ids] using progress.append
      · rw [jr_of_pc appending] at progress
        exact progress.appendFails
  | jrMark now fault =>
      obtain ⟨env, rest, skipped, lastBid, marking, outcome⟩ := jrMark_cases taken
      rw [jr_of_pc marking] at progress
      have condition : fault = some .update ∨ (∀ id ∈ ids skipped, id ∈ ids s.journaled) ∧
          ∀ id ∈ s.eventStore.doomed env.batchId now fault,
            id ≤ env.batchId ∨ id ∈ ids s.journaled := by
        simpa [JrInOrder, marking] using inOrder
      by_cases failed : fault = some .update
      · rcases outcome with ⟨moved, _⟩ | ⟨_, rfl⟩
        · exact absurd failed moved
        · subst failed
          exact progress.unmarked
      · obtain ⟨covered, behind⟩ := condition.resolve_left failed
        have pointer := s.eventStore.markCommitted_lastCommitted env.batchId now fault
        rw [if_neg failed] at pointer
        rcases outcome with ⟨_, rfl⟩ | ⟨_, rfl⟩
        · simp only [pointer]
          exact progress.mark covered (survives_mark behind)
        · simp only [pointer]
          exact progress.markFails covered (survives_mark behind)
  | jrAck =>
      obtain ⟨skipped, lastBid, appending, rfl⟩ := jrAck_cases taken
      rw [jr_of_pc appending] at progress
      have acked := progress.ack
      cases lastBid with
      | none => exact acked
      | some batchId => exact acked

theorem reaches_progress {eventStore : DuckDbEventStore} {maxEnvelopes dhStart : Int} {s : Pipeline}
    (reached : Reaches step JrInOrder (.start eventStore maxEnvelopes dhStart) s) :
    Progress eventStore.lastCommitted s.log s.eventStore.stored s.eventStore.lastCommitted
      s.bus.jrCursor s.jr (ids s.journaled) := by
  have both : s.Logged ∧ Progress eventStore.lastCommitted s.log s.eventStore.stored
      s.eventStore.lastCommitted s.bus.jrCursor s.jr (ids s.journaled) := by
    apply reached.invariant fun s => s.Logged ∧ Progress eventStore.lastCommitted s.log
      s.eventStore.stored s.eventStore.lastCommitted s.bus.jrCursor s.jr (ids s.journaled)
    · exact ⟨start_logged eventStore maxEnvelopes dhStart, Progress.start eventStore⟩
    · intro s a s' ⟨logged, progress⟩ inOrder taken
      exact ⟨step_logged logged taken, step_progress logged progress inOrder taken⟩
  exact both.2

-- The envelope waits in the store, and a read from `next_id` gets to it.
def Waits (s : Pipeline) (id : Int) : Prop :=
  id ∈ s.eventStore.stored ∧ s.eventStore.lastCommitted < id ∧ s.jr.nextId ≤ id ∧
    ∀ maxN, s.eventStore.stored.length ≤ maxN → id ∈ ids (s.eventStore.nextFrom s.jr.nextId maxN)

theorem none_lost {eventStore : DuckDbEventStore} {maxEnvelopes dhStart : Int} {s : Pipeline}
    (ahead : eventStore.lastCommitted < eventStore.con.eventStoreSeq)
    (reached : Reaches step JrInOrder (.start eventStore maxEnvelopes dhStart) s) :
    ∀ id ∈ s.published, id ∉ eventStore.stored ∨ eventStore.lastCommitted < id →
      id ∈ ids s.journaled ∨ Waits s id := by
  have progress := reaches_progress reached
  intro id published new
  have member : id ∈ s.log := (List.mem_filter.mp published).1
  have above : eventStore.lastCommitted < id := by
    rcases new with absent | above
    · rcases stored_or_new reached id member with inside | later
      · exact absurd inside absent
      · exact lt_of_lt_of_le ahead later
    · exact above
  rcases progress.kept id member above with done | ⟨inside, uncommitted, waiting⟩
  · exact .inl done
  · have next : s.jr.nextId ≤ id := Int.sub_one_lt_iff.mp waiting
    refine .inr ⟨inside, uncommitted, next, ?_⟩
    intro maxN room
    exact mem_nextFrom inside next room

-- The append of batch 1 fails, and the commit of batch 1 fails the next time.
theorem none_lost_retried :
    ∃ s, Reaches step JrInOrder (.start (connect .new {}) 100000 0) s ∧ s.published = [1, 2] ∧
      ids s.journaled = [1, 1] ∧
      ∀ id ∈ s.published, id ∉ (connect .new {}).stored ∨ (connect .new {}).lastCommitted < id →
        id ∈ ids s.journaled ∨ Waits s id := by
  obtain ⟨s, reached, last⟩ := reaches_allowed_of_check step JrInOrder
    (.start (connect .new {}) 100000 0)
    [.persist [] 0, .insert 1, .jrPoll, .jrAppend false, .jrAck, .persist [] 1, .insert 2, .jrPoll,
      .jrAppend true, .jrMark 0 (some .update), .jrAck, .jrPoll, .jrAppend true, .jrMark 1 none]
    (fun s => s.published = [1, 2] ∧ ids s.journaled = [1, 1]) (by decide +kernel) (by decide +kernel)
  obtain ⟨published, journaled⟩ := of_decide_eq_true last
  exact ⟨s, reached, published, journaled, none_lost (by decide) reached⟩

-- The append of batch 1 fails, and the commit of batch 2 moves the pointer and `next_id` over it.
theorem commit_passes_failed_append :
    ∃ s, Reaches step anyStep (.start (connect .new {}) 100000 0) s ∧ s.published = [1, 2] ∧
      ids s.journaled = [2] ∧ s.jr.nextId = 3 ∧
      ¬ ∀ id ∈ s.published, id ∉ (connect .new {}).stored ∨ (connect .new {}).lastCommitted < id →
        id ∈ ids s.journaled ∨ Waits s id := by
  obtain ⟨s, reached, last⟩ := reaches_of_check step (.start (connect .new {}) 100000 0)
    [.persist [] 0, .insert 1, .persist [] 1, .insert 2, .jrPoll, .jrAppend false, .jrAppend true,
      .jrMark 0 none]
    (fun s => s.published = [1, 2] ∧ ids s.journaled = [2] ∧ s.jr.nextId = 3) (by decide +kernel)
  obtain ⟨published, journaled, next⟩ := of_decide_eq_true last
  refine ⟨s, reached, published, journaled, next, ?_⟩
  intro kept
  rcases kept 1 (by simp [published]) (.inr (by decide)) with done | waits
  · simp [journaled] at done
  · have waiting := waits.2.2.1
    rw [next] at waiting
    exact absurd waiting (by decide)

end DeepFeeder.JournalProgress
