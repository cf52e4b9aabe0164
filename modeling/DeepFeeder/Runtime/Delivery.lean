import DeepFeeder.Runtime.DhProgress
import DeepFeeder.Runtime.JournalProgress

set_option autoImplicit false

namespace DeepFeeder.Delivery

open Transition Pipeline OrderedLog EventBus DuckDbEventStore
open DhProgress (DhInOrder)
open JournalProgress (JrInOrder position)

def NoFailures (s : Pipeline) : Action → Prop
  | .dhWrite ok | .jrAppend ok => ok = true
  | .jrMark now fault => match s.jr.pc with
      | .marking env _ _ _ => (s.eventStore.markCommitted env.batchId now fault).1 = .ok ()
      | _ => True
  | _ => True

instance (s : Pipeline) (a : Action) : Decidable (NoFailures s a) :=
  match a with
  | .dhWrite ok | .jrAppend ok => inferInstanceAs (Decidable (ok = true))
  | .jrMark now fault =>
      match here : s.jr.pc with
      | .marking env _ _ _ =>
          match outcome : (s.eventStore.markCommitted env.batchId now fault).1 with
          | .ok () => isTrue (by simp [NoFailures, here, outcome])
          | .error _ => isFalse (by simp [NoFailures, here, outcome])
      | .polling | .draining | .appending _ _ _ => isTrue (by simp [NoFailures, here])
  | .persist _ _ | .insert _ | .dhDrain | .dhAck | .jrPoll | .jrDrain | .jrAck => isTrue trivial

def InOrder (s : Pipeline) (a : Action) : Prop := NoFailures s a ∧ DhInOrder s a ∧ JrInOrder s a

instance (s : Pipeline) (a : Action) : Decidable (InOrder s a) :=
  inferInstanceAs (Decidable (NoFailures s a ∧ DhInOrder s a ∧ JrInOrder s a))

-- Neither consumer has gone past a published envelope without handling it, and each has handled its
-- envelopes once and in ascending order.
structure Delivered (dhStart committed : Int) (s : Pipeline) : Prop where
  written : ∀ id ∈ s.published, dhStart < id → id ≤ s.bus.dhCursor → id ∈ ids s.written
  writtenOnce : (ids s.written).Pairwise (· < ·)
  journaled : ∀ id ∈ s.published, committed < id → id ≤ s.bus.jrCursor ∨ id < s.jr.nextId →
    id ∈ ids s.journaled
  journaledOnce : (ids s.journaled).Pairwise (· < ·)

def reach (jr : JrLoop) : Int :=
  match jr.pc with
  | .marking env _ _ _ => env.batchId
  | _ => position jr

structure Once (jr : JrLoop) (journaled : List Int) : Prop where
  ascending : journaled.Pairwise (· < ·)
  upto : ∀ id ∈ journaled, id ≤ reach jr

variable {committed acks jrCursor : Int} {log stored journaled : List Int}

theorem Once.append {nextId lastCommitted : Int} {env : Envelope} {rest skipped : List Envelope}
    {lastBid : Option Int}
    (once : Once ⟨nextId, lastCommitted, .appending (env :: rest) skipped lastBid⟩ journaled)
    (above : position ⟨nextId, lastCommitted, .appending (env :: rest) skipped lastBid⟩ <
      env.batchId) :
    Once ⟨nextId, lastCommitted, .marking env rest skipped lastBid⟩ (journaled ++ [env.batchId]) where
  ascending := by
    rw [List.pairwise_append]
    refine ⟨once.ascending, by simp, ?_⟩
    intro id old last inserted
    rw [List.mem_singleton] at inserted
    rw [inserted]
    exact lt_of_le_of_lt (once.upto id old) above
  upto := by
    intro id member
    rcases List.mem_append.mp member with old | last
    · exact le_of_lt (lt_of_le_of_lt (once.upto id old) above)
    · exact le_of_eq (List.mem_singleton.mp last)

theorem step_once {s s' : Pipeline} {a : Action} (once : Once s.jr (ids s.journaled))
    (progress : JournalProgress.Progress committed s.log s.eventStore.stored
      s.eventStore.lastCommitted s.bus.jrCursor s.jr (ids s.journaled))
    (healthy : NoFailures s a) (taken : step s a = some s') : Once s'.jr (ids s'.journaled) := by
  cases a with
  | persist rows producedNs =>
      obtain ⟨_, _, _, rfl⟩ := persist_cases taken
      exact once
  | insert batchId =>
      obtain ⟨_, _, _, rfl⟩ := insert_cases taken
      exact once
  | dhDrain =>
      obtain ⟨_, rfl | rfl⟩ := dhDrain_cases taken <;> exact once
  | dhWrite ok =>
      obtain ⟨_, _, _, _, ⟨_, rfl⟩ | ⟨_, rfl⟩⟩ := dhWrite_cases taken <;> exact once
  | dhAck =>
      obtain ⟨_, _, rfl⟩ := dhAck_cases taken
      exact once
  | jrPoll =>
      obtain ⟨polling, ⟨_, rfl⟩ | rfl⟩ := jrPoll_cases taken <;>
        exact ⟨once.ascending, by simpa [reach, position, polling] using once.upto⟩
  | jrDrain =>
      obtain ⟨draining, rfl | rfl⟩ := jrDrain_cases taken <;>
        exact ⟨once.ascending, by simpa [reach, position, draining] using once.upto⟩
  | jrAppend ok =>
      obtain ⟨env, rest, skipped, lastBid, appending, ⟨_, rfl⟩ | ⟨failed, _⟩⟩ :=
        jrAppend_cases taken
      · rw [JournalProgress.jr_of_pc appending] at once progress
        have appended := once.append (progress.pending.2.above _ (by simp))
        simpa [ids] using appended
      · simp [NoFailures, failed] at healthy
  | jrMark now fault =>
      obtain ⟨env, rest, skipped, lastBid, marking, ⟨_, rfl⟩ | ⟨⟨e, failed⟩, _⟩⟩ :=
        jrMark_cases taken
      · refine ⟨once.ascending, ?_⟩
        simpa [reach, position, marking] using once.upto
      · simp [NoFailures, marking, failed] at healthy
  | jrAck =>
      obtain ⟨_, _, appending, rfl⟩ := jrAck_cases taken
      exact ⟨once.ascending, by simpa [reach, appending, position] using once.upto⟩

theorem reaches_once {eventStore : DuckDbEventStore} {maxEnvelopes dhStart : Int} {s : Pipeline}
    (reached : Reaches step InOrder (.start eventStore maxEnvelopes dhStart) s) :
    Once s.jr (ids s.journaled) := by
  induction reached with
  | refl => exact ⟨List.Pairwise.nil, by simp [Pipeline.start]⟩
  | tail before inOrder taken ih =>
      have progress := JournalProgress.reaches_progress (before.mono fun _ _ inOrder => inOrder.2.2)
      exact step_once ih progress inOrder.1 taken

theorem cursor_le_position {jr : JrLoop}
    (progress : JournalProgress.Progress committed log stored acks jrCursor jr journaled) :
    jrCursor ≤ position jr := by
  have pending := progress.pending
  split at pending
  next => exact le_of_eq pending
  next => exact le_of_eq pending
  next => exact pending.1.le
  next => exact pending.1.le

theorem delivered {eventStore : DuckDbEventStore} {maxEnvelopes dhStart : Int} {s : Pipeline}
    (reached : Reaches step InOrder (.start eventStore maxEnvelopes dhStart) s) :
    Delivered dhStart eventStore.lastCommitted s := by
  have ⟨_, dh⟩ := DhProgress.reaches_progress (reached.mono fun _ _ inOrder => inOrder.2.1)
  have jr := JournalProgress.reaches_progress (reached.mono fun _ _ inOrder => inOrder.2.2)
  have once := reaches_once reached
  refine ⟨?_, dh.handled.ascending, ?_, once.ascending⟩
  · intro id published above le
    have member := (List.mem_filter.mp published).1
    exact dh.handled.complete id member above (le_trans le (DhProgress.le_position _ _))
  · intro id published above passed
    have member := (List.mem_filter.mp published).1
    rcases jr.kept id member above with done | ⟨_, _, waiting⟩
    · exact done
    · rcases passed with le | less
      · exact absurd waiting (not_lt_of_ge (le_trans le (cursor_le_position jr)))
      · unfold position at waiting
        omega

theorem delivered_two_publishers :
    ∃ s, Reaches step InOrder (.start (connect .new {}) 100000 0) s ∧ s.published = [1, 2] ∧
      s.bus.dhCursor = 2 ∧ s.bus.jrCursor = 2 ∧ Delivered 0 (connect .new {}).lastCommitted s := by
  obtain ⟨s, reached, last⟩ := reaches_allowed_of_check step InOrder
    (.start (connect .new {}) 100000 0)
    [.persist [] 0, .persist [] 1, .jrPoll, .insert 1, .jrAppend true, .insert 2, .dhDrain,
      .dhWrite true, .jrMark 0 none, .dhWrite true, .jrAppend true, .dhAck, .jrMark 1 none, .jrAck]
    (fun s => s.published = [1, 2] ∧ s.bus.dhCursor = 2 ∧ s.bus.jrCursor = 2)
    (by decide +kernel) (by decide +kernel)
  obtain ⟨published, dhCursor, jrCursor⟩ := of_decide_eq_true last
  exact ⟨s, reached, published, dhCursor, jrCursor, delivered reached⟩

-- Batch 2 enters the ring first and is acknowledged before batch 1 is there.
theorem ack_passes_late_insert :
    ∃ s, Reaches step NoFailures (.start (connect .new {}) 100000 0) s ∧ s.published = [1, 2] ∧
      s.bus.dhCursor = 2 ∧ ids s.written = [2] ∧
      ¬ Delivered 0 (connect .new {}).lastCommitted s := by
  obtain ⟨s, reached, last⟩ := reaches_allowed_of_check step NoFailures
    (.start (connect .new {}) 100000 0)
    [.persist [] 0, .persist [] 1, .insert 2, .dhDrain, .dhWrite true, .dhAck, .insert 1]
    (fun s => s.published = [1, 2] ∧ s.bus.dhCursor = 2 ∧ ids s.written = [2])
    (by decide +kernel) (by decide +kernel)
  obtain ⟨published, cursor, written⟩ := of_decide_eq_true last
  refine ⟨s, reached, published, cursor, written, ?_⟩
  intro all
  have wrote := all.written 1 (by simp [published]) (by decide) (by simp [cursor])
  simp [written] at wrote

end DeepFeeder.Delivery
