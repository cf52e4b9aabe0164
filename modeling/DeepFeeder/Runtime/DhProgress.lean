import DeepFeeder.Runtime.PipelineLog

set_option autoImplicit false

namespace DeepFeeder.DhProgress

open Transition Pipeline OrderedLog EventBus DuckDbEventStore

def skippedOf : DhPc → List Envelope
  | .polling => []
  | .writing _ skipped => skipped

-- A drain reads a source with no gap, and no write succeeds after a failed one of the same batch.
def DhInOrder (s : Pipeline) : Action → Prop
  | .dhDrain => Covers s.log s.bus.dhCursor (fun _ => False) (s.source s.bus.dhCursor)
  | .dhWrite true => skippedOf s.dh.pc = []
  | _ => True

instance (s : Pipeline) (a : Action) : Decidable (DhInOrder s a) :=
  match a with
  | .dhDrain => inferInstanceAs (Decidable (Covers _ _ _ _))
  | .dhWrite true => inferInstanceAs (Decidable (skippedOf s.dh.pc = []))
  | .dhWrite false | .persist _ _ | .insert _ | .dhAck | .jrPoll | .jrDrain | .jrAppend _
  | .jrMark _ _ | .jrAck => isTrue trivial

def position (cursor : Int) (dh : DhLoop) : Int := if 0 ≤ dh.last then max cursor dh.last else cursor

structure Progress (dhStart : Int) (log : List Int) (cursor : Int) (dh : DhLoop)
    (written : List Int) : Prop where
  handled : Handled log dhStart (position cursor dh) written
  known : position cursor dh = dhStart ∨ position cursor dh ∈ log
  pending : match dh.pc with
    | .polling => cursor = position cursor dh
    | .writing rest skipped =>
        skipped = [] → Next log (position cursor dh) (fun _ => False) (ids rest)

variable {dhStart cursor last : Int} {log written : List Int} {dh : DhLoop}

theorem le_position (cursor : Int) (dh : DhLoop) : cursor ≤ position cursor dh := by
  unfold position
  split_ifs
  · exact le_max_left cursor dh.last
  · exact le_refl cursor

theorem Progress.start (dhStart : Int) (log : List Int) :
    Progress dhStart log dhStart { last := -1, pc := .polling } [] where
  handled :=
    { ascending := List.Pairwise.nil
      upto := by simp
      complete := by
        intro id _ above le
        exact absurd le (not_le_of_gt above) }
  known := .inl rfl
  pending := rfl

theorem Progress.persist (progress : Progress dhStart log cursor dh written) {new : Int}
    (newest : ∀ id ∈ log, id < new) : Progress dhStart (log ++ [new]) cursor dh written where
  handled := by
    apply progress.handled.append_log
    rcases progress.known with start | member
    · rw [start]
      exact le_or_gt new dhStart
    · exact .inr (newest _ member)
  known := progress.known.imp_right (List.mem_append_left _)
  pending := by
    have pending := progress.pending
    split at pending
    next => exact pending
    next =>
      intro none
      exact (pending none).append_log newest

theorem Progress.drain (progress : Progress dhStart log cursor ⟨last, .polling⟩ written)
    {envs : List Envelope} (next : Next log cursor (fun _ => False) (ids envs)) :
    Progress dhStart log cursor ⟨last, .writing envs []⟩ written where
  handled := progress.handled
  known := progress.known
  pending := by
    intro _
    change Next log (position cursor ⟨last, .polling⟩) _ _
    rw [← progress.pending]
    exact next

theorem Progress.write {env : Envelope} {rest : List Envelope}
    (progress : Progress dhStart log cursor ⟨last, .writing (env :: rest) []⟩ written)
    (positive : ∀ id ∈ log, 1 ≤ id) :
    Progress dhStart log cursor ⟨env.batchId, .writing rest []⟩ (written ++ [env.batchId]) := by
  have next := progress.pending rfl
  have member : env.batchId ∈ log := next.logged _ (by simp)
  have above : cursor < env.batchId :=
    lt_of_le_of_lt (le_position cursor _) (next.above _ (by simp))
  have moved : position cursor ⟨env.batchId, .writing rest []⟩ = env.batchId := by
    have := positive _ member
    unfold position
    rw [if_pos (by simp only; omega)]
    exact max_eq_right (le_of_lt above)
  refine ⟨?_, ?_, ?_⟩
  · rw [moved]
    exact progress.handled.advance next
  · rw [moved]
    exact .inr member
  · intro _
    rw [moved]
    exact next.tail

theorem Progress.fail {env : Envelope} {rest skipped : List Envelope}
    (progress : Progress dhStart log cursor ⟨last, .writing (env :: rest) skipped⟩ written) :
    Progress dhStart log cursor ⟨last, .writing rest (skipped ++ [env])⟩ written where
  handled := progress.handled
  known := progress.known
  pending none := by simp at none

theorem Progress.ack {skipped : List Envelope}
    (progress : Progress dhStart log cursor ⟨last, .writing [] skipped⟩ written) :
    Progress dhStart log (position cursor ⟨last, .polling⟩) ⟨last, .polling⟩ written := by
  have acked : position (position cursor ⟨last, .polling⟩) ⟨last, .polling⟩ =
      position cursor ⟨last, .polling⟩ := by
    unfold position
    split_ifs <;> simp
  refine ⟨?_, ?_, acked.symm⟩
  · rw [acked]
    exact progress.handled
  · rw [acked]
    exact progress.known

theorem dh_of_pc {pc : DhPc} (here : dh.pc = pc) : dh = ⟨dh.last, pc⟩ := by
  rw [← here]

theorem step_progress {s s' : Pipeline} {a : Action} (logged : s.Logged)
    (progress : Progress dhStart s.log s.bus.dhCursor s.dh (ids s.written))
    (inOrder : DhInOrder s a) (taken : step s a = some s') :
    Progress dhStart s'.log s'.bus.dhCursor s'.dh (ids s'.written) := by
  cases a with
  | persist rows producedNs =>
      obtain ⟨_, _, persisted, rfl⟩ := persist_cases taken
      have newest := logged.newest
      rw [← persist_batchId persisted] at newest
      exact progress.persist newest
  | insert batchId =>
      obtain ⟨env, _, _, rfl⟩ := insert_cases taken
      exact progress
  | dhDrain =>
      obtain ⟨polling, rfl | rfl⟩ := dhDrain_cases taken
      · exact progress
      · rw [dh_of_pc polling] at progress
        exact progress.drain (drain_next logged inOrder (by decide))
  | dhWrite ok =>
      obtain ⟨env, rest, skipped, writing, ⟨rfl, rfl⟩ | ⟨rfl, rfl⟩⟩ := dhWrite_cases taken
      · have none : skipped = [] := by simpa [DhInOrder, skippedOf, writing] using inOrder
        rw [dh_of_pc writing, none] at progress
        have wrote := progress.write logged.positive
        rw [none]
        simpa [ids] using wrote
      · rw [dh_of_pc writing] at progress
        exact progress.fail
  | dhAck =>
      obtain ⟨skipped, writing, rfl⟩ := dhAck_cases taken
      rw [dh_of_pc writing] at progress
      have acked : (if 0 ≤ s.dh.last then s.bus.ackDh s.dh.last else s.bus).dhCursor =
          position s.bus.dhCursor ⟨s.dh.last, .polling⟩ := by
        unfold position
        split_ifs
        · rfl
        · rfl
      rw [acked]
      exact progress.ack
  | jrPoll =>
      obtain ⟨_, ⟨_, rfl⟩ | rfl⟩ := jrPoll_cases taken <;> exact progress
  | jrDrain =>
      obtain ⟨_, rfl | rfl⟩ := jrDrain_cases taken <;> exact progress
  | jrAppend ok =>
      obtain ⟨_, _, _, _, _, ⟨_, rfl⟩ | ⟨_, rfl⟩⟩ := jrAppend_cases taken <;> exact progress
  | jrMark now fault =>
      obtain ⟨_, _, _, _, _, ⟨_, rfl⟩ | ⟨_, rfl⟩⟩ := jrMark_cases taken <;> exact progress
  | jrAck =>
      obtain ⟨_, lastBid, _, rfl⟩ := jrAck_cases taken
      cases lastBid <;> exact progress

theorem reaches_progress {eventStore : DuckDbEventStore} {maxEnvelopes : Int} {s : Pipeline}
    (reached : Reaches step DhInOrder (.start eventStore maxEnvelopes dhStart) s) :
    s.Logged ∧ Progress dhStart s.log s.bus.dhCursor s.dh (ids s.written) := by
  apply reached.invariant fun s =>
    s.Logged ∧ Progress dhStart s.log s.bus.dhCursor s.dh (ids s.written)
  · exact ⟨start_logged eventStore maxEnvelopes dhStart, Progress.start dhStart _⟩
  · intro s a s' ⟨logged, progress⟩ inOrder taken
    exact ⟨step_logged logged taken, step_progress logged progress inOrder taken⟩

theorem written_upto_cursor {eventStore : DuckDbEventStore} {maxEnvelopes : Int} {s : Pipeline}
    (reached : Reaches step DhInOrder (.start eventStore maxEnvelopes dhStart) s) :
    ∀ id ∈ s.log, dhStart < id → id ≤ s.bus.dhCursor → id ∈ ids s.written := by
  obtain ⟨_, progress⟩ := reaches_progress reached
  intro id member above le
  exact progress.handled.complete id member above (le_trans le (le_position _ _))

-- The write of batch 1 fails and is made again with the next drain.
theorem written_upto_cursor_retried :
    ∃ s, Reaches step DhInOrder (.start (connect .new {}) 100000 0) s ∧ s.log = [1, 2] ∧
      s.bus.dhCursor = 2 ∧ ∀ id ∈ s.log, 0 < id → id ≤ s.bus.dhCursor → id ∈ ids s.written := by
  obtain ⟨s, reached, last⟩ := reaches_allowed_of_check step DhInOrder
    (.start (connect .new {}) 100000 0)
    [.persist [] 0, .insert 1, .dhDrain, .dhWrite false, .dhAck, .persist [] 1, .insert 2, .dhDrain,
      .dhWrite true, .dhWrite true, .dhAck]
    (fun s => s.log = [1, 2] ∧ s.bus.dhCursor = 2) (by decide +kernel) (by decide +kernel)
  obtain ⟨log, cursor⟩ := of_decide_eq_true last
  exact ⟨s, reached, log, cursor, written_upto_cursor reached⟩

-- The write of batch 1 fails, that of batch 2 succeeds, and the acknowledgement passes both.
theorem ack_passes_failed_write :
    ∃ s, Reaches step anyStep (.start (connect .new {}) 100000 0) s ∧ s.bus.dhCursor = 2 ∧
      ids s.written = [2] ∧
      ¬ ∀ id ∈ s.published, 0 < id → id ≤ s.bus.dhCursor → id ∈ ids s.written := by
  obtain ⟨s, reached, last⟩ := reaches_of_check step (.start (connect .new {}) 100000 0)
    [.persist [] 0, .insert 1, .persist [] 1, .insert 2, .dhDrain, .dhWrite false, .dhWrite true,
      .dhAck]
    (fun s => s.bus.dhCursor = 2 ∧ ids s.written = [2] ∧
      ¬ ∀ id ∈ s.published, 0 < id → id ≤ s.bus.dhCursor → id ∈ ids s.written) (by decide +kernel)
  exact ⟨s, reached, of_decide_eq_true last⟩

end DeepFeeder.DhProgress
