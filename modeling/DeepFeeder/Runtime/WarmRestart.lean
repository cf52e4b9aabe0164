import DeepFeeder.Storage.JournalMerge
import DeepFeeder.Runtime.Restarts
import DeepFeeder.Runtime.DhProgress

set_option autoImplicit false

namespace DeepFeeder.Restarts

open Transition Pipeline OrderedLog AtLeastOnce DuckDbEventStore
open DhProgress (DhInOrder)

-- The DH cursor of a start-up; a warm replay that has returned leaves the commit pointer there.
def startDhCursor (replayed : Bool) (lastCommitted : Int) (journal : DuckDbJournal) : Int :=
  let journal :=
    if replayed then journal.setWatermark lastCommitted "dh_consumer:cursor" else journal
  journal.getWatermark "dh_consumer:cursor"

theorem startDhCursor_replayed (lastCommitted : Int) (journal : DuckDbJournal) :
    startDhCursor true lastCommitted journal = lastCommitted := by
  rw [startDhCursor, if_pos rfl, DuckDbJournal.getWatermark_setWatermark, if_pos rfl]

-- Each process starts its DH cursor at the commit pointer.
def HandsOver (s : Processes) (e : Event) : Prop :=
  InOrder s e ∧ match e with
    | .act a => DhInOrder s.pipeline a
    | .restart _ _ dhStart => dhStart = s.pipeline.eventStore.lastCommitted

instance (s : Processes) (e : Event) : Decidable (HandsOver s e) :=
  match e with
  | .act a => inferInstanceAs (Decidable (InOrder s (.act a) ∧ DhInOrder s.pipeline a))
  | .restart retention maxEnvelopes dhStart =>
      inferInstanceAs (Decidable (InOrder s (.restart retention maxEnvelopes dhStart) ∧
        dhStart = s.pipeline.eventStore.lastCommitted))

structure After (dhStart : Int) (s : Pipeline) : Prop where
  cursor : dhStart ≤ s.bus.dhCursor
  written : ∀ id ∈ ids s.written, dhStart < id

variable {dhStart : Int}

theorem After.step {s s' : Pipeline} {a : Action} (after : After dhStart s)
    (progress : DhProgress.Progress dhStart s.log s.bus.dhCursor s.dh (ids s.written))
    (inOrder : DhInOrder s a) (taken : Pipeline.step s a = some s') : After dhStart s' := by
  cases a with
  | persist rows producedNs =>
      obtain ⟨_, _, _, rfl⟩ := persist_cases taken
      exact ⟨after.cursor, after.written⟩
  | insert batchId =>
      obtain ⟨_, _, _, rfl⟩ := insert_cases taken
      exact ⟨after.cursor, after.written⟩
  | dhDrain =>
      obtain ⟨_, rfl | rfl⟩ := dhDrain_cases taken <;> exact ⟨after.cursor, after.written⟩
  | dhWrite ok =>
      obtain ⟨env, rest, skipped, writing, ⟨rfl, rfl⟩ | ⟨_, rfl⟩⟩ := dhWrite_cases taken
      next =>
        have none : skipped = [] := by simpa [DhInOrder, DhProgress.skippedOf, writing] using inOrder
        have pending := progress.pending
        rw [writing] at pending
        have above := (pending none).above env.batchId (by simp)
        refine ⟨after.cursor, fun id member => ?_⟩
        rw [ids, List.map_append] at member
        rcases List.mem_append.mp member with old | new
        next => exact after.written id old
        next =>
          rw [List.map_singleton, List.mem_singleton] at new
          rw [new]
          exact lt_of_le_of_lt (le_trans after.cursor (DhProgress.le_position _ _)) above
      next => exact ⟨after.cursor, after.written⟩
  | dhAck =>
      obtain ⟨_, _, rfl⟩ := dhAck_cases taken
      refine ⟨?_, after.written⟩
      change dhStart ≤ (if 0 ≤ s.dh.last then s.bus.ackDh s.dh.last else s.bus).dhCursor
      split_ifs
      next => exact le_trans after.cursor (le_max_left _ _)
      next => exact after.cursor
  | jrPoll =>
      obtain ⟨_, ⟨_, rfl⟩ | rfl⟩ := jrPoll_cases taken <;> exact ⟨after.cursor, after.written⟩
  | jrDrain =>
      obtain ⟨_, rfl | rfl⟩ := jrDrain_cases taken <;> exact ⟨after.cursor, after.written⟩
  | jrAppend ok =>
      obtain ⟨_, _, _, _, _, ⟨_, rfl⟩ | ⟨_, rfl⟩⟩ := jrAppend_cases taken <;>
        exact ⟨after.cursor, after.written⟩
  | jrMark now fault =>
      obtain ⟨_, _, _, _, _, ⟨_, rfl⟩ | ⟨_, rfl⟩⟩ := jrMark_cases taken <;>
        exact ⟨after.cursor, after.written⟩
  | jrAck =>
      obtain ⟨_, lastBid, _, rfl⟩ := jrAck_cases taken
      cases lastBid <;> exact ⟨after.cursor, after.written⟩

/-- What the process found in the journal ends where its DH loop began, except for the envelopes that
were there without a commit. -/
structure HandedOver (dhStart : Int) (s : Processes) : Prop where
  sound : Sound s
  begun : dhStart = 0 ∨ dhStart ∈ s.pipeline.log
  progress : DhProgress.Progress dhStart s.pipeline.log s.pipeline.bus.dhCursor s.pipeline.dh
    (ids s.pipeline.written)
  after : After dhStart s.pipeline
  found : ∀ id ∈ s.pipeline.log, id ≤ dhStart → id ∈ ids s.found
  uncommitted : (ahead (ids s.found) dhStart none).card ≤ s.kills + s.failedMarks

variable {s s' : Processes} {retention : Retention} {maxEnvelopes : Int}

theorem start_handedOver (window : 1 ≤ retention.pruneSafetyBatches) :
    HandedOver 0 (.start retention maxEnvelopes 0) where
  sound := start_sound window
  begun := .inl rfl
  progress := DhProgress.Progress.start 0 _
  after := ⟨le_refl _, fun _ member => by cases member⟩
  found _ member := by cases member
  uncommitted := by simp [ahead, Processes.start]

theorem act_handedOver (handover : HandedOver dhStart s) {a : Action}
    (inOrder : JournalProgress.JrInOrder s.pipeline a) (dhInOrder : DhInOrder s.pipeline a)
    {next : Pipeline} (taken : Pipeline.step s.pipeline a = some next) :
    HandedOver dhStart { s with
      pipeline := next
      failedMarks := s.failedMarks + (marksInVain s.pipeline a).toNat } where
  sound := act_sound handover.sound inOrder taken
  begun := by
    refine handover.begun.imp_right fun member => ?_
    rcases step_log taken with ⟨same, _⟩ | ⟨_, _, _, _, _, rfl⟩
    next => exact same ▸ member
    next => exact List.mem_append_left _ member
  progress := DhProgress.step_progress handover.sound.logged handover.progress dhInOrder taken
  after := handover.after.step handover.progress dhInOrder taken
  found := by
    rcases step_log taken with ⟨same, _⟩ | ⟨_, _, _, _, persisted, rfl⟩
    next =>
      change ∀ id ∈ next.log, _
      rw [same]
      exact handover.found
    next =>
      intro id member le
      rcases List.mem_append.mp member with old | new
      next => exact handover.found id old le
      next =>
        -- A new id is above the start.
        rw [List.mem_singleton.mp new, EventBus.persist_batchId persisted] at le
        have started := s.pipeline.eventStore.con.started
        rcases handover.begun with zero | known
        next => omega
        next =>
          have newest := handover.sound.logged.newest dhStart known
          omega
  uncommitted := by
    have before := handover.uncommitted
    change (ahead (ids s.found) dhStart none).card ≤
      s.kills + (s.failedMarks + (marksInVain s.pipeline a).toNat)
    omega

theorem restart_handedOver (handover : HandedOver dhStart s)
    (window : 1 ≤ retention.pruneSafetyBatches) :
    HandedOver s.pipeline.eventStore.lastCommitted
      (s.restart retention maxEnvelopes s.pipeline.eventStore.lastCommitted) where
  sound := restart_sound handover.sound window
  begun := handover.sound.progress.acked
  progress := DhProgress.Progress.start _ _
  after := ⟨le_refl _, fun _ member => by cases member⟩
  found := by
    intro id member le
    have above : 0 < id := handover.sound.logged.positive id member
    rcases handover.sound.progress.kept id member above with done | ⟨_, later, _⟩
    next => exact done
    next => exact absurd later (not_lt.mpr le)
  uncommitted := by
    have repeats := handover.sound.repeated.repeats.interrupt handover.sound.repeated.pointer
    have fewer := List.toFinset_card_le (ids s.pipeline.journaled)
    unfold Repeats at repeats
    change (ahead (ids s.pipeline.journaled) s.pipeline.eventStore.lastCommitted none).card ≤
      s.kills + 1 + s.failedMarks
    omega

theorem step_handedOver (handover : ∃ dhStart, HandedOver dhStart s) {e : Event}
    (permitted : HandsOver s e) (taken : step s e = some s') : ∃ dhStart, HandedOver dhStart s' := by
  obtain ⟨dhStart, handover⟩ := handover
  cases e with
  | act a =>
      obtain ⟨next, done, rfl⟩ := Option.map_eq_some_iff.mp taken
      exact ⟨dhStart, act_handedOver handover permitted.1 permitted.2 done⟩
  | restart retention maxEnvelopes start =>
      obtain ⟨window, rfl⟩ := permitted
      cases taken
      exact ⟨_, restart_handedOver handover window⟩

/-- After any number of restarts at the commit pointer, every envelope up to the DH cursor was in the
journal when the process started, or its DH loop wrote it, once and in order. One kill or failed commit
puts one envelope on both sides. -/
theorem found_or_written (window : 1 ≤ retention.pruneSafetyBatches)
    (reached : Reaches step HandsOver (.start retention maxEnvelopes 0) s) :
    (∀ id ∈ s.pipeline.log, id ≤ s.pipeline.bus.dhCursor →
        id ∈ ids s.found ∨ id ∈ ids s.pipeline.written) ∧
      (ids s.pipeline.written).Pairwise (· < ·) ∧
      ((ids s.found).toFinset ∩ (ids s.pipeline.written).toFinset).card ≤
        s.kills + s.failedMarks := by
  have invariant : ∃ dhStart, HandedOver dhStart s :=
    reached.invariant (fun s => ∃ dhStart, HandedOver dhStart s) ⟨0, start_handedOver window⟩
      fun _ _ _ handover permitted taken => step_handedOver handover permitted taken
  obtain ⟨dhStart, handover⟩ := invariant
  refine ⟨?_, handover.progress.handled.ascending, ?_⟩
  next =>
    intro id member le
    rcases le_or_gt id dhStart with behind | above
    next => exact .inl (handover.found id member behind)
    next =>
      have upto := le_trans le (DhProgress.le_position _ s.pipeline.dh)
      exact .inr (handover.progress.handled.complete id member above upto)
  next =>
    refine le_trans (Finset.card_le_card ?_) handover.uncommitted
    intro id member
    obtain ⟨inside, wrote⟩ := Finset.mem_inter.mp member
    refine Finset.mem_filter.mpr ⟨inside, ?_, by simp⟩
    exact handover.after.written id (List.mem_toFinset.mp wrote)

-- The process is killed between the append of batch 2 and its commit, so the next one finds batch 2 in
-- the journal and writes it from the store as well.
theorem found_or_written_uncommitted :
    ∃ s : Processes, Reaches step HandsOver (.start {} 100000 0) s ∧ s.pipeline.log = [1, 2, 3] ∧
      ids s.found = [1, 2] ∧ ids s.pipeline.written = [2, 3] ∧ s.kills = 1 ∧ s.failedMarks = 0 ∧
      ((ids s.found).toFinset ∩ (ids s.pipeline.written).toFinset).card ≤ 1 := by
  obtain ⟨s, reached, checked⟩ := reaches_allowed_of_check step HandsOver (.start {} 100000 0)
    [.act (.persist [] 0), .act (.insert 1), .act (.persist [] 1), .act (.insert 2), .act .jrPoll,
      .act (.jrAppend true), .act (.jrMark 0 none), .act (.jrAppend true), .restart {} 100000 1,
      .act .dhDrain, .act (.dhWrite true), .act .dhAck, .act (.persist [] 2), .act (.insert 3),
      .act .dhDrain, .act (.dhWrite true), .act .dhAck]
    (fun s => s.pipeline.log = [1, 2, 3] ∧ ids s.found = [1, 2] ∧
      ids s.pipeline.written = [2, 3] ∧ s.kills = 1 ∧ s.failedMarks = 0)
    (by decide +kernel) (by decide +kernel)
  obtain ⟨log, found, written, kills, failed⟩ := of_decide_eq_true checked
  have both := (found_or_written (by decide) reached).2.2
  rw [kills, failed] at both
  exact ⟨s, reached, log, found, written, kills, failed, both⟩

end DeepFeeder.Restarts
