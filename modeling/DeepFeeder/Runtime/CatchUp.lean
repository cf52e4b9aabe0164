import DeepFeeder.Shared.Response
import DeepFeeder.Runtime.Delivery

set_option autoImplicit false

namespace DeepFeeder.CatchUp

open Transition Pipeline OrderedLog EventBus DuckDbEventStore
open DhProgress (DhInOrder)
open JournalProgress (JrInOrder)
open Delivery (NoFailures)

def ofJournalLoop : Action → Bool
  | .jrPoll | .jrDrain | .jrAppend _ | .jrMark _ _ | .jrAck => true
  | _ => false

def ofDhLoop : Action → Bool
  | .dhDrain | .dhWrite _ | .dhAck => true
  | _ => false

-- The journal loop reads in order and what it calls succeeds. The other parties are free.
def JrHealthy (s : Pipeline) (a : Action) : Prop :=
  JrInOrder s a ∧ (ofJournalLoop a = true → NoFailures s a)

instance (s : Pipeline) (a : Action) : Decidable (JrHealthy s a) :=
  inferInstanceAs (Decidable (JrInOrder s a ∧ (ofJournalLoop a = true → NoFailures s a)))

def DhHealthy (s : Pipeline) (a : Action) : Prop :=
  DhInOrder s a ∧ (ofDhLoop a = true → NoFailures s a)

instance (s : Pipeline) (a : Action) : Decidable (DhHealthy s a) :=
  inferInstanceAs (Decidable (DhInOrder s a ∧ (ofDhLoop a = true → NoFailures s a)))

def jrBehind (s : Pipeline) (id : Int) : Nat := behind s.log (JournalProgress.position s.jr) id

-- An envelope takes an append and a mark, and a poll and an acknowledgement if it is alone in its batch.
def jrRank (id : Int) (s : Pipeline) : Nat :=
  4 * jrBehind s id + match s.jr.pc with
    | .polling => 2
    | .draining => 3
    | .appending (_ :: _) _ _ => 1
    | .appending [] _ _ => 3
    | .marking _ _ _ _ => 0

def dhBehind (s : Pipeline) (id : Int) : Nat :=
  behind s.log (DhProgress.position s.bus.dhCursor s.dh) id

def dhRank (id : Int) (s : Pipeline) : Nat :=
  3 * dhBehind s id + match s.dh.pc with
    | .polling => 1
    | .writing (_ :: _) _ => 0
    | .writing [] _ => 2

variable {s s' : Pipeline} {a : Action} {id committed dhStart : Int}

theorem nextFrom_ne_nil {eventStore : DuckDbEventStore} {nextBatchId : Int} {maxN : Nat}
    (positive : 0 < maxN) (member : id ∈ eventStore.stored) (le : nextBatchId ≤ id) :
    ∃ env rest, eventStore.nextFrom nextBatchId maxN = env :: rest := by
  apply List.exists_cons_of_ne_nil
  intro none
  have empty := eventStore.ids_nextFrom nextBatchId maxN
  rw [none, eq_comm, ids, List.map_nil, List.take_eq_nil_iff] at empty
  rcases empty with zero | empty
  · omega
  · have inside : id ∈ eventStore.stored.filter fun id => nextBatchId ≤ id :=
      List.mem_filter.mpr ⟨member, decide_eq_true le⟩
    rw [empty] at inside
    cases inside

theorem drain_ne_nil {cursor : Int} {maxN : Nat} (positive : 0 < maxN)
    (member : id ∈ s.source cursor) (above : cursor < id) :
    ∃ env rest, s.bus.drain s.eventStore cursor maxN = env :: rest := by
  apply List.exists_cons_of_ne_nil
  intro none
  have empty := ids_drain_source s cursor positive
  rw [none, eq_comm, ids, List.map_nil, List.take_eq_nil_iff] at empty
  rcases empty with zero | empty
  · omega
  · have inside : id ∈ (s.source cursor).filter (cursor < ·) :=
      List.mem_filter.mpr ⟨member, decide_eq_true above⟩
    rw [empty] at inside
    cases inside

-- A stored envelope is found in the store or hidden by something newer than the cursor in the ring.
theorem source_newer {cursor : Int} (member : id ∈ s.eventStore.stored) (above : cursor < id) :
    ∃ i ∈ s.source cursor, cursor < i := by
  unfold Pipeline.source
  split
  next => exact ⟨id, member, above⟩
  next some =>
    simpa using some

theorem behind_persist (logged : s.Logged) (member : id ∈ s.log) {rows : List Tick} {producedNs : Int}
    {env : Envelope} {eventStore : DuckDbEventStore}
    (persisted : EventBus.persist s.eventStore rows producedNs = some (env, eventStore)) (pos : Int) :
    behind (s.log ++ [env.batchId]) pos id = behind s.log pos id := by
  rw [persist_batchId persisted]
  exact behind_append_log member logged.newest

theorem step_journaled (taken : step s a = some s') (done : id ∈ ids s.journaled) :
    id ∈ ids s'.journaled := by
  cases a with
  | persist rows producedNs =>
      obtain ⟨_, _, _, rfl⟩ := persist_cases taken
      exact done
  | insert batchId =>
      obtain ⟨_, _, _, rfl⟩ := insert_cases taken
      exact done
  | dhDrain =>
      obtain ⟨_, rfl | rfl⟩ := dhDrain_cases taken <;> exact done
  | dhWrite ok =>
      obtain ⟨_, _, _, _, ⟨_, rfl⟩ | ⟨_, rfl⟩⟩ := dhWrite_cases taken <;> exact done
  | dhAck =>
      obtain ⟨_, _, rfl⟩ := dhAck_cases taken
      exact done
  | jrPoll =>
      obtain ⟨_, ⟨_, rfl⟩ | rfl⟩ := jrPoll_cases taken <;> exact done
  | jrDrain =>
      obtain ⟨_, rfl | rfl⟩ := jrDrain_cases taken <;> exact done
  | jrAppend ok =>
      obtain ⟨env, _, _, _, _, ⟨_, rfl⟩ | ⟨_, rfl⟩⟩ := jrAppend_cases taken
      · change id ∈ ids (s.journaled ++ [env])
        rw [ids, List.map_append]
        exact List.mem_append_left _ done
      · exact done
  | jrMark now fault =>
      obtain ⟨_, _, _, _, _, ⟨_, rfl⟩ | ⟨_, rfl⟩⟩ := jrMark_cases taken <;> exact done
  | jrAck =>
      obtain ⟨_, _, _, rfl⟩ := jrAck_cases taken
      exact done

structure JrInv (committed id : Int) (s : Pipeline) : Prop where
  logged : s.Logged
  progress : JournalProgress.Progress committed s.log s.eventStore.stored
    s.eventStore.lastCommitted s.bus.jrCursor s.jr (ids s.journaled)
  member : id ∈ s.log
  above : committed < id

theorem step_jrInv (inv : JrInv committed id s) (healthy : JrHealthy s a)
    (taken : step s a = some s') : JrInv committed id s' where
  logged := step_logged inv.logged taken
  progress := JournalProgress.step_progress inv.logged inv.progress healthy.1 taken
  member := by
    rcases step_log taken with ⟨log, _⟩ | ⟨_, _, _, _, _, rfl⟩
    · rw [log]
      exact inv.member
    · exact List.mem_append_left _ inv.member
  above := inv.above

theorem jrRank_other (inv : JrInv committed id s) (taken : step s a = some s')
    (other : ofJournalLoop a = false) : jrRank id s' = jrRank id s := by
  cases a with
  | persist rows producedNs =>
      obtain ⟨_, _, persisted, rfl⟩ := persist_cases taken
      unfold jrRank jrBehind
      rw [behind_persist inv.logged inv.member persisted]
  | insert batchId =>
      obtain ⟨_, _, _, rfl⟩ := insert_cases taken
      rfl
  | dhDrain =>
      obtain ⟨_, rfl | rfl⟩ := dhDrain_cases taken <;> rfl
  | dhWrite ok =>
      obtain ⟨_, _, _, _, ⟨_, rfl⟩ | ⟨_, rfl⟩⟩ := dhWrite_cases taken <;> rfl
  | dhAck =>
      obtain ⟨_, _, rfl⟩ := dhAck_cases taken
      rfl
  | jrPoll | jrDrain | jrAppend ok | jrMark now fault | jrAck => cases other

theorem jrRank_lowered (inv : JrInv committed id s) (healthy : JrHealthy s a)
    (taken : step s a = some s') (missing : id ∉ ids s.journaled) (own : ofJournalLoop a = true) :
    id ∈ ids s'.journaled ∨ jrRank id s' < jrRank id s := by
  obtain ⟨stored, _, waiting⟩ := (inv.progress.kept id inv.member inv.above).resolve_left missing
  cases a with
  | persist rows producedNs | insert batchId | dhDrain | dhWrite ok | dhAck => cases own
  | jrPoll =>
      have next : s.jr.nextId ≤ id := Int.sub_one_lt_iff.mp waiting
      obtain ⟨env, rest, page⟩ := nextFrom_ne_nil (show 0 < 256 by decide) stored next
      obtain ⟨polling, ⟨none, _⟩ | rfl⟩ := jrPoll_cases taken
      · rw [page] at none
        cases none
      · right
        simp only [jrRank, jrBehind, JournalProgress.position, polling, page]
        omega
  | jrDrain =>
      have behindCursor : s.bus.jrCursor < id := by
        exact lt_of_le_of_lt (Delivery.cursor_le_position inv.progress) waiting
      obtain ⟨i, member, newer⟩ := source_newer stored behindCursor
      obtain ⟨env, rest, batch⟩ := drain_ne_nil (show 0 < 1024 by decide) member newer
      right
      obtain ⟨draining, rfl | rfl⟩ := jrDrain_cases taken
      · simp only [jrRank, jrBehind, JournalProgress.position, draining]
        omega
      · simp only [jrRank, jrBehind, JournalProgress.position, draining, drainForJournal, batch]
        omega
  | jrAppend ok =>
      have succeeded : ok = true := healthy.2 own
      obtain ⟨env, rest, skipped, lastBid, appending, ⟨_, rfl⟩ | ⟨failed, _⟩⟩ := jrAppend_cases taken
      · right
        simp only [jrRank, jrBehind, JournalProgress.position, appending]
        omega
      · rw [succeeded] at failed
        cases failed
  | jrMark now fault =>
      have succeeded := healthy.2 own
      obtain ⟨env, rest, skipped, lastBid, marking, ⟨moved, rfl⟩ | ⟨⟨e, failed⟩, _⟩⟩ :=
        jrMark_cases taken
      · right
        have pending := inv.progress.pending
        rw [marking] at pending
        obtain ⟨_, appended, next⟩ := pending
        have order := healthy.1
        simp only [JrInOrder, marking] at order
        have covered := (order.resolve_left moved).1
        have le : env.batchId ≤ id := by
          by_contra later
          rcases next.before_head inv.member waiting (not_le.mp later) with done | skippedId
          · exact missing done
          · exact missing (covered id skippedId)
        have fewer := behind_lt (next.logged _ (by simp)) (next.above _ (by simp)) le
        have here : JournalProgress.position
            ⟨env.batchId + 1, env.batchId, .appending rest skipped (some env.batchId)⟩ =
              env.batchId := by
          simp [JournalProgress.position]
        unfold jrRank jrBehind
        rw [here, marking]
        cases rest with
        | nil =>
            simp only
            omega
        | cons first others =>
            simp only
            omega
      · simp only [NoFailures, marking, failed] at succeeded
        cases succeeded
  | jrAck =>
      obtain ⟨skipped, lastBid, appending, rfl⟩ := jrAck_cases taken
      right
      simp only [jrRank, jrBehind, JournalProgress.position, appending]
      omega

theorem jr_descends (committed id : Int) :
    Descends step JrHealthy (JrInv committed id) (fun s => id ∈ ids s.journaled) ofJournalLoop
      (jrRank id) where
  preserved _ _ _ inv healthy taken := step_jrInv inv healthy taken
  kept _ _ _ _ _ taken done := step_journaled taken done
  bounded := by
    intro s a s' inv healthy taken missing
    by_cases own : ofJournalLoop a = true
    · exact (jrRank_lowered inv healthy taken missing own).imp_right le_of_lt
    · exact .inr (le_of_eq (jrRank_other inv taken (by simpa using own)))
  lowered _ _ _ inv healthy taken missing own := jrRank_lowered inv healthy taken missing own

theorem jrRank_le (id : Int) (s : Pipeline) : jrRank id s ≤ 4 * jrBehind s id + 3 := by
  unfold jrRank
  split <;> omega

-- Four journal steps for each envelope up to `id`, and four more, bring `id` into the journal, in any
-- interleaving with the publishers and the DH loop.
theorem journaled_within {eventStore : DuckDbEventStore} {maxEnvelopes : Int} {actions : List Action}
    (reached : Reaches step JrHealthy (.start eventStore maxEnvelopes dhStart) s)
    (met : runMeets step JrHealthy s actions = true) (result : run step s actions = some s')
    (member : id ∈ s.log) (above : eventStore.lastCommitted < id)
    (enough : 4 * jrBehind s id + 3 < actions.countP ofJournalLoop) : id ∈ ids s'.journaled := by
  have inOrder := reached.mono fun _ _ healthy => healthy.1
  have logged : s.Logged := reached.invariant Logged (start_logged eventStore maxEnvelopes dhStart)
    fun _ _ _ logged _ taken => step_logged logged taken
  have progress := JournalProgress.reaches_progress inOrder
  refine (jr_descends eventStore.lastCommitted id).goal_of_run
    ⟨logged, progress, member, above⟩ met result (.inr ?_)
  exact lt_of_le_of_lt (jrRank_le id s) enough

def journalActions : List Action :=
  [.jrPoll, .persist [] 2, .jrAppend true, .jrMark 0 none, .dhDrain, .jrAppend true, .insert 3,
    .jrMark 1 none, .dhWrite true, .jrAck, .jrPoll, .jrAppend true, .jrMark 2 none, .jrAck, .jrPoll,
    .jrDrain, .jrPoll]

theorem journaled_within_interleaved :
    ∃ s s', Reaches step JrHealthy (.start (connect .new {}) 100000 0) s ∧ ids s.journaled = [] ∧
      run step s journalActions = some s' ∧ 2 ∈ ids s'.journaled := by
  obtain ⟨s, reached, last⟩ := reaches_allowed_of_check step JrHealthy
    (.start (connect .new {}) 100000 0) [.persist [] 0, .persist [] 1, .insert 1, .insert 2]
    (fun s => ids s.journaled = [] ∧ 2 ∈ s.log ∧ jrBehind s 2 = 2 ∧
      runMeets step JrHealthy s journalActions = true ∧
      (run step s journalActions).isSome = true)
    (by decide +kernel) (by decide +kernel)
  obtain ⟨none, member, behind, met, finished⟩ := of_decide_eq_true last
  obtain ⟨s', result⟩ := Option.isSome_iff_exists.mp finished
  refine ⟨s, s', reached, none, result, ?_⟩
  exact journaled_within reached met result member (by decide) (by rw [behind]; decide)

theorem step_written (taken : step s a = some s') (done : id ∈ ids s.written) :
    id ∈ ids s'.written := by
  cases a with
  | persist rows producedNs =>
      obtain ⟨_, _, _, rfl⟩ := persist_cases taken
      exact done
  | insert batchId =>
      obtain ⟨_, _, _, rfl⟩ := insert_cases taken
      exact done
  | dhDrain =>
      obtain ⟨_, rfl | rfl⟩ := dhDrain_cases taken <;> exact done
  | dhWrite ok =>
      obtain ⟨env, _, _, _, ⟨_, rfl⟩ | ⟨_, rfl⟩⟩ := dhWrite_cases taken
      · change id ∈ ids (s.written ++ [env])
        rw [ids, List.map_append]
        exact List.mem_append_left _ done
      · exact done
  | dhAck =>
      obtain ⟨_, _, rfl⟩ := dhAck_cases taken
      exact done
  | jrPoll =>
      obtain ⟨_, ⟨_, rfl⟩ | rfl⟩ := jrPoll_cases taken <;> exact done
  | jrDrain =>
      obtain ⟨_, rfl | rfl⟩ := jrDrain_cases taken <;> exact done
  | jrAppend ok =>
      obtain ⟨_, _, _, _, _, ⟨_, rfl⟩ | ⟨_, rfl⟩⟩ := jrAppend_cases taken <;> exact done
  | jrMark now fault =>
      obtain ⟨_, _, _, _, _, ⟨_, rfl⟩ | ⟨_, rfl⟩⟩ := jrMark_cases taken <;> exact done
  | jrAck =>
      obtain ⟨_, _, _, rfl⟩ := jrAck_cases taken
      exact done

def HeldOrPassed (bus : EventBus) (id : Int) : Prop := id ∈ bus.held ∨ id ≤ bus.dhCursor

theorem step_heldOrPassed (kept : HeldOrPassed s.bus id) (taken : step s a = some s') :
    HeldOrPassed s'.bus id := by
  cases a with
  | persist rows producedNs =>
      obtain ⟨_, _, _, rfl⟩ := persist_cases taken
      exact kept
  | insert batchId =>
      obtain ⟨env, _, _, rfl⟩ := insert_cases taken
      rcases kept with held | passed
      · obtain ⟨e, member, rfl⟩ := List.mem_map.mp held
        rcases mem_evict_or_passed s.bus.maxEnvelopes s.bus.dhCursor s.bus.jrCursor _
            (List.mem_append_left [env] member) with inside | ⟨passed, _⟩
        · exact .inl (List.mem_map_of_mem inside)
        · exact .inr passed
      · exact .inr passed
  | dhDrain =>
      obtain ⟨_, rfl | rfl⟩ := dhDrain_cases taken <;> exact kept
  | dhWrite ok =>
      obtain ⟨_, _, _, _, ⟨_, rfl⟩ | ⟨_, rfl⟩⟩ := dhWrite_cases taken <;> exact kept
  | dhAck =>
      obtain ⟨_, _, rfl⟩ := dhAck_cases taken
      simp only
      split_ifs
      · exact kept.imp_right fun passed => le_trans passed (le_max_left _ _)
      · exact kept
  | jrPoll =>
      obtain ⟨_, ⟨_, rfl⟩ | rfl⟩ := jrPoll_cases taken <;> exact kept
  | jrDrain =>
      obtain ⟨_, rfl | rfl⟩ := jrDrain_cases taken <;> exact kept
  | jrAppend ok =>
      obtain ⟨_, _, _, _, _, ⟨_, rfl⟩ | ⟨_, rfl⟩⟩ := jrAppend_cases taken <;> exact kept
  | jrMark now fault =>
      obtain ⟨_, _, _, _, _, ⟨_, rfl⟩ | ⟨_, rfl⟩⟩ := jrMark_cases taken <;> exact kept
  | jrAck =>
      obtain ⟨_, lastBid, _, rfl⟩ := jrAck_cases taken
      cases lastBid <;> exact kept

structure DhInv (dhStart id : Int) (s : Pipeline) : Prop where
  logged : s.Logged
  progress : DhProgress.Progress dhStart s.log s.bus.dhCursor s.dh (ids s.written)
  kept : HeldOrPassed s.bus id
  member : id ∈ s.log
  above : dhStart < id

theorem step_dhInv (inv : DhInv dhStart id s) (healthy : DhHealthy s a)
    (taken : step s a = some s') : DhInv dhStart id s' where
  logged := step_logged inv.logged taken
  progress := DhProgress.step_progress inv.logged inv.progress healthy.1 taken
  kept := step_heldOrPassed inv.kept taken
  member := by
    rcases step_log taken with ⟨log, _⟩ | ⟨_, _, _, _, _, rfl⟩
    · rw [log]
      exact inv.member
    · exact List.mem_append_left _ inv.member
  above := inv.above

theorem DhInv.ahead (inv : DhInv dhStart id s) (missing : id ∉ ids s.written) :
    DhProgress.position s.bus.dhCursor s.dh < id ∧ id ∈ s.bus.held := by
  have ahead : DhProgress.position s.bus.dhCursor s.dh < id := by
    by_contra passed
    exact missing (inv.progress.handled.complete id inv.member inv.above (not_lt.mp passed))
  refine ⟨ahead, inv.kept.resolve_right ?_⟩
  exact not_le.mpr (lt_of_le_of_lt (DhProgress.le_position _ _) ahead)

theorem dhRank_other (inv : DhInv dhStart id s) (taken : step s a = some s')
    (other : ofDhLoop a = false) : dhRank id s' = dhRank id s := by
  cases a with
  | persist rows producedNs =>
      obtain ⟨_, _, persisted, rfl⟩ := persist_cases taken
      unfold dhRank dhBehind
      rw [behind_persist inv.logged inv.member persisted]
  | insert batchId =>
      obtain ⟨_, _, _, rfl⟩ := insert_cases taken
      rfl
  | dhDrain | dhWrite ok | dhAck => cases other
  | jrPoll =>
      obtain ⟨_, ⟨_, rfl⟩ | rfl⟩ := jrPoll_cases taken <;> rfl
  | jrDrain =>
      obtain ⟨_, rfl | rfl⟩ := jrDrain_cases taken <;> rfl
  | jrAppend ok =>
      obtain ⟨_, _, _, _, _, ⟨_, rfl⟩ | ⟨_, rfl⟩⟩ := jrAppend_cases taken <;> rfl
  | jrMark now fault =>
      obtain ⟨_, _, _, _, _, ⟨_, rfl⟩ | ⟨_, rfl⟩⟩ := jrMark_cases taken <;> rfl
  | jrAck =>
      obtain ⟨_, lastBid, _, rfl⟩ := jrAck_cases taken
      cases lastBid <;> rfl

theorem position_written {cursor : Int} {env : Envelope} {pc : DhPc} (positive : 1 ≤ env.batchId)
    (above : cursor < env.batchId) :
    DhProgress.position cursor ⟨env.batchId, pc⟩ = env.batchId := by
  unfold DhProgress.position
  rw [if_pos (by simp only; omega)]
  exact max_eq_right (le_of_lt above)

theorem position_acked (bus : EventBus) (last : Int) (pc pc' : DhPc) :
    DhProgress.position (if 0 ≤ last then bus.ackDh last else bus).dhCursor ⟨last, pc⟩ =
      DhProgress.position bus.dhCursor ⟨last, pc'⟩ := by
  unfold DhProgress.position
  split_ifs
  · exact max_eq_left (le_max_right _ _)
  · rfl

theorem dhRank_lowered (inv : DhInv dhStart id s) (healthy : DhHealthy s a)
    (taken : step s a = some s') (missing : id ∉ ids s.written) (own : ofDhLoop a = true) :
    dhRank id s' < dhRank id s := by
  obtain ⟨ahead, held⟩ := inv.ahead missing
  cases a with
  | persist rows producedNs | insert batchId | jrPoll | jrDrain | jrAppend ok | jrMark now fault
  | jrAck => cases own
  | dhDrain =>
      have newer : s.bus.dhCursor < id := lt_of_le_of_lt (DhProgress.le_position _ _) ahead
      have source : id ∈ s.source s.bus.dhCursor := by
        unfold Pipeline.source
        rw [if_neg]
        · exact held
        · intro below
          exact absurd (below id held) (not_le.mpr newer)
      obtain ⟨env, rest, batch⟩ := drain_ne_nil (show 0 < 1024 by decide) source newer
      obtain ⟨polling, _⟩ := dhDrain_cases taken
      simp only [step, dhDrain, polling, drainForDh, batch, Option.some.injEq] at taken
      subst taken
      simp only [dhRank, dhBehind, DhProgress.position, polling]
      omega
  | dhWrite ok =>
      have succeeded : ok = true := healthy.2 own
      obtain ⟨env, rest, skipped, writing, ⟨_, rfl⟩ | ⟨failed, _⟩⟩ := dhWrite_cases taken
      · subst succeeded
        have none : skipped = [] := by
          simpa [DhInOrder, DhProgress.skippedOf, writing] using healthy.1
        have pending := inv.progress.pending
        rw [writing] at pending
        have next := pending none
        have logged : env.batchId ∈ s.log := next.logged _ (by simp)
        have above := next.above env.batchId (by simp)
        have le : env.batchId ≤ id := by
          by_contra later
          exact next.before_head inv.member ahead (not_le.mp later)
        have fewer := behind_lt logged above le
        have here : DhProgress.position s.bus.dhCursor ⟨env.batchId, .writing rest skipped⟩ =
            env.batchId := by
          exact position_written (inv.logged.positive _ logged)
            (lt_of_le_of_lt (DhProgress.le_position _ _) above)
        unfold dhRank dhBehind
        rw [here, writing]
        cases rest with
        | nil =>
            simp only
            omega
        | cons first others =>
            simp only
            omega
      · rw [succeeded] at failed
        cases failed
  | dhAck =>
      obtain ⟨skipped, writing, rfl⟩ := dhAck_cases taken
      have here := position_acked s.bus s.dh.last .polling (.writing [] skipped)
      unfold dhRank dhBehind
      rw [here, DhProgress.dh_of_pc writing]
      simp only
      omega

theorem dh_descends (dhStart id : Int) :
    Descends step DhHealthy (DhInv dhStart id) (fun s => id ∈ ids s.written) ofDhLoop
      (dhRank id) where
  preserved _ _ _ inv healthy taken := step_dhInv inv healthy taken
  kept _ _ _ _ _ taken done := step_written taken done
  bounded := by
    intro s a s' inv healthy taken missing
    right
    by_cases own : ofDhLoop a = true
    · exact le_of_lt (dhRank_lowered inv healthy taken missing own)
    · exact le_of_eq (dhRank_other inv taken (by simpa using own))
  lowered _ _ _ inv healthy taken missing own := .inr (dhRank_lowered inv healthy taken missing own)

theorem dhRank_le (id : Int) (s : Pipeline) : dhRank id s ≤ 3 * dhBehind s id + 2 := by
  unfold dhRank
  split <;> omega

-- Three steps of the DH loop for each envelope up to `id`, and three more, bring an envelope of the ring
-- into Deephaven.
theorem written_within {eventStore : DuckDbEventStore} {maxEnvelopes : Int} {actions : List Action}
    (reached : Reaches step DhHealthy (.start eventStore maxEnvelopes dhStart) s)
    (met : runMeets step DhHealthy s actions = true) (result : run step s actions = some s')
    (held : id ∈ s.bus.held) (above : dhStart < id)
    (enough : 3 * dhBehind s id + 2 < actions.countP ofDhLoop) : id ∈ ids s'.written := by
  have ⟨logged, progress⟩ := DhProgress.reaches_progress (reached.mono fun _ _ healthy => healthy.1)
  refine (dh_descends dhStart id).goal_of_run
    ⟨logged, progress, .inl held, logged.held id held, above⟩ met result (.inr ?_)
  exact lt_of_le_of_lt (dhRank_le id s) enough

def dhActions : List Action :=
  [.dhDrain, .persist [] 2, .dhWrite true, .jrPoll, .insert 3, .dhWrite true, .dhAck, .jrAppend true,
    .dhDrain, .dhWrite true, .dhAck, .dhDrain, .dhDrain]

theorem written_within_interleaved :
    ∃ s s', Reaches step DhHealthy (.start (connect .new {}) 100000 0) s ∧ ids s.written = [] ∧
      run step s dhActions = some s' ∧
      2 ∈ ids s'.written := by
  obtain ⟨s, reached, last⟩ := reaches_allowed_of_check step DhHealthy
    (.start (connect .new {}) 100000 0) [.persist [] 0, .persist [] 1, .insert 1, .insert 2]
    (fun s => ids s.written = [] ∧ 2 ∈ s.bus.held ∧ dhBehind s 2 = 2 ∧
      runMeets step DhHealthy s dhActions = true ∧
      (run step s dhActions).isSome = true)
    (by decide +kernel) (by decide +kernel)
  obtain ⟨none, held, behind, met, finished⟩ := of_decide_eq_true last
  obtain ⟨s', result⟩ := Option.isSome_iff_exists.mp finished
  refine ⟨s, s', reached, none, result, ?_⟩
  exact written_within reached met result held (by decide) (by rw [behind]; decide)

end DeepFeeder.CatchUp
