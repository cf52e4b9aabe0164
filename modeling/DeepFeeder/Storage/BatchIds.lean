import DeepFeeder.Shared.Transition
import DeepFeeder.Storage.EventStore

set_option autoImplicit false

namespace DeepFeeder.BatchIds

open Transition DuckDbEventStore

/-- An open store over one database file and every id its `append` has returned, in this process
and in the earlier ones. -/
structure History where
  store : DuckDbEventStore
  returned : List Int

inductive Op where
  | append (env : Envelope)
  | markCommitted (batchId now : Int) (fault : Option MarkFault)
  | pruneUpto (cutoff : Int)
  | reopen (retention : Retention)

def History.new (retention : Retention) (coerce : Coercion := .refuse) : History :=
  { store := connect .new retention coerce, returned := [] }

def step (s : History) : Op → Option History
  | .append env =>
      (s.store.append env).map fun (batchId, store) => { store, returned := s.returned ++ [batchId] }
  | .markCommitted batchId now fault =>
      if batchId ∈ s.returned then
        some { s with store := (s.store.markCommitted batchId now fault).2 }
      else none
  | .pruneUpto cutoff => some { s with store := (s.store.pruneUpto cutoff).2 }
  | .reopen retention => some { s with store := connect s.store.con retention s.store.coerce }

/-- An append now gets an id above every id returned before and above the commit pointer, and a
read from the pointer sees it. -/
def AppendsFresh (s : History) : Prop :=
  ∀ env batchId store, s.store.append env = some (batchId, store) →
    (∀ id ∈ s.returned, id < batchId) ∧ s.store.lastCommitted < batchId ∧
      ∀ maxN, store.stored.length ≤ maxN →
        batchId ∈ ids (store.nextFrom (store.lastCommitted + 1) maxN)

/-- The store is closed and opened again only while the newest returned id is still a row. -/
def ReopensWithNewestRow (s : History) : Op → Prop
  | .reopen _ => ∀ id ∈ s.returned, id ≤ s.store.maxBatchId
  | _ => True

instance (s : History) (op : Op) : Decidable (ReopensWithNewestRow s op) :=
  match op with
  | .reopen _ => inferInstanceAs (Decidable (∀ id ∈ s.returned, id ≤ s.store.maxBatchId))
  | .append _ | .markCommitted _ _ _ | .pruneUpto _ => isTrue trivial

structure SequenceAhead (s : History) : Prop where
  returned : ∀ id ∈ s.returned, id < s.store.con.eventStoreSeq
  pointer : s.store.lastCommitted = 0 ∨ s.store.lastCommitted ∈ s.returned

theorem SequenceAhead.pointer_lt {s : History} (ahead : SequenceAhead s) :
    s.store.lastCommitted < s.store.con.eventStoreSeq := by
  rcases ahead.pointer with zero | member
  · have := s.store.con.started
    omega
  · exact ahead.returned _ member

theorem SequenceAhead.appendsFresh {s : History} (ahead : SequenceAhead s) : AppendsFresh s := by
  intro env batchId store appended
  rw [append_id appended]
  refine ⟨ahead.returned, ahead.pointer_lt, ?_⟩
  intro maxN room
  apply mem_nextFrom _ _ room
  · rw [stored_append appended]
    simp
  · rw [append_lastCommitted appended]
    exact Int.add_one_le_of_lt ahead.pointer_lt

theorem new_ahead (retention : Retention) (coerce : Coercion) :
    SequenceAhead (.new retention coerce) :=
  ⟨by simp [History.new], .inl rfl⟩

theorem append_ahead {s : History} (ahead : SequenceAhead s) {env : Envelope} {batchId : Int}
    {store : DuckDbEventStore} (appended : s.store.append env = some (batchId, store)) :
    SequenceAhead ⟨store, s.returned ++ [batchId]⟩ where
  returned := by
    intro id member
    simp only [List.mem_append, List.mem_singleton, append_id appended, append_seq appended]
      at member ⊢
    rcases member with old | rfl
    · have := ahead.returned id old
      omega
    · omega
  pointer := by
    change store.lastCommitted = 0 ∨ store.lastCommitted ∈ _
    rw [append_lastCommitted appended]
    rcases ahead.pointer with zero | member
    · exact .inl zero
    · exact .inr (List.mem_append_left _ member)

theorem markCommitted_ahead {s : History} (ahead : SequenceAhead s) {batchId : Int}
    (known : batchId ∈ s.returned) (now : Int) (fault : Option MarkFault) :
    SequenceAhead { s with store := (s.store.markCommitted batchId now fault).2 } := by
  rcases s.store.markCommitted_cases batchId now fault with ⟨_, unchanged⟩ | ⟨_, pruned⟩
  · simpa [unchanged] using ahead
  · refine ⟨?_, .inr ?_⟩
    · intro id member
      simpa [pruned.seq, setAck] using ahead.returned id member
    · rw [show (s.store.markCommitted batchId now fault).2.lastCommitted = batchId from
        pruned.lastCommitted]
      exact known

theorem step_ahead {s s' : History} {op : Op} (ahead : SequenceAhead s)
    (meets : ReopensWithNewestRow s op) (taken : step s op = some s') : SequenceAhead s' := by
  cases op with
  | append env =>
      obtain ⟨⟨batchId, store⟩, appended, rfl⟩ := Option.map_eq_some_iff.mp taken
      exact append_ahead ahead appended
  | markCommitted batchId now fault =>
      simp only [step] at taken
      split at taken
      next known =>
        cases taken
        exact markCommitted_ahead ahead known now fault
      next => cases taken
  | pruneUpto cutoff =>
      cases taken
      exact ⟨by simpa [pruneUpto] using ahead.returned, by simpa [pruneUpto] using ahead.pointer⟩
  | reopen retention =>
      cases taken
      refine ⟨?_, ahead.pointer⟩
      intro id member
      exact Int.lt_add_one_of_le (meets id member)

theorem reopen_ahead_iff {s : History} (ahead : SequenceAhead s) (retention : Retention) :
    SequenceAhead { s with store := connect s.store.con retention s.store.coerce } ↔
      ReopensWithNewestRow s (.reopen retention) := by
  constructor
  · intro reopened id member
    exact Int.lt_add_one_iff.mp (reopened.returned id member)
  · intro meets
    exact step_ahead ahead meets rfl

theorem append_ids_increase {retention : Retention} {coerce : Coercion} {s : History}
    (reached : Reaches step ReopensWithNewestRow (.new retention coerce) s) : AppendsFresh s :=
  (reached.invariant SequenceAhead (new_ahead retention coerce)
    (fun _ _ _ ahead meets taken => step_ahead ahead meets taken)).appendsFresh

private def emptyEnvelope : Envelope := ⟨-1, 0, none, none, []⟩

theorem append_ids_increase_reopened :
    ∃ s, Reaches step ReopensWithNewestRow (.new {}) s ∧ s.returned = [1, 2] ∧ AppendsFresh s := by
  obtain ⟨s, reached, last⟩ := reaches_allowed_of_check step ReopensWithNewestRow (.new {})
    [.append emptyEnvelope, .markCommitted 1 0 none, .append emptyEnvelope, .pruneUpto 1, .reopen {}]
    (fun s => s.returned = [1, 2]) (by decide +kernel) (by decide +kernel)
  exact ⟨s, reached, by simpa using last, append_ids_increase reached⟩

-- With no safety window the commit prunes its own row, and the next process starts again at 1.
theorem reopened_store_repeats_id :
    ∃ s, Reaches step anyStep (.new { pruneSafetyBatches := 0 }) s ∧ s.returned = [1] ∧
      s.store.lastCommitted = 1 ∧ (s.store.append emptyEnvelope).map Prod.fst = some 1 ∧
      ¬ AppendsFresh s := by
  obtain ⟨s, reached, last⟩ := reaches_of_check step (.new { pruneSafetyBatches := 0 })
    [.append emptyEnvelope, .markCommitted 1 (600 * 1000000000) none,
      .reopen { pruneSafetyBatches := 0 }]
    (fun s => s.returned = [1] ∧ s.store.lastCommitted = 1 ∧
      (s.store.append emptyEnvelope).map Prod.fst = some 1) (by decide +kernel)
  simp only [decide_eq_true_eq] at last
  obtain ⟨returned, pointer, again⟩ := last
  refine ⟨s, reached, returned, pointer, again, ?_⟩
  intro fresh
  obtain ⟨⟨batchId, store⟩, appended, isOne⟩ := Option.map_eq_some_iff.mp again
  have above := (fresh emptyEnvelope batchId store appended).2.1
  change batchId = 1 at isOne
  omega

end DeepFeeder.BatchIds
