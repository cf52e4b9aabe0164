import DeepFeeder.Shared.Transition
import DeepFeeder.Core.EventBus

set_option autoImplicit false

namespace DeepFeeder.FastPath

open Transition EventBus DuckDbEventStore

-- A bus used by callers whose operations do not overlap, over a store that nothing prunes.
structure Session where
  eventStore : DuckDbEventStore
  bus : EventBus

inductive Op where
  | publish (rows : List Tick) (producedNs : Int)
  | ackDh (lastBatchId : Int)
  | ackJournal (lastBatchId : Int)
  | setDhCursor (batchId : Int)

def Session.start (eventStore : DuckDbEventStore) (maxEnvelopes : Int) : Session :=
  { eventStore, bus := .init eventStore maxEnvelopes }

def step (s : Session) : Op → Option Session
  | .publish rows producedNs =>
      (persist s.eventStore rows producedNs).map fun (env, eventStore) =>
        { eventStore, bus := s.bus.insert env }
  | .ackDh lastBatchId => some { s with bus := s.bus.ackDh lastBatchId }
  | .ackJournal lastBatchId => some { s with bus := s.bus.ackJournal lastBatchId }
  | .setDhCursor batchId => some { s with bus := s.bus.setDhCursor batchId }

def DrainAgrees (s : Session) (lastId : Int) (maxN : Nat) : Prop :=
  (∃ id ∈ s.eventStore.stored, lastId < id) →
    ids (s.bus.drain s.eventStore lastId maxN) ≠ [] ∧
      ids (s.bus.drain s.eventStore lastId maxN) <+: ids (s.eventStore.nextFrom (lastId + 1) maxN)

def RingReachesBack (s : Session) (lastId : Int) : Prop :=
  (∀ id ∈ s.bus.held, id ≤ lastId) ∨ ∀ id ∈ s.eventStore.stored, lastId < id → id ∈ s.bus.held

def RingIsTail (s : Session) : Prop := s.bus.held <:+ s.eventStore.stored

instance (s : Session) (lastId : Int) : Decidable (RingReachesBack s lastId) :=
  inferInstanceAs (Decidable ((∀ id ∈ s.bus.held, id ≤ lastId) ∨
    ∀ id ∈ s.eventStore.stored, lastId < id → id ∈ s.bus.held))

theorem step_ringIsTail {s s' : Session} {op : Op} (tail : RingIsTail s)
    (taken : step s op = some s') : RingIsTail s' := by
  cases op with
  | publish rows producedNs =>
      obtain ⟨⟨env, eventStore⟩, persisted, rfl⟩ := Option.map_eq_some_iff.mp taken
      have grown : s.bus.held ++ [s.eventStore.con.eventStoreSeq] <:+
          s.eventStore.stored ++ [s.eventStore.con.eventStoreSeq] := by
        obtain ⟨older, split⟩ := tail
        exact ⟨older, by rw [← split, List.append_assoc]⟩
      unfold RingIsTail
      rw [persist_stored persisted]
      rw [← persist_batchId persisted] at grown ⊢
      exact (held_insert_suffix s.bus env).trans grown
  | ackDh | ackJournal | setDhCursor =>
      cases taken
      exact tail

theorem prefix_iff_of_ascending {older ring : List Int} (maxN : Nat) (positive : 0 < maxN)
    (ascending : (older ++ ring).Pairwise (· < ·)) (some : ring ≠ []) :
    ring.take maxN <+: (older ++ ring).take maxN ↔ older = [] := by
  constructor
  · intro initial
    cases older with
    | nil => rfl
    | cons first rest =>
        obtain ⟨head, tail, rfl⟩ := List.exists_cons_of_ne_nil some
        obtain ⟨room, rfl⟩ := Nat.exists_eq_add_of_lt positive
        have same : head = first := by
          rw [Nat.zero_add, List.take_succ_cons, List.cons_append, List.take_succ_cons] at initial
          exact (List.cons_prefix_cons.mp initial).1
        have less : first < head := by
          rw [List.cons_append, List.pairwise_cons] at ascending
          exact ascending.1 head (by simp)
        omega
  · rintro rfl
    exact List.prefix_rfl

theorem older_passed_iff {older ring : List Int} (lastId : Int)
    (ascending : (older ++ ring).Pairwise (· < ·)) :
    older.filter (fun id => lastId < id) = [] ↔
      ∀ id ∈ older ++ ring, lastId < id → id ∈ ring := by
  rw [List.filter_eq_nil_iff]
  constructor
  · intro passed id member above
    rcases List.mem_append.mp member with old | inside
    · exact absurd (decide_eq_true above) (passed id old)
    · exact inside
  · intro all id old above
    have inside := all id (List.mem_append_left _ old) (of_decide_eq_true above)
    have order := (List.pairwise_append.mp ascending).2.2 id old id inside
    exact absurd order (lt_irrefl id)

theorem drain_agrees_iff_of_tail {s : Session} (tail : RingIsTail s) (lastId : Int) {maxN : Nat}
    (positive : 0 < maxN) : DrainAgrees s lastId maxN ↔ RingReachesBack s lastId := by
  obtain ⟨older, split⟩ := tail
  have ordered := s.eventStore.stored_ordered
  have take_ne_nil {rows : List Int} (some : rows ≠ []) : rows.take maxN ≠ [] := by
    rw [Ne, List.take_eq_nil_iff, not_or]
    exact ⟨Nat.ne_of_gt positive, some⟩
  unfold DrainAgrees RingReachesBack
  rw [ids_drain _ _ _ _ positive, ids_nextFrom_succ]
  by_cases below : ∀ id ∈ s.bus.held, id ≤ lastId
  -- The drain reads the store itself.
  · rw [if_pos below]
    apply iff_of_true
    · rintro ⟨id, member, above⟩
      have inside : id ∈ s.eventStore.stored.filter fun id => lastId < id :=
        List.mem_filter.mpr ⟨member, decide_eq_true above⟩
      exact ⟨take_ne_nil (List.ne_nil_of_mem inside), List.prefix_rfl⟩
    · exact .inl below
  · rw [if_neg below]
    have some : s.bus.held.filter (fun id => lastId < id) ≠ [] := by
      rw [Ne, List.filter_eq_nil_iff]
      simpa using below
    rw [← split] at ordered
    have first := prefix_iff_of_ascending maxN positive
      (List.filter_append older s.bus.held ▸ ordered.filter fun id => lastId < id) some
    rw [← split, List.filter_append, first, older_passed_iff lastId ordered]
    constructor
    · intro agrees
      obtain ⟨id, member⟩ := List.exists_mem_of_ne_nil _ some
      obtain ⟨inside, above⟩ := List.mem_filter.mp member
      have newer := List.mem_append_right older inside
      exact .inr (agrees ⟨id, newer, of_decide_eq_true above⟩).2
    · rintro (passed | all) _
      · exact absurd passed below
      · exact ⟨take_ne_nil some, all⟩

theorem drain_agrees_iff {eventStore : DuckDbEventStore} {maxEnvelopes : Int} {s : Session}
    (reached : Reaches step anyStep (.start eventStore maxEnvelopes) s) (lastId : Int) {maxN : Nat}
    (positive : 0 < maxN) : DrainAgrees s lastId maxN ↔ RingReachesBack s lastId := by
  have initial : RingIsTail (.start eventStore maxEnvelopes) := List.nil_suffix
  have tail : RingIsTail s :=
    reached.invariant RingIsTail initial fun _ _ _ tail _ taken => step_ringIsTail tail taken
  exact drain_agrees_iff_of_tail tail lastId positive

theorem drain_agrees_after_ack :
    ∃ s, Reaches step anyStep (.start (connect .new {}) 1) s ∧
      ids (s.bus.drain s.eventStore 1 1024) = [2] ∧ DrainAgrees s 1 1024 := by
  obtain ⟨s, reached, last⟩ := reaches_of_check step (.start (connect .new {}) 1)
    [.publish [] 0, .ackDh 1, .ackJournal 1, .publish [] 1]
    (fun s => ids (s.bus.drain s.eventStore 1 1024) = [2] ∧ RingReachesBack s 1) (by decide +kernel)
  obtain ⟨drained, reachesBack⟩ := of_decide_eq_true last
  exact ⟨s, reached, drained, (drain_agrees_iff reached 1 (by decide)).mpr reachesBack⟩

def backlog : DuckDbEventStore := connect (Database.new.insert ⟨1, 0, -1, -1, 0, []⟩) {}

theorem drain_skips_backlog :
    ∃ s, Reaches step anyStep (.start backlog 100000) s ∧
      ids (s.bus.drain s.eventStore 0 1) = [2] ∧ ids (s.eventStore.nextFrom 1 1) = [1] ∧
      ¬ DrainAgrees s 0 1 := by
  obtain ⟨s, reached, last⟩ := reaches_of_check step (.start backlog 100000) [.publish [] 0]
    (fun s => ids (s.bus.drain s.eventStore 0 1) = [2] ∧ ids (s.eventStore.nextFrom 1 1) = [1] ∧
      1 ∈ s.eventStore.stored) (by decide +kernel)
  obtain ⟨drained, durable, backlogged⟩ := of_decide_eq_true last
  refine ⟨s, reached, drained, durable, ?_⟩
  intro agrees
  have initial := (agrees ⟨1, backlogged, by decide⟩).2
  rw [Int.zero_add, drained, durable] at initial
  exact absurd initial (by decide)

end DeepFeeder.FastPath
