import DeepFeeder.Core.WakeUps

set_option autoImplicit false

namespace DeepFeeder.RingBound

open Transition EventBus DuckDbEventStore BusMonitor

def Needed (dhCursor jrCursor id : Int) : Prop := ¬ (id ≤ dhCursor ∧ id ≤ jrCursor)

instance (dhCursor jrCursor id : Int) : Decidable (Needed dhCursor jrCursor id) :=
  inferInstanceAs (Decidable (¬ _))

def needed (bus : EventBus) : List Int := bus.held.filter (Needed bus.dhCursor bus.jrCursor)

/-- In an ascending ring the envelopes that both drains have passed are at its head, so the eviction
gets to all of them that are too many. -/
theorem length_evict (maxEnvelopes dhCursor jrCursor : Int) {buf : List Envelope}
    (ascending : (ids buf).Pairwise (· < ·)) :
    ((evict maxEnvelopes dhCursor jrCursor buf).length : Int) =
      max (min (buf.length : Int) maxEnvelopes) ((ids buf).filter (Needed dhCursor jrCursor)).length := by
  induction buf with
  | nil =>
      simp only [evict, List.length_nil, ids, List.map_nil, List.filter_nil]
      omega
  | cons head rest ih =>
      have fewer : ((ids (head :: rest)).filter (Needed dhCursor jrCursor)).length ≤
          (head :: rest).length :=
        (List.length_filter_le _ _).trans (by simp)
      unfold evict
      split_ifs with long passed
      · have drop : (ids (head :: rest)).filter (Needed dhCursor jrCursor) =
            (ids rest).filter (Needed dhCursor jrCursor) := by
          rw [ids, List.map_cons, List.filter_cons_of_neg]
          simpa [Needed] using passed
        rw [ih (List.pairwise_cons.mp ascending).2, drop]
        rw [List.length_cons] at long ⊢
        omega
      · have all : (ids (head :: rest)).filter (Needed dhCursor jrCursor) = ids (head :: rest) := by
          rw [List.filter_eq_self]
          intro id member
          refine decide_eq_true fun below => passed ?_
          rcases List.mem_cons.mp member with rfl | later
          · exact below
          · have less := (List.pairwise_cons.mp ascending).1 id later
            omega
        rw [all, ids, List.length_map]
        omega
      · omega

-- Envelopes enter the ring in the order of their ids, each while at most `backlog` of them, itself
-- included, still wait for a drain.
def InOrder (backlog : Nat) (m : BusMonitor) : Action → Prop
  | .insert batchId => (∀ id ∈ m.bus.held, id < batchId) ∧ (needed m.bus).length < backlog
  | _ => True

instance (backlog : Nat) (m : BusMonitor) (a : Action) : Decidable (InOrder backlog m a) :=
  match a with
  | .insert batchId => inferInstanceAs
      (Decidable ((∀ id ∈ m.bus.held, id < batchId) ∧ (needed m.bus).length < backlog))
  | .persist _ _ | .ackDh _ | .ackJournal _ | .markCommitted _ _ _ | .drainForDh _ _
  | .drainForJournal _ _ | .look _ _ | .timeOut _ => isTrue trivial

structure Bounded (maxEnvelopes : Int) (backlog : Nat) (bus : EventBus) : Prop where
  limit : bus.maxEnvelopes = maxEnvelopes
  ascending : bus.held.Pairwise (· < ·)
  length : (bus.buf.length : Int) ≤ max maxEnvelopes backlog

def Kept (old : List Int) (m : BusMonitor) : Prop :=
  ∀ id ∈ m.eventStore.stored, id ∉ old →
    id ∈ ids m.inFlight ∨ id ∈ m.bus.held ∨ id ≤ m.bus.dhCursor ∧ id ≤ m.bus.jrCursor

variable {maxEnvelopes : Int} {backlog : Nat} {m m' : BusMonitor} {a : Action} {old : List Int}

theorem insert_bounded {bus : EventBus} (bounded : Bounded maxEnvelopes backlog bus) (env : Envelope)
    (newest : ∀ id ∈ bus.held, id < env.batchId) (room : (needed bus).length < backlog) :
    Bounded maxEnvelopes backlog (bus.insert env) := by
  have appended : ids (bus.buf ++ [env]) = bus.held ++ [env.batchId] := by
    simp [EventBus.held, ids]
  have ascending : (ids (bus.buf ++ [env])).Pairwise (· < ·) := by
    rw [appended, List.pairwise_append]
    refine ⟨bounded.ascending, by simp, ?_⟩
    intro id member last inserted
    rw [List.mem_singleton.mp inserted]
    exact newest id member
  refine ⟨bounded.limit, ?_, ?_⟩
  · exact (appended ▸ ascending).sublist (held_insert_suffix bus env).sublist
  · have evicted := length_evict bus.maxEnvelopes bus.dhCursor bus.jrCursor ascending
    have waiting : ((ids (bus.buf ++ [env])).filter
        (Needed bus.dhCursor bus.jrCursor)).length ≤ (needed bus).length + 1 := by
      rw [appended, List.filter_append, List.length_append]
      exact Nat.add_le_add_left (List.length_filter_le _ _) _
    unfold EventBus.insert
    simp only
    rw [evicted, bounded.limit]
    omega

theorem bus_cases (taken : step m a = some m') :
    (∃ env ∈ m.inFlight, a = .insert env.batchId ∧ m'.bus = m.bus.insert env ∧
        m'.eventStore = m.eventStore ∧
        m'.inFlight = m.inFlight.filter fun e => e.batchId ≠ env.batchId) ∨
      m'.bus.buf = m.bus.buf ∧ m'.bus.maxEnvelopes = m.bus.maxEnvelopes ∧
        m.bus.dhCursor ≤ m'.bus.dhCursor ∧ m.bus.jrCursor ≤ m'.bus.jrCursor ∧
        ∃ new, ids m'.inFlight = ids m.inFlight ++ new ∧
          ∀ id ∈ m'.eventStore.stored, id ∈ m.eventStore.stored ∨ id ∈ new := by
  cases a with
  | persist rows producedNs =>
      obtain ⟨env, eventStore, persisted, rfl⟩ := persist_cases taken
      refine .inr ⟨rfl, rfl, le_refl _, le_refl _, [m.eventStore.con.eventStoreSeq],
        by simp [ids, persist_batchId persisted], ?_⟩
      intro id member
      change id ∈ eventStore.stored at member
      rw [persist_stored persisted] at member
      exact List.mem_append.mp member
  | insert batchId =>
      obtain ⟨env, flying, rfl, rfl⟩ := insert_cases taken
      exact .inl ⟨env, flying, rfl, rfl, rfl, rfl⟩
  | ackDh lastBatchId =>
      cases taken
      exact .inr ⟨rfl, rfl, le_max_left _ _, le_refl _, [], by simp [notifyAll],
        fun _ member => .inl member⟩
  | ackJournal lastBatchId =>
      cases taken
      exact .inr ⟨rfl, rfl, le_refl _, le_max_left _ _, [], by simp [notifyAll],
        fun _ member => .inl member⟩
  | markCommitted batchId now fault =>
      cases taken
      refine .inr ⟨rfl, rfl, le_refl _, le_refl _, [], by simp, ?_⟩
      intro id member
      exact .inl ((m.eventStore.markCommitted_stored batchId now fault id).mp member).1
  | drainForDh thread maxN | drainForJournal thread maxN =>
      rw [enter_cases taken]
      exact .inr ⟨rfl, rfl, le_refl _, le_refl _, [], by simp [setCall],
        fun _ member => .inl member⟩
  | look thread expired =>
      obtain ⟨_, _, _, ⟨_, rfl⟩ | ⟨_, rfl⟩⟩ := look_cases taken <;>
        exact .inr ⟨rfl, rfl, le_refl _, le_refl _, [], by simp [setCall],
          fun _ member => .inl member⟩
  | timeOut thread =>
      obtain ⟨_, _, _, rfl⟩ := timeOut_cases taken
      exact .inr ⟨rfl, rfl, le_refl _, le_refl _, [], by simp [setCall],
        fun _ member => .inl member⟩

theorem step_bounded (bounded : Bounded maxEnvelopes backlog m.bus) (inOrder : InOrder backlog m a)
    (taken : step m a = some m') : Bounded maxEnvelopes backlog m'.bus := by
  rcases bus_cases taken with ⟨env, _, rfl, bus, _⟩ | ⟨buf, limit, _⟩
  · rw [bus]
    exact insert_bounded bounded env inOrder.1 inOrder.2
  · refine ⟨limit.trans bounded.limit, ?_, ?_⟩
    · rw [EventBus.held, buf]
      exact bounded.ascending
    · rw [buf]
      exact bounded.length

theorem step_kept (kept : Kept old m) (taken : step m a = some m') : Kept old m' := by
  intro id member new
  rcases bus_cases taken with
    ⟨env, _, _, bus, store, inFlight⟩ | ⟨buf, _, dhCursor, jrCursor, added, inFlight, stored⟩
  · rw [store] at member
    rw [bus, inFlight]
    by_cases inserted : id = env.batchId
    · exact .inr (available_insert env (.inl (by simp [inserted])))
    · rcases kept id member new with flying | held | passed
      · obtain ⟨e, inside, rfl⟩ := List.mem_map.mp flying
        left
        exact List.mem_map_of_mem (List.mem_filter.mpr ⟨inside, by simpa using inserted⟩)
      · exact .inr (available_insert env (.inl (List.mem_append_left _ held)))
      · exact .inr (available_insert env (.inr passed))
  · rw [inFlight, EventBus.held, buf]
    rcases stored id member with before | persisted
    · rcases kept id before new with flying | held | passed
      · exact .inl (List.mem_append_left _ flying)
      · exact .inr (.inl held)
      · exact .inr (.inr ⟨le_trans passed.1 dhCursor, le_trans passed.2 jrCursor⟩)
    · exact .inl (List.mem_append_right _ persisted)

-- The ring keeps what a drain still needs, and otherwise stays within its limit: it is never longer
-- than the larger of its limit and the largest backlog an envelope was inserted into.
theorem ring_bounded {eventStore : DuckDbEventStore} {dhStart : Int}
    (reached : Reaches step (InOrder backlog) (.start eventStore maxEnvelopes dhStart) m) :
    (m.bus.buf.length : Int) ≤ max maxEnvelopes backlog ∧ m.bus.held.Pairwise (· < ·) ∧
      Kept eventStore.stored m := by
  have bounded : Bounded maxEnvelopes backlog m.bus ∧ Kept eventStore.stored m := by
    apply reached.invariant fun m =>
      Bounded maxEnvelopes backlog m.bus ∧ Kept eventStore.stored m
    · refine ⟨⟨rfl, List.Pairwise.nil, ?_⟩, fun id member new => absurd member new⟩
      exact le_trans (Int.natCast_nonneg backlog) (le_max_right _ _)
    · intro m a m' ⟨bounded, kept⟩ inOrder taken
      exact ⟨step_bounded bounded inOrder taken, step_kept kept taken⟩
  exact ⟨bounded.1.length, bounded.1.ascending, bounded.2⟩

-- A limit of one envelope is passed while two wait for the journal, and kept once it has caught up.
theorem ring_bounded_slow_journal :
    ∃ m, Reaches step (InOrder 2) (.start (connect .new {}) 1 0) m ∧ m.bus.held = [3] ∧
      m.bus.jrCursor = 2 ∧ (m.bus.buf.length : Int) ≤ max 1 2 ∧ m.bus.held.Pairwise (· < ·) ∧
      Kept (connect .new {}).stored m := by
  obtain ⟨m, reached, last⟩ := reaches_allowed_of_check step (InOrder 2) (.start (connect .new {}) 1 0)
    [.persist [] 0, .insert 1, .persist [] 1, .insert 2, .ackDh 2, .ackJournal 2, .persist [] 2,
      .insert 3]
    (fun m => m.bus.held = [3] ∧ m.bus.jrCursor = 2) (by decide +kernel) (by decide +kernel)
  obtain ⟨held, jrCursor⟩ := of_decide_eq_true last
  exact ⟨m, reached, held, jrCursor, ring_bounded reached⟩

end DeepFeeder.RingBound
