import DeepFeeder.Fanout.Gapless

set_option autoImplicit false

namespace DeepFeeder.Gapless

open Transition

def AllSnapshot (phases : List Phase) : Prop := ∀ phase ∈ phases, phase = .snapshot

def Finished (phases : List Phase) : Prop :=
  ∃ history after, phases = history ++ .snapshotBoundary :: after ∧ AllSnapshot history ∧
    ∀ phase ∈ after, phase = .live

/-- The phases that a client has received so far are a beginning of snapshot* boundary live*. -/
def InPhaseOrder (phases : List Phase) : Prop := AllSnapshot phases ∨ Finished phases

namespace State

def phases (s : State) (client : Nat) : List Phase :=
  (s.received client).map fun delivered => delivered.1.phase

def ownPhases (s : State) (client : Nat) : List Phase :=
  (s.workers (.client client)).events.map Event.phase

end State

def liveEvents [Uppercase] [QueryLanguage] (requests : Nat → Request) (s : State) :
    Action → List Event
  | .update key added modified nowNs =>
      match s.feeder.lsn.lookup key with
      | none => []
      | some lsn =>
          emitCompleted requests s.feeder key
            (lsn.onUpdate (tableUpdate s lsn added modified) nowNs).1
  | _ => []

-- No update has rows for a client that is between its subscription and its boundary.
def UpdateAfterBoundary [Uppercase] [QueryLanguage] (requests : Nat → Request) (s : State)
    (a : Action) : Prop :=
  ∀ event ∈ liveEvents requests s a, s.attached event.client = true

instance [Uppercase] [QueryLanguage] (requests : Nat → Request) (s : State) (a : Action) :
    Decidable (UpdateAfterBoundary requests s a) :=
  inferInstanceAs (Decidable (∀ event ∈ liveEvents requests s a, s.attached event.client = true))

def Stage (pc : AttachPc) (received own : List Phase) : Prop :=
  match pc with
  | .begin | .reset | .subscribed _ | .failed _ => received = [] ∧ own = []
  | .snapshotted _ _ | .caughtUp _ _ => AllSnapshot received ∧ AllSnapshot own
  | .bounded _ => AllSnapshot received ∧ own = [.snapshotBoundary] ∨ Finished received ∧ own = []
  | .detached => Finished received ∧ own = []

def Past (s : State) (client : Nat) : Prop :=
  s.attached client = true ∨ s.pc client = .detached

def StagesMet (s : State) : Prop :=
  (∀ client, Stage (s.pc client) (s.phases client) (s.ownPhases client)) ∧
    (∀ client, ∀ event ∈ (s.workers (.client client)).events, event.client = client) ∧
    ∀ event ∈ (s.workers .updates).events, event.phase = .live ∧ Past s event.client

variable {requests : Nat → Request} {s s' : State} {client : Nat}

theorem attached_iff (s : State) (client : Nat) :
    s.attached client = true ↔
      (∃ handle, s.pc client = .bounded handle) ∧ s.ownPhases client = [] := by
  unfold State.attached State.ownPhases
  rw [Worker.idle_eq_isEmpty]
  split
  next handle here => simp [here]
  next other =>
    constructor
    · intro absurd
      cases absurd
    · rintro ⟨⟨handle, here⟩, _⟩
      exact absurd here (other handle)

theorem inPhaseOrder_of_stage {pc : AttachPc} {received own : List Phase}
    (stage : Stage pc received own) : InPhaseOrder received := by
  cases pc with
  | begin | reset | subscribed | failed =>
      obtain ⟨rfl, _⟩ := stage
      exact .inl fun _ member => nomatch member
  | snapshotted | caughtUp => exact .inl stage.1
  | bounded handle =>
      rcases stage with ⟨received, _⟩ | ⟨received, _⟩
      · exact .inl received
      · exact .inr received
  | detached => exact .inr stage.1

theorem StagesMet.advance (met : StagesMet s) (early : ¬ Past s client) {pc : AttachPc}
    {events : List Event} (own : ∀ event ∈ events, event.client = client)
    (stage : Stage pc (s.phases client) (events.map Event.phase)) :
    StagesMet ((s.setPc client pc).queue (.client client) events) := by
  obtain ⟨stages, owned, updates⟩ := met
  refine ⟨?_, ?_, ?_⟩
  · intro other
    by_cases same : other = client
    · subst same
      simpa [State.queue, State.setPc, State.phases, State.ownPhases] using stage
    · simpa [State.queue, State.setPc, State.phases, State.ownPhases, same] using stages other
  · intro other event
    by_cases same : other = client
    · subst same
      simpa [State.queue, State.setPc] using own event
    · simpa [State.queue, State.setPc, same] using owned other event
  · intro event member
    have unchanged : event ∈ (s.workers .updates).events := by
      simpa [State.queue, State.setPc] using member
    obtain ⟨live, past⟩ := updates event unchanged
    have different : event.client ≠ client := fun same => early (same ▸ past)
    refine ⟨live, ?_⟩
    simpa [Past, State.attached, State.queue, State.setPc, different] using past

theorem worker_of_ownPhases (own : s.ownPhases client = []) : s.workers (.client client) = {} := by
  rw [← Worker.idle_iff, Worker.idle_eq_isEmpty, List.isEmpty_iff]
  exact List.map_eq_nil_iff.mp own

theorem StagesMet.move (met : StagesMet s) (early : ¬ Past s client) {pc : AttachPc}
    (own : s.ownPhases client = []) (stage : Stage pc (s.phases client) []) :
    StagesMet (s.setPc client pc) := by
  have idle : (s.setPc client pc).workers (.client client) = {} := worker_of_ownPhases own
  rw [← State.queue_nil idle]
  exact met.advance early (by simp) stage

theorem not_past {pc : AttachPc} (here : s.pc client = pc)
    (unbounded : ∀ handle, pc ≠ .bounded handle)
    (undetached : pc ≠ .detached) : ¬ Past s client := by
  rintro (attached | detached)
  · obtain ⟨⟨handle, bounded⟩, _⟩ := (attached_iff s client).mp attached
    exact unbounded handle (here.symm.trans bounded)
  · exact undetached (here.symm.trans detached)

theorem update_stagesMet [Uppercase] [QueryLanguage] {key : String} {added modified : List Nat}
    {nowNs : Int} (met : StagesMet s)
    (late : UpdateAfterBoundary requests s (.update key added modified nowNs))
    (taken : update requests s key added modified nowNs = some s') : StagesMet s' := by
  obtain ⟨lsn, found, _, rfl⟩ := update_eq taken
  obtain ⟨stages, owned, _⟩ := met
  refine ⟨stages, owned, ?_⟩
  intro event member
  have queued : event ∈ emitCompleted requests s.feeder key
      (lsn.onUpdate (tableUpdate s lsn added modified) nowNs).1 := by
    simpa [State.queue] using member
  obtain ⟨_, _, live, _⟩ := mem_emitCompleted queued
  exact ⟨live, .inl (late event (by rw [liveEvents, found]; exact queued))⟩

theorem number_stagesMet {thread : Thread} (met : StagesMet s)
    (taken : number s thread = some s') : StagesMet s' := by
  obtain ⟨event, rest, here, rfl⟩ := number_eq taken
  have same := State.readSeq_events here
  obtain ⟨stages, owned, updates⟩ := met
  refine ⟨?_, ?_, ?_⟩
  · intro client
    unfold State.ownPhases
    rw [same]
    exact stages client
  · intro client
    rw [same]
    exact owned client
  · rw [same]
    intro queued member
    obtain ⟨live, past⟩ := updates queued member
    refine ⟨live, ?_⟩
    unfold Past at past ⊢
    rw [attached_iff, State.ownPhases] at past ⊢
    rw [same]
    exact past

theorem advance_stagesMet {thread : Thread} (met : StagesMet s)
    (taken : advance s thread = some s') : StagesMet s' := by
  obtain ⟨event, seq, rest, here, rfl⟩ := advance_eq taken
  have same := State.writeSeq_events here
  obtain ⟨stages, owned, updates⟩ := met
  refine ⟨?_, ?_, ?_⟩
  · intro client
    unfold State.ownPhases
    rw [same]
    exact stages client
  · intro client
    rw [same]
    exact owned client
  · rw [same]
    intro queued member
    obtain ⟨live, past⟩ := updates queued member
    refine ⟨live, ?_⟩
    unfold Past at past ⊢
    rw [attached_iff, State.ownPhases] at past ⊢
    rw [same]
    exact past

theorem Stage.emitOwn {pc : AttachPc} {received rest : List Phase} {phase : Phase}
    (stage : Stage pc received (phase :: rest)) : Stage pc (received ++ [phase]) rest := by
  have extended (history : AllSnapshot received) (snapshot : phase = .snapshot) :
      AllSnapshot (received ++ [phase]) := by
    intro other member
    rcases List.mem_append.mp member with earlier | last
    · exact history other earlier
    · exact (List.mem_singleton.mp last).trans snapshot
  cases pc with
  | begin | reset | subscribed | failed => cases stage.2
  | snapshotted | caughtUp =>
      obtain ⟨history, own⟩ := stage
      have snapshot := own phase List.mem_cons_self
      exact ⟨extended history snapshot, fun other member => own other (List.mem_cons_of_mem _ member)⟩
  | bounded handle =>
      rcases stage with ⟨history, own⟩ | ⟨_, absurd⟩
      · cases own
        exact .inr ⟨⟨received, [], rfl, history, fun _ member => nomatch member⟩, rfl⟩
      · cases absurd
  | detached => cases stage.2

theorem Stage.emitLive {pc : AttachPc} {received own : List Phase} (stage : Stage pc received own)
    (past : (∃ handle, pc = .bounded handle) ∧ own = [] ∨ pc = .detached) :
    Stage pc (received ++ [.live]) own := by
  have extended (finished : Finished received) : Finished (received ++ [.live]) := by
    obtain ⟨history, after, rfl, snapshot, lives⟩ := finished
    refine ⟨history, after ++ [.live], by simp, snapshot, ?_⟩
    intro phase member
    rcases List.mem_append.mp member with earlier | last
    · exact lives phase earlier
    · exact List.mem_singleton.mp last
  rcases past with ⟨⟨handle, rfl⟩, rfl⟩ | rfl
  · rcases stage with ⟨_, absurd⟩ | ⟨finished, _⟩
    · cases absurd
    · exact .inr ⟨extended finished, rfl⟩
  · exact ⟨extended stage.1, stage.2⟩

theorem emit_updates_stagesMet (met : StagesMet s) (taken : emit s .updates = some s') :
    StagesMet s' := by
  obtain ⟨event, seq, rest, here, rfl⟩ := emit_eq taken
  obtain ⟨stages, owned, updates⟩ := met
  refine ⟨?_, ?_, ?_⟩
  · intro client
    by_cases same : client = event.client
    · subst same
      obtain ⟨live, past⟩ := updates event (by simp [here])
      unfold Past at past
      rw [attached_iff] at past
      simpa [State.deliver, State.phases, State.ownPhases, live] using (stages event.client).emitLive past
    · simpa [State.deliver, State.phases, State.ownPhases, same] using stages client
  · intro client
    simpa [State.deliver] using owned client
  · intro queued member
    simpa [State.deliver, Past, State.attached] using updates queued (State.deliver_events here member)

theorem emit_own_stagesMet (met : StagesMet s) (taken : emit s (.client client) = some s') :
    StagesMet s' := by
  obtain ⟨event, seq, rest, here, rfl⟩ := emit_eq taken
  obtain ⟨stages, owned, updates⟩ := met
  have same : event.client = client := owned client event (by simp [here])
  refine ⟨?_, ?_, ?_⟩
  · intro other
    by_cases equal : other = client
    · subst equal
      have stage := stages other
      unfold State.ownPhases at stage
      rw [here, Worker.events_numbered, List.map_cons] at stage
      simpa [State.deliver, State.phases, State.ownPhases, same] using stage.emitOwn
    · have apart : other ≠ event.client := fun equal' => equal (equal'.trans same)
      simpa [State.deliver, State.phases, State.ownPhases, equal, apart] using stages other
  · intro other queued member
    exact owned other queued (State.deliver_events here member)
  · intro queued member
    obtain ⟨live, past⟩ := updates queued (by simpa [State.deliver] using member)
    have apart : queued.client ≠ client := by
      -- The boundary is not behind a client whose own thread still emits.
      rintro rfl
      unfold Past at past
      rw [attached_iff] at past
      have stage := stages queued.client
      unfold State.ownPhases at past stage
      rw [here, Worker.events_numbered, List.map_cons] at past stage
      rcases past with ⟨_, absurd⟩ | detached
      · cases absurd
      · rw [detached] at stage
        cases stage.2
    refine ⟨live, ?_⟩
    simpa [State.deliver, Past, State.attached, apart] using past

theorem detach_stagesMet (met : StagesMet s) (taken : detach s client = some s') :
    StagesMet s' := by
  obtain ⟨handle, here, idle, rfl⟩ := detach_eq taken
  obtain ⟨stages, owned, updates⟩ := met
  have own : s.ownPhases client = [] := by
    rw [State.ownPhases, idle]
    rfl
  refine ⟨?_, owned, ?_⟩
  · intro other
    by_cases same : other = client
    · subst same
      have stage := stages other
      rw [here, own] at stage
      have finished : Finished (s.phases other) := by
        rcases stage with ⟨_, absurd⟩ | ⟨finished, _⟩
        · cases absurd
        · exact finished
      have after : Stage .detached (s.phases other) (s.ownPhases other) := ⟨finished, own⟩
      simpa [State.setPc, State.phases, State.ownPhases] using after
    · simpa [State.setPc, State.phases, State.ownPhases, same] using stages other
  · intro event member
    obtain ⟨live, past⟩ := updates event member
    refine ⟨live, ?_⟩
    by_cases same : event.client = client
    · exact .inr (by simp [State.setPc, same])
    · simpa [Past, State.attached, State.setPc, same] using past

theorem step_stagesMet [Uppercase] [QueryLanguage] {a : Action} (met : StagesMet s)
    (late : UpdateAfterBoundary requests s a) (taken : step requests s a = some s') :
    StagesMet s' := by
  have stages := met.1
  cases a with
  | write provider dataSchema rows =>
      cases taken
      exact met
  | update key added modified nowNs => exact update_stagesMet met late taken
  | reset client =>
      obtain ⟨here, result⟩ := reset_eq taken
      have early : ¬ Past s client := not_past here (by simp) (by simp)
      have stage := stages client
      rw [here] at stage
      rcases result with ⟨text, rfl⟩ | rfl
      · exact met.move early stage.2 ⟨stage.1, rfl⟩
      · exact StagesMet.move (s := { s with seqs := _ }) met early stage.2 ⟨stage.1, rfl⟩
  | subscribe client creation =>
      obtain ⟨here, result⟩ := subscribe_eq taken
      have early : ¬ Past s client := not_past here (by simp) (by simp)
      have stage := stages client
      rw [here] at stage
      rcases result with ⟨text, feeder, _, rfl⟩ | ⟨handle, feeder, _, rfl⟩
      · exact StagesMet.move (s := { s with feeder }) met early stage.2 ⟨stage.1, rfl⟩
      · exact StagesMet.move (s := { s with feeder }) met early stage.2 ⟨stage.1, rfl⟩
  | takeSnapshot client nowNs failure =>
      obtain ⟨handle, here, result⟩ := takeSnapshot_eq taken
      have early : ¬ Past s client := not_past here (by simp) (by simp)
      have stage := stages client
      rw [here] at stage
      rcases result with ⟨text, _, rfl⟩ | ⟨_, spec, _, _, rfl⟩
      · exact met.move early stage.2 ⟨stage.1, rfl⟩
      · apply met.advance early
        · exact fun event member => (mem_snapshotEvents member).1
        · refine ⟨?_, ?_⟩
          · rw [stage.1]
            exact fun _ member => nomatch member
          · intro phase member
            obtain ⟨event, inside, rfl⟩ := List.mem_map.mp member
            exact (mem_snapshotEvents inside).2.2.2.1
  | catchUp client =>
      obtain ⟨handle, watermark, here, _, rfl⟩ := catchUp_eq taken
      have stage := stages client
      rw [here] at stage
      apply met.advance (not_past here (by simp) (by simp))
      · exact fun event member => (mem_replay member).1
      · refine ⟨stage.1, ?_⟩
        intro phase member
        obtain ⟨event, inside, rfl⟩ := List.mem_map.mp member
        exact (mem_replay inside).2.2.2
  | boundary client =>
      obtain ⟨handle, watermark, here, _, rfl⟩ := boundary_eq taken
      have stage := stages client
      rw [here] at stage
      apply met.advance (not_past here (by simp) (by simp))
      · intro event member
        rw [List.mem_singleton.mp member]
        rfl
      · exact .inl ⟨stage.1, rfl⟩
  | detach client => exact detach_stagesMet met taken
  | number thread => exact number_stagesMet met taken
  | advance thread => exact advance_stagesMet met taken
  | emit thread =>
      cases thread with
      | updates => exact emit_updates_stagesMet met taken
      | client id => exact emit_own_stagesMet met taken

theorem start_stagesMet (feeder : MarketFeeder) (seqs : Dict String Nat)
    (tables : String → String → List Row) : StagesMet (.start feeder seqs tables) := by
  refine ⟨fun _ => ⟨rfl, rfl⟩, ?_, ?_⟩
  · intro client event member
    cases member
  · intro event member
    cases member

theorem phases_in_order [Uppercase] [QueryLanguage] {feeder : MarketFeeder} {seqs : Dict String Nat}
    {tables : String → String → List Row}
    (reached : Reaches (step requests) (UpdateAfterBoundary requests) (.start feeder seqs tables) s)
    (client : Nat) : InPhaseOrder (s.phases client) := by
  have met : StagesMet s := by
    apply reached.invariant StagesMet (start_stagesMet feeder seqs tables)
    intro s a s' met late taken
    exact step_stagesMet met late taken
  exact inPhaseOrder_of_stage (met.1 client)

attribute [local instance] asciiUppercase equalityTests

-- The trade comes after the boundary.
theorem phases_in_order_quiet :
    ∃ s, Reaches (step tradeRequests) (UpdateAfterBoundary tradeRequests) (.start {} ∅ fun _ _ => [])
        s ∧
      s.phases 0 = [.snapshot, .snapshotBoundary, .live] ∧ InPhaseOrder (s.phases 0) := by
  obtain ⟨s, reached, phases⟩ := reaches_allowed_of_check (step tradeRequests)
    (UpdateAfterBoundary tradeRequests) (.start {} ∅ fun _ _ => [])
    ([tradesUpTo 1000000000] ++ attaches 0 ++
      [tradesUpTo 2000000000, .update "binance|trades|BTCUSDT" [1] [] 2050000000] ++ emits .updates)
    (fun s => s.phases 0 = [.snapshot, .snapshotBoundary, .live]) (by decide +kernel)
    (by decide +kernel)
  exact ⟨s, reached, of_decide_eq_true phases, phases_in_order reached 0⟩

-- The trade comes between the subscription and the snapshot query.
theorem live_before_boundary :
    ∃ s, Reaches (step tradeRequests) anyStep (.start {} ∅ fun _ _ => []) s ∧
      s.phases 0 = [.live, .snapshot, .snapshot, .snapshotBoundary] ∧
      ¬ InPhaseOrder (s.phases 0) := by
  obtain ⟨s, reached, phases⟩ := reaches_of_check (step tradeRequests)
    (.start {} ∅ fun _ _ => [])
    ([.reset 0, .subscribe 0 (.started 256), tradesUpTo 1000000000,
        .update "binance|trades|BTCUSDT" [0] [] 1050000000] ++ emits .updates ++
      [.takeSnapshot 0 0 none] ++ emits (.client 0) ++ [.catchUp 0] ++ emits (.client 0) ++
      [.boundary 0] ++ emits (.client 0))
    (fun s => s.phases 0 = [.live, .snapshot, .snapshot, .snapshotBoundary]) (by decide +kernel)
  have order := of_decide_eq_true phases
  refine ⟨s, reached, order, ?_⟩
  rw [order]
  rintro (snapshots | ⟨history, after, split, snapshots, lives⟩)
  · have first := snapshots .live List.mem_cons_self
    cases first
  · cases history with
    | nil => cases split
    | cons phase rest =>
        rw [List.cons_append, List.cons.injEq] at split
        have first := snapshots phase List.mem_cons_self
        rw [← split.1] at first
        cases first

end DeepFeeder.Gapless
