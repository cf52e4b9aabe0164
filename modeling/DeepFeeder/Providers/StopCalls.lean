import DeepFeeder.Providers.Lifecycle

set_option autoImplicit false

namespace DeepFeeder

namespace WsLifecycle

variable {s s' : WsLifecycle} {a : Action} {t w other : Nat} {call : WsCallPc} {pc : WsWorkerPc}

structure Connected (s : WsLifecycle) : Prop where
  running : ∀ w c, (s.workers w).pc = .running c → s.ws = some c
  known : ∀ c, s.ws = some c → c < s.opened

theorem Connected.frame (connected : Connected s) (ws : s'.ws = s.ws) (opened : s'.opened = s.opened)
    (running : ∀ w c, (s'.workers w).pc = .running c → (s.workers w).pc = .running c) :
    Connected s' where
  running w c found := ws.trans (connected.running w c (running w c found))
  known c found := opened ▸ connected.known c (ws.symm.trans found)

theorem update_running {worker : WsWorker} (idle : ∀ c, worker.pc ≠ .running c) {v c : Nat}
    (running : ((Function.update s.workers w worker) v).pc = .running c) :
    (s.workers v).pc = .running c := by
  by_cases own : v = w
  next =>
    rw [own, Function.update_self] at running
    exact absurd running (idle c)
  next => rwa [Function.update_of_ne own] at running

theorem Connected.change (connected : Connected s) (single : Single s) (change : Change s s') :
    Connected s' := by
  have only : ∀ {v w : Nat} {c : Nat}, (s.workers w).pc ≠ .ended → (s.workers v).pc = .running c →
      v = w := fun live found =>
    single.one _ _ (alive_eq.mpr (by simp [found])) (alive_eq.mpr live)
  cases change with
  | unchanged => exact connected
  | startBegun | assigned | stopBegun | closed | received =>
      exact connected.frame rfl rfl fun w c found => found
  | spawned t found =>
      exact connected.frame rfl rfl fun w c running => update_running (by simp) running
  | signalled t saw found workers kept =>
      refine connected.frame rfl rfl fun w c running => ?_
      change (workers w).pc = .running c at running
      rcases kept w with old | new
      next => rwa [old] at running
      next => rwa [new] at running
  | moved w pc live idle =>
      exact connected.frame rfl rfl fun w c running => update_running idle running
  | connected w found =>
      have here : (s.workers w).pc ≠ .ended := by simp [found]
      refine { running := fun v c running => ?_, known := fun c named => ?_ }
      next =>
        by_cases own : v = w
        next =>
          rw [own] at running
          simp only [addConnection, Function.update_self] at running
          cases running
          rfl
        next =>
          simp only [addConnection, Function.update_of_ne own] at running
          exact absurd (only here running) own
      next =>
        cases named
        exact Nat.lt_succ_self _
  | flushed w c found =>
      obtain ⟨_, ws, workers, _, opened, _, _, _⟩ := s.flushBatch_frame
      exact connected.frame ws opened fun v c running => workers ▸ running
  | cleared w found =>
      have here : (s.workers w).pc ≠ .ended := by simp [found]
      refine { running := fun v c running => ?_, known := fun c named => by cases named }
      have before : (s.workers v).pc = .running c := update_running (by simp) running
      rw [only here before, found] at before
      cases before
  | lastFlushed w pc found left =>
      obtain ⟨_, ws, workers, _, opened, _, _, _⟩ := s.flushBatch_frame
      refine connected.frame ws opened fun v c running => ?_
      simp only [setPc, workers] at running
      refine update_running (fun c => ?_) running
      rcases left with rfl | rfl
      all_goals simp

def Found (s : WsLifecycle) (c : Nat) : Prop :=
  some c ∈ s.stops ∨ ∃ t, s.calls t = .signalling (some c)

def Left (s : WsLifecycle) (c : Nat) : Prop :=
  c ∈ s.closed ∨ ∀ w, (s.workers w).pc ≠ .running c

structure Closes (s : WsLifecycle) : Prop where
  closing : ∀ t c, s.calls t = .closing c → c < s.opened
  known : ∀ c, s.Found c → c < s.opened
  left : ∀ c, s.Found c → s.Left c

theorem Left.mono {c : Nat} (left : s.Left c) (closed : ∀ c ∈ s.closed, c ∈ s'.closed)
    (running : ∀ w, (s'.workers w).pc = .running c → (s.workers w).pc = .running c) : s'.Left c :=
  left.imp (closed c) fun none w found => none w (running w found)

theorem Closes.frame (closes : Closes s) (opened : s.opened ≤ s'.opened)
    (closed : ∀ c ∈ s.closed, c ∈ s'.closed)
    (closing : ∀ t c, s'.calls t = .closing c → s.calls t = .closing c)
    (found : ∀ c, s'.Found c → s.Found c)
    (running : ∀ w c, c < s.opened → (s'.workers w).pc = .running c →
      (s.workers w).pc = .running c) : Closes s' where
  closing t c call := (closes.closing t c (closing t c call)).trans_le opened
  known c saw := (closes.known c (found c saw)).trans_le opened
  left c saw := (closes.left c (found c saw)).mono closed fun w =>
    running w c (closes.known c (found c saw))

section Called

variable (calls : s'.calls = Function.update s.calls t call)

include calls in
theorem found_update (stops : s'.stops = s.stops) {c : Nat} (found : s'.Found c) :
    s.Found c ∨ call = .signalling (some c) := by
  rcases found with returned | ⟨t', signalling⟩
  next => exact .inl (.inl (stops ▸ returned))
  next =>
    rw [calls] at signalling
    by_cases own : t' = t
    next =>
      rw [own, Function.update_self] at signalling
      exact .inr signalling
    next =>
      rw [Function.update_of_ne own] at signalling
      exact .inl (.inr ⟨t', signalling⟩)

include calls in
theorem closing_update {c t' : Nat} (closing : s'.calls t' = .closing c) :
    s.calls t' = .closing c ∨ call = .closing c := by
  rw [calls] at closing
  by_cases own : t' = t
  next =>
    rw [own, Function.update_self] at closing
    exact .inr closing
  next =>
    rw [Function.update_of_ne own] at closing
    exact .inl closing

include calls in
theorem Closes.called (closes : Closes s) (closing : ∀ c, call = .closing c → c < s.opened)
    (new : ∀ c, call ≠ .signalling (some c)) (stops : s'.stops = s.stops)
    (opened : s'.opened = s.opened) (closed : s'.closed = s.closed)
    (running : ∀ w c, (s'.workers w).pc = .running c → (s.workers w).pc = .running c) :
    Closes s' where
  closing t' c found := by
    rw [opened]
    exact (closing_update calls found).elim (closes.closing t' c) (closing c)
  known c found := by
    rw [opened]
    exact (found_update calls stops found).elim (closes.known c) fun same => absurd same (new c)
  left c found := by
    rcases found_update calls stops found with known | same
    next =>
      refine (closes.left c known).mono (fun c member => ?_) fun w => running w c
      rwa [closed]
    next => exact absurd same (new c)

end Called

theorem Closes.closed (closes : Closes s) (connected : Connected s) {c : Nat}
    (found : s.calls t = .closing c) :
    Closes ({ s with closed := s.ws.toList ++ s.closed }.setCall t (.signalling (some c))) := by
  have calls : ({ s with closed := s.ws.toList ++ s.closed }.setCall t
      (.signalling (some c))).calls = Function.update s.calls t (.signalling (some c)) := rfl
  have before : ∀ c', ({ s with closed := s.ws.toList ++ s.closed }.setCall t
      (.signalling (some c))).Found c' → s.Found c' ∨ c = c' := by
    intro c' saw
    refine (found_update calls rfl saw).imp_right ?_
    intro same
    cases same
    rfl
  refine
    { closing := fun t' c' call => ?_, known := fun c' saw => ?_, left := fun c' saw => ?_ }
  next =>
    rcases closing_update calls call with same | new
    next => exact closes.closing t' c' same
    next => cases new
  next =>
    rcases before c' saw with known | rfl
    next => exact closes.known c' known
    next => exact closes.closing t c found
  next =>
    have more : ∀ c ∈ s.closed, c ∈ s.ws.toList ++ s.closed := fun c => List.mem_append_right _
    rcases before c' saw with known | rfl
    next => exact (closes.left c' known).mono more fun w running => running
    next =>
      by_cases named : s.ws = some c
      next => exact .inl (List.mem_append_left _ (by simp [named]))
      next => exact .inr fun w running => named (connected.running w c running)

theorem Closes.signalled (closes : Closes s) {saw : Option Nat} (found : s.calls t = .signalling saw)
    {workers : Nat → WsWorker}
    (kept : ∀ w, workers w = s.workers w ∨ workers w = told (s.workers w)) :
    Closes ({ s with workers, stops := saw :: s.stops }.setCall t .idle) := by
  refine closes.frame le_rfl (fun c member => member) (fun t' c call => ?_) (fun c seen => ?_)
    fun w c _ running => ?_
  next =>
    exact (closing_update rfl call).resolve_right (by simp)
  next =>
    rcases seen with returned | ⟨t', signalling⟩
    next =>
      rcases List.mem_cons.mp returned with rfl | earlier
      next => exact .inr ⟨t, found⟩
      next => exact .inl earlier
    next =>
      by_cases own : t' = t
      next =>
        rw [own, setCall_calls] at signalling
        cases signalling
      next =>
        rw [setCall_other own] at signalling
        exact .inr ⟨t', signalling⟩
  next =>
    change (workers w).pc = .running c at running
    rcases kept w with old | new
    next => rwa [old] at running
    next => rwa [new] at running

theorem Closes.addConnection (closes : Closes s) : Closes (s.addConnection w) := by
  refine closes.frame (Nat.le_succ _) (fun c member => member) (fun t c call => call)
    (fun c saw => saw) fun v c known running => ?_
  by_cases own : v = w
  next =>
    rw [own] at running
    simp only [WsLifecycle.addConnection, Function.update_self] at running
    cases running
    exact absurd known (Nat.lt_irrefl _)
  next =>
    simp only [WsLifecycle.addConnection, Function.update_of_ne own] at running
    exact running

theorem Closes.change (closes : Closes s) (connected : Connected s) (change : Change s s') :
    Closes s' := by
  cases change with
  | unchanged => exact closes
  | startBegun t =>
      exact Closes.called (s := s) (t := t) rfl closes (by simp) (by simp) rfl rfl rfl
        fun w c running => running
  | assigned t w =>
      exact Closes.called (s := s) (t := t) rfl closes (by simp) (by simp) rfl rfl rfl
        fun w c running => running
  | spawned t =>
      exact Closes.called (s := s) (t := t) rfl closes (by simp) (by simp) rfl rfl rfl
        fun w c running => update_running (s := s) (by simp) running
  | stopBegun t call idle read =>
      refine Closes.called (t := t) rfl closes (fun c same => ?_) (fun c same => ?_) rfl rfl rfl
        fun w c running => running
      all_goals
        rcases read with rfl | ⟨c', named, rfl⟩
        all_goals cases same
      exact connected.known c named
  | closed t c found => exact closes.closed connected found
  | signalled t saw found workers kept => exact closes.signalled found kept
  | moved w pc live idle =>
      exact closes.frame le_rfl (fun c member => member) (fun t c call => call) (fun c saw => saw)
        fun v c _ running => update_running idle running
  | connected w => exact closes.addConnection
  | received =>
      exact closes.frame le_rfl (fun c member => member) (fun t c call => call) (fun c saw => saw)
        fun w c _ running => running
  | flushed =>
      unfold flushBatch
      split
      next => exact closes
      next =>
        exact closes.frame le_rfl (fun c member => member) (fun t c call => call)
          (fun c saw => saw) fun w c _ running => running
  | cleared w found =>
      exact closes.frame le_rfl (fun c member => member) (fun t c call => call) (fun c saw => saw)
        fun v c _ running => update_running (by simp) running
  | lastFlushed w pc found left =>
      have idle : ∀ c, pc ≠ .running c := by
        rcases left with rfl | rfl
        all_goals simp
      unfold flushBatch
      split
      all_goals
        exact closes.frame le_rfl (fun c member => member) (fun t c call => call)
          (fun c saw => saw) fun v c _ running => update_running idle running

def Obeys (worker : WsWorker) : Prop :=
  ∀ n, worker.stoppedAt = some n →
    worker.connections ≤ n + 1 ∧ (worker.pc = .connecting → worker.connections ≤ n)

theorem obeys_told {worker : WsWorker} (obeys : Obeys worker) : Obeys (told worker) := by
  intro n stopped
  cases before : worker.stoppedAt with
  | some m =>
      simp only [told, before, Option.getD_some, Option.some.injEq] at stopped
      subst stopped
      exact obeys m before
  | none =>
      simp only [told, before, Option.getD_none, Option.some.injEq] at stopped
      subst stopped
      exact ⟨Nat.le_succ _, fun _ => le_rfl⟩

theorem obeys_update {worker : WsWorker} (obeys : ∀ w, Obeys (s.workers w)) (own : Obeys worker)
    (v : Nat) : Obeys ((Function.update s.workers w worker) v) := by
  by_cases same : v = w
  next =>
    rw [same, Function.update_self]
    exact own
  next =>
    rw [Function.update_of_ne same]
    exact obeys v

theorem obeys_moved {worker : WsWorker} (obeys : Obeys worker)
    (untold : pc = .connecting → worker.stoppedAt = none) : Obeys { worker with pc } := by
  intro n stopped
  refine ⟨(obeys n stopped).1, fun connecting => ?_⟩
  have none := untold connecting
  simp only [none] at stopped
  cases stopped

theorem obeys_change (obeys : ∀ w, Obeys (s.workers w)) (change : Change s s') :
    ∀ w, Obeys (s'.workers w) := by
  cases change with
  | unchanged | startBegun | assigned | stopBegun | closed | received => exact obeys
  | spawned => exact obeys_update obeys (by simp [Obeys])
  | signalled t saw found workers kept =>
      intro w
      change Obeys (workers w)
      rcases kept w with old | new
      next => rw [old]; exact obeys w
      next => rw [new]; exact obeys_told (obeys w)
  | moved w pc live idle holds untold =>
      exact obeys_update obeys (obeys_moved (obeys w) untold)
  | connected w found =>
      refine obeys_update obeys fun n stopped => ⟨?_, by simp⟩
      exact Nat.succ_le_succ (((obeys w) n stopped).2 found)
  | flushed =>
      rw [s.flushBatch_frame.2.2.1]
      exact obeys
  | cleared w found => exact obeys_update obeys (obeys_moved (obeys w) (by simp))
  | lastFlushed w pc found left =>
      simp only [setPc, s.flushBatch_frame.2.2.1]
      refine obeys_update obeys (obeys_moved (obeys w) ?_)
      rcases left with rfl | rfl
      all_goals simp

structure Kept (s : WsLifecycle) : Prop where
  all : s.accepted = s.flushes.flatten ++ s.batch
  waits : s.batch ≠ [] → ∃ w, (s.workers w).pc.holds = true

theorem Kept.frame (kept : Kept s) (accepted : s'.accepted = s.accepted)
    (flushes : s'.flushes = s.flushes) (batch : s'.batch = s.batch)
    (holds : ∀ w, (s.workers w).pc.holds = true → (s'.workers w).pc.holds = true) : Kept s' where
  all := by rw [accepted, flushes, batch]; exact kept.all
  waits some := (kept.waits (batch ▸ some)).imp holds

theorem flushBatch_batch : s.flushBatch.batch = [] := by
  unfold flushBatch
  split
  next empty => exact List.isEmpty_iff.mp empty
  next => rfl

theorem flushBatch_all (kept : Kept s) :
    s.flushBatch.accepted = s.flushBatch.flushes.flatten ++ s.flushBatch.batch := by
  unfold flushBatch
  split
  next => exact kept.all
  next => simp [kept.all]

theorem update_holds {worker : WsWorker} (own : (s.workers w).pc.holds = true → worker.pc.holds = true)
    {v : Nat} (holds : (s.workers v).pc.holds = true) :
    ((Function.update s.workers w worker) v).pc.holds = true := by
  by_cases same : v = w
  next =>
    rw [same, Function.update_self]
    exact own (same ▸ holds)
  next => rwa [Function.update_of_ne same]

theorem Kept.change (kept : Kept s) (single : Single s) (change : Change s s') : Kept s' := by
  cases change with
  | unchanged => exact kept
  | startBegun | assigned | stopBegun | closed =>
      exact kept.frame rfl rfl rfl fun w holds => holds
  | spawned t found =>
      -- The number of the new worker was that of a thread that is not alive.
      refine kept.frame rfl rfl rfl fun v holds => update_holds (fun held => ?_) holds
      have dead := single.spawning t found s.spawned
      simp only [alive, decide_eq_false_iff_not, not_not] at dead
      rw [dead] at held
      cases held
  | signalled t saw found workers same =>
      refine kept.frame rfl rfl rfl fun w holds => ?_
      change (workers w).pc.holds = true
      rcases same w with old | new
      next => rwa [old]
      next => rwa [new]
  | moved w pc live idle holds untold =>
      exact kept.frame rfl rfl rfl fun v held => update_holds holds held
  | connected w found =>
      exact kept.frame rfl rfl rfl fun v held => update_holds (fun _ => rfl) held
  | received w c tick found =>
      refine { all := ?_, waits := fun _ => ⟨w, by simp [found, WsWorkerPc.holds]⟩ }
      change s.accepted ++ [tick] = s.flushes.flatten ++ (s.batch ++ [tick])
      rw [kept.all, List.append_assoc]
  | flushed =>
      exact { all := flushBatch_all kept, waits := fun some => absurd flushBatch_batch some }
  | cleared w found =>
      exact kept.frame rfl rfl rfl fun v held => update_holds (fun _ => rfl) held
  | lastFlushed =>
      exact { all := flushBatch_all kept, waits := fun some => absurd flushBatch_batch some }

structure Inv (s : WsLifecycle) : Prop where
  single : Single s
  connected : Connected s
  closes : Closes s
  obeys : ∀ w, Obeys (s.workers w)
  kept : Kept s

theorem Inv.step (inv : Inv s) (permitted : StartsApart s a) (taken : s.step a = some s') : Inv s' :=
  have change := step_change permitted taken
  { single := inv.single.change change
    connected := inv.connected.change inv.single change
    closes := inv.closes.change inv.connected change
    obeys := obeys_change inv.obeys change
    kept := inv.kept.change inv.single change }

theorem Inv.initial : Inv start where
  single :=
    { one := by simp [start, alive], named := by simp [start, alive], spawning := by simp [start]
      assigning := by simp [start], apart := by simp [start, WsCallPc.inStart]
      counted := by simp [start, WsCallPc.inStart] }
  connected := { running := by simp [start], known := by simp [start] }
  closes :=
    { closing := by simp [start], known := by simp [start, Found]
      left := by simp [start, Found] }
  obeys := by simp [start, Obeys]
  kept := { all := rfl, waits := by simp [start] }

/-- Where calls of `start` do not overlap, with calls of `stop` at any time: one worker is alive at
most, and it is the one that `stop` tells, or that a call of `start` is about to name; no worker
stays on a connection that a `stop` found without closing it; a worker that was told makes at most
one more connection; and what was accepted was flushed when no worker is alive. -/
theorem stops_hold (reached : Transition.Reaches step StartsApart start s) :
    (∀ v w, s.alive v = true → s.alive w = true → v = w) ∧
      (∀ w, s.alive w = true → s.worker = some w ∨ ∃ t, s.calls t = .assigning w) ∧
      (∀ c, some c ∈ s.stops → c ∈ s.closed ∨ ∀ w, (s.workers w).pc ≠ .running c) ∧
      (∀ w n, (s.workers w).stoppedAt = some n → (s.workers w).connections ≤ n + 1) ∧
      s.accepted = s.flushes.flatten ++ s.batch ∧
      ((∀ w, s.alive w = false) → s.batch = []) := by
  have inv : Inv s := reached.invariant Inv Inv.initial fun _ _ _ inv permitted taken =>
    inv.step permitted taken
  refine ⟨inv.single.one, inv.single.named, fun c found => inv.closes.left c (.inl found),
    fun w n told => (inv.obeys w n told).1, inv.kept.all, fun dead => ?_⟩
  by_contra waiting
  obtain ⟨w, holds⟩ := inv.kept.waits waiting
  have gone : (s.workers w).pc = .ended := by simpa [alive] using dead w
  rw [gone] at holds
  cases holds

def trade : Tick :=
  { provider := "binance", stream := "trades", symbol := "BTCUSDT", tsNs := 0, seq := some 1
    payload := [] }

-- The worker lost its connection and connects again behind the close, before it is told.
def lateStop : List Action :=
  [.start 0, .spawn 0, .assign 0, .test 0, .connect 0, .message 0 trade, .stop 1, .close 1,
    .hangUp 0, .clearWs 0, .lastFlush 0 false, .check 0, .wake 0, .test 0, .signal 1, .connect 0]

theorem stops_hold_late :
    ∃ s, Transition.Reaches step StartsApart start s ∧
      (s.workers 0).connections = 2 ∧ (s.workers 0).stoppedAt = some 1 ∧ s.stops = [some 0] ∧
      (0 ∈ s.closed ∨ ∀ w, (s.workers w).pc ≠ .running 0) := by
  obtain ⟨s, reached, seen⟩ := Transition.reaches_allowed_of_check step StartsApart start lateStop
    (fun s => decide ((s.workers 0).connections = 2 ∧ (s.workers 0).stoppedAt = some 1 ∧
      s.stops = [some 0])) (by decide) (by decide)
  obtain ⟨connections, stopped, stops⟩ := of_decide_eq_true seen
  exact ⟨s, reached, connections, stopped, stops,
    (stops_hold reached).2.2.1 0 (by rw [stops]; exact List.mem_singleton.mpr rfl)⟩

end WsLifecycle

end DeepFeeder
