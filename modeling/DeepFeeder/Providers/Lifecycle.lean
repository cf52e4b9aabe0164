import Mathlib.Logic.Function.Basic
import DeepFeeder.Core.Contracts
import DeepFeeder.Shared.Transition

set_option autoImplicit false

namespace DeepFeeder

inductive WsWorkerPc where
  | test
  | connecting
  | running (ws : Nat)
  -- In `finally`, before `self._ws = None`, before the flush and behind it.
  | leaving
  | flushing
  | checking
  | sleeping
  | ended
  deriving DecidableEq

def WsWorkerPc.holds : WsWorkerPc → Bool
  | .running _ | .leaving | .flushing => true
  | _ => false

structure WsWorker where
  pc : WsWorkerPc
  connections : Nat
  -- The stop event, with how many connections were made when it was set first.
  stoppedAt : Option Nat

inductive WsCallPc where
  | idle
  | spawning
  | assigning (worker : Nat)
  | closing (ws : Nat)
  -- With the connection that was found, if one was.
  | signalling (ws : Option Nat)

def WsCallPc.inStart : WsCallPc → Bool
  | .spawning | .assigning _ => true
  | _ => false

/-- A websocket producer with all threads that call it and those it spawned. Connections and workers
are numbered as they come. -/
structure WsLifecycle where
  worker : Option Nat
  ws : Option Nat
  batch : List Tick
  workers : Nat → WsWorker
  calls : Nat → WsCallPc
  spawned : Nat
  opened : Nat
  -- How many calls of `start` are past the check.
  startsOpen : Nat
  closed : List Nat
  -- What the calls of `stop` that signalled found.
  stops : List (Option Nat)
  accepted : List Tick
  flushes : List (List Tick)

namespace WsLifecycle

def start : WsLifecycle :=
  { worker := none, ws := none, batch := []
    workers := fun _ => { pc := .ended, connections := 0, stoppedAt := none }
    calls := fun _ => .idle
    spawned := 0, opened := 0, startsOpen := 0, closed := [], stops := [], accepted := []
    flushes := [] }

inductive Action where
  | start (thread : Nat)
  | spawn (thread : Nat)
  | assign (thread : Nat)
  | stop (thread : Nat)
  | close (thread : Nat)
  | signal (thread : Nat)
  | test (worker : Nat)
  -- `WebSocketApp(...)` returns, or raises.
  | connect (worker : Nat)
  | connectFailed (worker : Nat)
  | message (worker : Nat) (tick : Tick)
  | flush (worker : Nat)
  -- `run_forever` returns or raises, for whatever reason.
  | hangUp (worker : Nat)
  | clearWs (worker : Nat)
  | lastFlush (worker : Nat) (raised : Bool)
  | check (worker : Nat)
  | wake (worker : Nat)

def alive (s : WsLifecycle) (w : Nat) : Bool := decide ((s.workers w).pc ≠ .ended)

def setCall (s : WsLifecycle) (t : Nat) (pc : WsCallPc) : WsLifecycle :=
  { s with calls := Function.update s.calls t pc }

def setPc (s : WsLifecycle) (w : Nat) (pc : WsWorkerPc) : WsLifecycle :=
  { s with workers := Function.update s.workers w { s.workers w with pc } }

def beginStart (s : WsLifecycle) (t : Nat) : WsLifecycle :=
  { s with startsOpen := s.startsOpen + 1 }.setCall t .spawning

-- The thread runs before `self._worker` names it.
def addWorker (s : WsLifecycle) (t : Nat) : WsLifecycle :=
  { s with
    spawned := s.spawned + 1
    workers := Function.update s.workers s.spawned
      { pc := .test, connections := 0, stoppedAt := none } }.setCall t (.assigning s.spawned)

def nameWorker (s : WsLifecycle) (t w : Nat) : WsLifecycle :=
  { s with worker := some w, startsOpen := s.startsOpen - 1 }.setCall t .idle

def addConnection (s : WsLifecycle) (w : Nat) : WsLifecycle :=
  { s with
    ws := some s.opened
    opened := s.opened + 1
    workers := Function.update s.workers w
      { s.workers w with
        pc := .running s.opened
        connections := (s.workers w).connections + 1 } }

def isAlive (s : WsLifecycle) : Bool :=
  match s.worker with
  | none => false
  | some w => s.alive w

def startCall (s : WsLifecycle) (t : Nat) : Option WsLifecycle :=
  match s.calls t with
  | .idle =>
      if s.isAlive then some (s.setCall t .idle)
      else some (s.beginStart t)
  | _ => none

def spawn (s : WsLifecycle) (t : Nat) : Option WsLifecycle :=
  match s.calls t with
  | .spawning => some (s.addWorker t)
  | _ => none

def assign (s : WsLifecycle) (t : Nat) : Option WsLifecycle :=
  match s.calls t with
  | .assigning w => some (s.nameWorker t w)
  | _ => none

def stopCall (s : WsLifecycle) (t : Nat) : Option WsLifecycle :=
  match s.calls t with
  | .idle =>
      match s.ws with
      | none => some (s.setCall t (.signalling none))
      | some c => some (s.setCall t (.closing c))
  | _ => none

-- `self._ws.close()`, which raises into the except branch where the worker cleared it meanwhile.
def close (s : WsLifecycle) (t : Nat) : Option WsLifecycle :=
  match s.calls t with
  | .closing c =>
      some ({ s with closed := s.ws.toList ++ s.closed }.setCall t (.signalling (some c)))
  | _ => none

def told (worker : WsWorker) : WsWorker :=
  { worker with stoppedAt := some (worker.stoppedAt.getD worker.connections) }

-- `self._worker.stop()`; the join behind it only waits.
def signal (s : WsLifecycle) (t : Nat) : Option WsLifecycle :=
  match s.calls t with
  | .signalling found =>
      let workers := match s.worker with
        | none => s.workers
        | some w => Function.update s.workers w (told (s.workers w))
      some ({ s with workers, stops := found :: s.stops }.setCall t .idle)
  | _ => none

def test (s : WsLifecycle) (w : Nat) : Option WsLifecycle :=
  match (s.workers w).pc with
  | .test => some (s.setPc w (if (s.workers w).stoppedAt.isSome then .ended else .connecting))
  | _ => none

def connect (s : WsLifecycle) (w : Nat) : Option WsLifecycle :=
  match (s.workers w).pc with
  | .connecting => some (s.addConnection w)
  | _ => none

def connectFailed (s : WsLifecycle) (w : Nat) : Option WsLifecycle :=
  match (s.workers w).pc with
  | .connecting => some (s.setPc w .leaving)
  | _ => none

def message (s : WsLifecycle) (w : Nat) (tick : Tick) : Option WsLifecycle :=
  match (s.workers w).pc with
  | .running _ => some { s with batch := s.batch ++ [tick], accepted := s.accepted ++ [tick] }
  | _ => none

-- `publish`, whether it returns or raises, and the clear behind it: one step, since no second worker
-- is alive to append meanwhile.
def flushBatch (s : WsLifecycle) : WsLifecycle :=
  if s.batch.isEmpty then s else { s with flushes := s.flushes ++ [s.batch], batch := [] }

-- `_on_message` catches what its flush raises.
def flush (s : WsLifecycle) (w : Nat) : Option WsLifecycle :=
  match (s.workers w).pc with
  | .running _ => some s.flushBatch
  | _ => none

def hangUp (s : WsLifecycle) (w : Nat) : Option WsLifecycle :=
  match (s.workers w).pc with
  | .running _ => some (s.setPc w .leaving)
  | _ => none

def clearWs (s : WsLifecycle) (w : Nat) : Option WsLifecycle :=
  match (s.workers w).pc with
  | .leaving => some ({ s with ws := none }.setPc w .flushing)
  | _ => none

-- What the flush of `finally` raises ends the thread.
def lastFlush (s : WsLifecycle) (w : Nat) (raised : Bool) : Option WsLifecycle :=
  match (s.workers w).pc with
  | .flushing =>
      some (s.flushBatch.setPc w (if raised && !s.batch.isEmpty then .ended else .checking))
  | _ => none

def check (s : WsLifecycle) (w : Nat) : Option WsLifecycle :=
  match (s.workers w).pc with
  | .checking => some (s.setPc w (if (s.workers w).stoppedAt.isSome then .test else .sleeping))
  | _ => none

def wake (s : WsLifecycle) (w : Nat) : Option WsLifecycle :=
  match (s.workers w).pc with
  | .sleeping => some (s.setPc w .test)
  | _ => none

def step (s : WsLifecycle) : Action → Option WsLifecycle
  | .start t => s.startCall t
  | .spawn t => s.spawn t
  | .assign t => s.assign t
  | .stop t => s.stopCall t
  | .close t => s.close t
  | .signal t => s.signal t
  | .test w => s.test w
  | .connect w => s.connect w
  | .connectFailed w => s.connectFailed w
  | .message w tick => s.message w tick
  | .flush w => s.flush w
  | .hangUp w => s.hangUp w
  | .clearWs w => s.clearWs w
  | .lastFlush w raised => s.lastFlush w raised
  | .check w => s.check w
  | .wake w => s.wake w

def Action.isStart : Action → Bool
  | .start _ => true
  | _ => false

/-- No call of `start` begins while another is past its check. -/
def StartsApart (s : WsLifecycle) (a : Action) : Prop := a.isStart = true → s.startsOpen = 0

instance (s : WsLifecycle) (a : Action) : Decidable (StartsApart s a) :=
  inferInstanceAs (Decidable (a.isStart = true → s.startsOpen = 0))

variable {s s' : WsLifecycle} {a : Action} {t w other : Nat} {call : WsCallPc} {pc : WsWorkerPc}

@[simp] theorem setCall_calls : (s.setCall t call).calls t = call := Function.update_self ..

theorem setCall_other (different : other ≠ t) : (s.setCall t call).calls other = s.calls other :=
  Function.update_of_ne different ..

inductive Change (s : WsLifecycle) : WsLifecycle → Prop where
  | unchanged : Change s s
  | startBegun (t : Nat) (idle : s.calls t = .idle) (dead : s.isAlive = false)
      (apart : s.startsOpen = 0) : Change s (s.beginStart t)
  | spawned (t : Nat) (found : s.calls t = .spawning) : Change s (s.addWorker t)
  | assigned (t w : Nat) (found : s.calls t = .assigning w) : Change s (s.nameWorker t w)
  | stopBegun (t : Nat) (call : WsCallPc) (idle : s.calls t = .idle)
      (read : call = .signalling none ∨ ∃ c, s.ws = some c ∧ call = .closing c) :
      Change s (s.setCall t call)
  | closed (t c : Nat) (found : s.calls t = .closing c) :
      Change s ({ s with closed := s.ws.toList ++ s.closed }.setCall t (.signalling (some c)))
  | signalled (t : Nat) (saw : Option Nat) (found : s.calls t = .signalling saw)
      (workers : Nat → WsWorker)
      (kept : ∀ w, workers w = s.workers w ∨ workers w = told (s.workers w)) :
      Change s ({ s with workers, stops := saw :: s.stops }.setCall t .idle)
  -- The steps that only move a worker on.
  | moved (w : Nat) (pc : WsWorkerPc) (live : (s.workers w).pc ≠ .ended)
      (idle : ∀ c, pc ≠ .running c)
      (holds : (s.workers w).pc.holds = true → pc.holds = true)
      (untold : pc = .connecting → (s.workers w).stoppedAt = none) :
      Change s (s.setPc w pc)
  | connected (w : Nat) (found : (s.workers w).pc = .connecting) : Change s (s.addConnection w)
  | received (w c : Nat) (tick : Tick) (found : (s.workers w).pc = .running c) :
      Change s { s with batch := s.batch ++ [tick], accepted := s.accepted ++ [tick] }
  | flushed (w c : Nat) (found : (s.workers w).pc = .running c) : Change s s.flushBatch
  | cleared (w : Nat) (found : (s.workers w).pc = .leaving) :
      Change s ({ s with ws := none }.setPc w .flushing)
  | lastFlushed (w : Nat) (pc : WsWorkerPc) (found : (s.workers w).pc = .flushing)
      (left : pc = .ended ∨ pc = .checking) : Change s (s.flushBatch.setPc w pc)

theorem setCall_same (found : s.calls t = call) : s.setCall t call = s := by
  subst found
  simp [setCall]

theorem startCall_change (apart : s.startsOpen = 0) (taken : s.startCall t = some s') :
    Change s s' := by
  unfold startCall at taken
  split at taken
  next idle =>
    split at taken
    next =>
      cases taken
      rw [setCall_same idle]
      exact .unchanged
    next dead =>
      cases taken
      exact .startBegun t idle (Bool.eq_false_iff.mpr dead) apart
  next => cases taken

theorem stopCall_change (taken : s.stopCall t = some s') : Change s s' := by
  unfold stopCall at taken
  split at taken
  next idle =>
    split at taken
    next =>
      cases taken
      exact .stopBegun t _ idle (.inl rfl)
    next c found =>
      cases taken
      exact .stopBegun t _ idle (.inr ⟨c, found, rfl⟩)
  next => cases taken

theorem signal_change (taken : s.signal t = some s') : Change s s' := by
  unfold signal at taken
  split at taken
  next saw found =>
    cases taken
    refine .signalled t saw found _ fun w => ?_
    cases s.worker with
    | none => exact .inl rfl
    | some worker =>
        by_cases own : w = worker
        next =>
          subst own
          exact .inr (Function.update_self ..)
        next => exact .inl (Function.update_of_ne own ..)
  next => cases taken

theorem moved_change (found : (s.workers w).pc = pc) (live : pc ≠ .ended) {next : WsWorkerPc}
    (idle : ∀ c, next ≠ .running c) (holds : pc.holds = true → next.holds = true)
    (untold : next = .connecting → (s.workers w).stoppedAt = none) :
    Change s (s.setPc w next) :=
  .moved w next (found ▸ live) idle (fun held => holds (found ▸ held)) untold

theorem test_change (taken : s.test w = some s') : Change s s' := by
  unfold test at taken
  split at taken
  next found =>
    cases taken
    refine moved_change found (by decide) ?_ (by simp [WsWorkerPc.holds]) ?_
    next => intro c; split <;> simp
    next =>
      split
      next => simp
      next untold => exact fun _ => Option.not_isSome_iff_eq_none.mp untold
  next => cases taken

theorem check_change (taken : s.check w = some s') : Change s s' := by
  unfold check at taken
  split at taken
  next found =>
    cases taken
    refine moved_change found (by decide) ?_ (by simp [WsWorkerPc.holds]) ?_
    next => intro c; split <;> simp
    next => split <;> simp
  next => cases taken

theorem spawn_change (taken : s.spawn t = some s') : Change s s' := by
  unfold spawn at taken
  split at taken
  next found =>
    cases taken
    exact .spawned t found
  next => cases taken

theorem assign_change (taken : s.assign t = some s') : Change s s' := by
  unfold assign at taken
  split at taken
  next w found =>
    cases taken
    exact .assigned t w found
  next => cases taken

theorem close_change (taken : s.close t = some s') : Change s s' := by
  unfold close at taken
  split at taken
  next c found =>
    cases taken
    exact .closed t c found
  next => cases taken

theorem connect_change (taken : s.connect w = some s') : Change s s' := by
  unfold connect at taken
  split at taken
  next found =>
    cases taken
    exact .connected w found
  next => cases taken

theorem connectFailed_change (taken : s.connectFailed w = some s') : Change s s' := by
  unfold connectFailed at taken
  split at taken
  next found =>
    cases taken
    exact moved_change found (by decide) (by simp) (fun _ => rfl) (by simp)
  next => cases taken

theorem message_change {tick : Tick} (taken : s.message w tick = some s') : Change s s' := by
  unfold message at taken
  split at taken
  next c found =>
    cases taken
    exact .received w c tick found
  next => cases taken

theorem flush_change (taken : s.flush w = some s') : Change s s' := by
  unfold flush at taken
  split at taken
  next c found =>
    cases taken
    exact .flushed w c found
  next => cases taken

theorem hangUp_change (taken : s.hangUp w = some s') : Change s s' := by
  unfold hangUp at taken
  split at taken
  next c found =>
    cases taken
    exact moved_change found (by simp) (by simp) (fun _ => rfl) (by simp)
  next => cases taken

theorem clearWs_change (taken : s.clearWs w = some s') : Change s s' := by
  unfold clearWs at taken
  split at taken
  next found =>
    cases taken
    exact .cleared w found
  next => cases taken

theorem lastFlush_change {raised : Bool} (taken : s.lastFlush w raised = some s') : Change s s' := by
  unfold lastFlush at taken
  split at taken
  next found =>
    cases taken
    refine .lastFlushed w _ found ?_
    split
    next => exact .inl rfl
    next => exact .inr rfl
  next => cases taken

theorem wake_change (taken : s.wake w = some s') : Change s s' := by
  unfold wake at taken
  split at taken
  next found =>
    cases taken
    exact moved_change found (by decide) (by simp) (by simp [WsWorkerPc.holds]) (by simp)
  next => cases taken

theorem step_change (permitted : StartsApart s a) (taken : s.step a = some s') : Change s s' := by
  cases a with
  | start t => exact startCall_change (permitted rfl) taken
  | spawn t => exact spawn_change taken
  | assign t => exact assign_change taken
  | stop t => exact stopCall_change taken
  | close t => exact close_change taken
  | signal t => exact signal_change taken
  | test w => exact test_change taken
  | connect w => exact connect_change taken
  | connectFailed w => exact connectFailed_change taken
  | message w tick => exact message_change taken
  | flush w => exact flush_change taken
  | hangUp w => exact hangUp_change taken
  | clearWs w => exact clearWs_change taken
  | lastFlush w raised => exact lastFlush_change taken
  | check w => exact check_change taken
  | wake w => exact wake_change taken

structure Single (s : WsLifecycle) : Prop where
  one : ∀ v w, s.alive v = true → s.alive w = true → v = w
  named : ∀ w, s.alive w = true → s.worker = some w ∨ ∃ t, s.calls t = .assigning w
  spawning : ∀ t, s.calls t = .spawning → ∀ w, s.alive w = false
  assigning : ∀ t v, s.calls t = .assigning v → ∀ w, s.alive w = true → w = v
  apart : ∀ t t', (s.calls t).inStart = true → (s.calls t').inStart = true → t = t'
  counted : ∀ t, (s.calls t).inStart = true → s.startsOpen = 1

theorem alive_eq : s.alive w = true ↔ (s.workers w).pc ≠ .ended := by simp [alive]

theorem Single.frame (single : Single s) (worker : s'.worker = s.worker)
    (opens : s'.startsOpen = s.startsOpen) (live : ∀ w, s'.alive w = true → s.alive w = true)
    (calls : ∀ t, s'.calls t = s.calls t ∨
      (s.calls t).inStart = false ∧ (s'.calls t).inStart = false) : Single s' := by
  have starting : ∀ t, (s'.calls t).inStart = true → s'.calls t = s.calls t := by
    intro t inStart
    rcases calls t with same | ⟨_, out⟩
    next => exact same
    next => simp [out] at inStart
  have begun : ∀ t, (s.calls t).inStart = true → s'.calls t = s.calls t := by
    intro t inStart
    rcases calls t with same | ⟨out, _⟩
    next => exact same
    next => simp [out] at inStart
  refine
    { one := fun v w first second => single.one v w (live v first) (live w second)
      named := fun w alive => ?_, spawning := fun t found w => ?_
      assigning := fun t v found w alive => ?_
      apart := fun t t' first second => ?_, counted := fun t found => ?_ }
  next =>
    rw [worker]
    refine (single.named w (live w alive)).imp_right ?_
    rintro ⟨t, found⟩
    exact ⟨t, (begun t (by rw [found]; rfl)).trans found⟩
  next =>
    have same := starting t (by rw [found]; rfl)
    rw [same] at found
    exact Bool.eq_false_iff.mpr fun alive =>
      Bool.eq_false_iff.mp (single.spawning t found w) (live w alive)
  next =>
    rw [starting t (by rw [found]; rfl)] at found
    exact single.assigning t v found w (live w alive)
  next =>
    exact single.apart t t' (starting t first ▸ first) (starting t' second ▸ second)
  next =>
    rw [opens]
    exact single.counted t (starting t found ▸ found)

theorem Single.none_alive (single : Single s) (apart : s.startsOpen = 0) (dead : s.isAlive = false)
    (w : Nat) : s.alive w = false := by
  rw [Bool.eq_false_iff]
  intro alive
  rcases single.named w alive with named | ⟨t, found⟩
  next =>
    rw [isAlive, named] at dead
    exact Bool.eq_false_iff.mp dead alive
  next =>
    have counted := single.counted t (by rw [found]; rfl)
    omega

theorem inStart_update (others : ∀ t', (s.calls t').inStart = true → t' = t) {t' : Nat}
    (starting : ((Function.update s.calls t call) t').inStart = true) : t' = t := by
  by_contra different
  rw [Function.update_of_ne different] at starting
  exact different (others t' starting)

theorem Single.beginStart (single : Single s) (apart : s.startsOpen = 0)
    (dead : s.isAlive = false) : Single (s.beginStart t) := by
  have all : ∀ w, (s.beginStart t).alive w = false := single.none_alive apart dead
  have only : ∀ t', ((s.beginStart t).calls t').inStart = true → t' = t := by
    intro t' starting
    refine inStart_update (fun other inStart => ?_) starting
    have counted := single.counted other inStart
    omega
  exact
    { one := fun v w first _ => by simp [all v] at first
      named := fun w alive => by simp [all w] at alive
      spawning := fun t' _ w => all w
      assigning := fun t' v _ w alive => by simp [all w] at alive
      apart := fun t' t'' first second => (only t' first).trans (only t'' second).symm
      counted := fun t' _ => by simp [WsLifecycle.beginStart, setCall, apart] }

theorem Single.addWorker (single : Single s) (found : s.calls t = .spawning) :
    Single (s.addWorker t) := by
  have inStart : (s.calls t).inStart = true := by rw [found]; rfl
  have only : ∀ t', ((s.addWorker t).calls t').inStart = true → t' = t := fun t' starting =>
    inStart_update (fun other begun => single.apart other t begun inStart) starting
  have own : (s.addWorker t).calls t = .assigning s.spawned := setCall_calls
  have new : ∀ w, (s.addWorker t).alive w = true → w = s.spawned := by
    intro w alive
    by_contra other
    rw [alive_eq] at alive
    simp only [WsLifecycle.addWorker, setCall, Function.update_of_ne other] at alive
    exact Bool.eq_false_iff.mp (single.spawning t found w) (alive_eq.mpr alive)
  refine
    { one := fun v w first second => (new v first).trans (new w second).symm
      named := fun w alive => .inr ⟨t, by rw [new w alive, own]⟩
      spawning := fun t' starting => ?_, assigning := fun t' v starting w alive => ?_
      apart := fun t' t'' first second => (only t' first).trans (only t'' second).symm
      counted := fun t' _ => single.counted t inStart }
  next =>
    rw [only t' (by rw [starting]; rfl), own] at starting
    cases starting
  next =>
    rw [only t' (by rw [starting]; rfl), own] at starting
    cases starting
    exact new w alive

theorem Single.nameWorker (single : Single s) (found : s.calls t = .assigning w) :
    Single (s.nameWorker t w) := by
  have inStart : (s.calls t).inStart = true := by rw [found]; rfl
  have own : (s.nameWorker t w).calls t = .idle := setCall_calls
  have out : ∀ t', ((s.nameWorker t w).calls t').inStart ≠ true := by
    intro t' starting
    have same : t' = t :=
      inStart_update (fun other begun => single.apart other t begun inStart) starting
    rw [same, own] at starting
    cases starting
  exact
    { one := single.one
      named := fun v alive => .inl (congrArg some (single.assigning t w found v alive).symm)
      spawning := fun t' starting => (out t' (by rw [starting]; rfl)).elim
      assigning := fun t' v starting => (out t' (by rw [starting]; rfl)).elim
      apart := fun t' _ starting => (out t' starting).elim
      counted := fun t' starting => (out t' starting).elim }

theorem setCall_frame (before : (s.calls t).inStart = false) (after : call.inStart = false)
    (t' : Nat) : (s.setCall t call).calls t' = s.calls t' ∨
      (s.calls t').inStart = false ∧ ((s.setCall t call).calls t').inStart = false := by
  by_cases own : t' = t
  next =>
    subst own
    rw [setCall_calls]
    exact .inr ⟨before, after⟩
  next => exact .inl (setCall_other own)

theorem update_alive {worker : WsWorker} (live : (s.workers w).pc ≠ .ended) {v : Nat}
    (alive : ((Function.update s.workers w worker) v).pc ≠ .ended) : s.alive v = true := by
  rw [alive_eq]
  by_cases own : v = w
  next => rwa [own]
  next => rwa [Function.update_of_ne own] at alive

theorem flushBatch_frame : s.flushBatch.worker = s.worker ∧ s.flushBatch.ws = s.ws ∧
    s.flushBatch.workers = s.workers ∧ s.flushBatch.calls = s.calls ∧
    s.flushBatch.opened = s.opened ∧ s.flushBatch.startsOpen = s.startsOpen ∧
    s.flushBatch.closed = s.closed ∧ s.flushBatch.stops = s.stops := by
  unfold flushBatch
  split <;> exact ⟨rfl, rfl, rfl, rfl, rfl, rfl, rfl, rfl⟩

theorem Single.worker (single : Single s) (live : (s.workers w).pc ≠ .ended) {worker : WsWorker}
    (workers : s'.workers = Function.update s.workers w worker) (named : s'.worker = s.worker)
    (opens : s'.startsOpen = s.startsOpen) (calls : s'.calls = s.calls) : Single s' := by
  refine single.frame named opens (fun v alive => ?_) fun t => .inl (congrFun calls t)
  rw [alive_eq, workers] at alive
  exact update_alive live alive

theorem Single.change (single : Single s) (change : Change s s') : Single s' := by
  have same : ∀ t, s.calls t = s.calls t ∨
      (s.calls t).inStart = false ∧ (s.calls t).inStart = false := fun t => .inl rfl
  cases change with
  | unchanged => exact single
  | startBegun t idle dead apart => exact single.beginStart apart dead
  | spawned t found => exact single.addWorker found
  | assigned t w found => exact single.nameWorker found
  | stopBegun t call idle read =>
      have out : call.inStart = false := by
        rcases read with rfl | ⟨c, _, rfl⟩
        all_goals rfl
      exact single.frame rfl rfl (fun w alive => alive) (setCall_frame (by rw [idle]; rfl) out)
  | closed t c found =>
      exact single.frame rfl rfl (fun w alive => alive) (setCall_frame (by rw [found]; rfl) rfl)
  | signalled t saw found workers kept =>
      refine single.frame rfl rfl (fun w alive => ?_) (setCall_frame (by rw [found]; rfl) rfl)
      rw [alive_eq] at alive ⊢
      change (workers w).pc ≠ .ended at alive
      rcases kept w with old | new
      next => rwa [old] at alive
      next => rwa [new] at alive
  | moved w pc live => exact single.worker live rfl rfl rfl rfl
  | connected w found =>
      have live : (s.workers w).pc ≠ .ended := by simp [found]
      exact single.worker live rfl rfl rfl rfl
  | received w c tick found => exact single.frame rfl rfl (fun w alive => alive) same
  | flushed w c found =>
      obtain ⟨worker, _, workers, calls, _, opens, _, _⟩ := s.flushBatch_frame
      have live : (s.workers w).pc ≠ .ended := by simp [found]
      have self : s.flushBatch.workers = Function.update s.workers w (s.workers w) := by
        rw [workers, Function.update_eq_self]
      exact single.worker live self worker opens calls
  | cleared w found =>
      have live : (s.workers w).pc ≠ .ended := by simp [found]
      exact single.worker live rfl rfl rfl rfl
  | lastFlushed w pc found left =>
      obtain ⟨worker, _, workers, calls, _, opens, _, _⟩ := s.flushBatch_frame
      have live : (s.workers w).pc ≠ .ended := by simp [found]
      have self : (s.flushBatch.setPc w pc).workers =
          Function.update s.workers w { s.workers w with pc } := by rw [setPc, workers]
      exact single.worker live self worker opens calls

end WsLifecycle

end DeepFeeder
