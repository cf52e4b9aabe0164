import Mathlib.Algebra.Order.Field.Rat
import Mathlib.Data.List.Infix
import Mathlib.Logic.Function.Basic
import DeepFeeder.Shared.TokenBucket
import DeepFeeder.Shared.Transition

set_option autoImplicit false

namespace DeepFeeder

open Transition TokenBucket

structure FetchCall where
  number : Nat
  retries : Int
  baseDelay : Rat
  began : Rat
  deriving DecidableEq

inductive FetchPhase where
  | idle
  -- At `TvDatafeedLive()`.
  | connecting (call : FetchCall) (attempt : Nat)
  -- At `with _call_lock`.
  | locking (call : FetchCall) (attempt : Nat)
  -- At the first `time.time()` of `_respect_rate_limit_locked`.
  | limiting (call : FetchCall) (attempt : Nat)
  | sleeping (call : FetchCall) (attempt : Nat) (until_ : Rat)
  -- `_next_allowed_ts` is set and `get_hist` not yet called.
  | admitted (call : FetchCall) (attempt : Nat)
  -- In `get_hist`; `again` is whether this is the call without `timeout`.
  | requesting (call : FetchCall) (attempt : Nat) (again : Bool)
  | backingOff (call : FetchCall) (attempt : Nat) (until_ : Rat)

namespace FetchPhase

def holds : FetchPhase → Bool
  | .limiting _ _ | .sleeping _ _ _ | .admitted _ _ | .requesting _ _ _ => true
  | .idle | .connecting _ _ | .locking _ _ | .backingOff _ _ _ => false

def inGetHist : FetchPhase → Bool
  | .requesting _ _ _ => true
  | _ => false

def target : FetchPhase → Option (FetchCall × Nat)
  | .idle => none
  | .connecting call attempt | .locking call attempt | .limiting call attempt
  | .sleeping call attempt _ | .admitted call attempt | .requesting call attempt _ =>
      some (call, attempt)
  | .backingOff call attempt _ => some (call, attempt + 1)

def due (clock : Rat) : FetchPhase → Rat
  | .backingOff _ _ until_ => until_
  | _ => clock

end FetchPhase

inductive HistAnswer where
  | returned
  | typeError (msg : String)
  | raised (msg : String)

structure HistRequest where
  call : FetchCall
  attempt : Nat
  time : Rat

structure FailedAttempt where
  call : FetchCall
  attempt : Nat
  msg : String
  time : Rat

/-- The module `tradingview/api.py` under its threads: the clock, the lock and `_next_allowed_ts`, and a
record of what happened, latest first. -/
structure TvApi where
  clock : Rat
  nextAllowedTs : Rat
  callLock : Option Nat
  phases : Nat → FetchPhase
  calls : Nat
  admissions : List Rat
  requests : List HistRequest
  failures : List FailedAttempt

namespace TvApi

def minInterval : Rat := 3 / 2

def rateOrConnMarkers : List String :=
  ["429", "too many request", "too many requests", "rate limit", "cloudflare",
    "connection to remote host was lost", "connection reset", "badmessage", "timed out"]

-- No letter outside ASCII becomes one of a marker in lower case.
def isRateOrConnError (msg : String) : Bool :=
  rateOrConnMarkers.any fun s => decide (s.toList <:+: msg.toList.map Char.toLower)

def start (now : Rat) : TvApi :=
  { clock := now, nextAllowedTs := 0, callLock := none, phases := fun _ => .idle, calls := 0
    admissions := [], requests := [], failures := [] }

inductive Action where
  | pass (dt : Rat)
  | call (thread : Nat) (retries : Int) (baseDelay : Rat)
  -- `TvDatafeedLive()` returns, or raises with a message.
  | connected (thread : Nat)
  | connectFailed (thread : Nat) (msg : String) (random : Rat)
  | acquire (thread : Nat)
  | readClock (thread : Nat)
  | proceed (thread : Nat)
  | getHist (thread : Nat)
  | answer (thread : Nat) (answer : HistAnswer) (random : Rat)
  | retry (thread : Nat)

def setPhase (s : TvApi) (thread : Nat) (phase : FetchPhase) : TvApi :=
  { s with phases := Function.update s.phases thread phase }

def begin_ (s : TvApi) (thread : Nat) (retries : Int) (baseDelay : Rat) : Option TvApi :=
  match s.phases thread with
  | .idle =>
      let call : FetchCall := { number := s.calls, retries, baseDelay, began := s.clock }
      some ({ s with calls := s.calls + 1 }.setPhase thread
        (if 1 ≤ retries then .connecting call 1 else .idle))
  | _ => none

/-- The except branch; a negative sleep raises out of the call. -/
def failed (s : TvApi) (call : FetchCall) (attempt : Nat) (msg : String) (random : Rat) :
    FetchPhase :=
  let sleep := call.baseDelay * 2 ^ (attempt - 1) + random
  if isRateOrConnError msg then
    if (attempt : Int) < call.retries then
      if 0 ≤ sleep then .backingOff call attempt (s.clock + sleep) else .idle
    else .idle
  else .idle

def fail (s : TvApi) (thread : Nat) (call : FetchCall) (attempt : Nat) (msg : String)
    (random : Rat) : TvApi :=
  { s with failures := { call, attempt, msg, time := s.clock } :: s.failures }.setPhase thread
    (s.failed call attempt msg random)

def release (s : TvApi) : TvApi := { s with callLock := none }

def isRandom (random : Rat) : Bool := 0 ≤ random && random < 1

def connected (s : TvApi) (thread : Nat) : Option TvApi :=
  match s.phases thread with
  | .connecting call attempt => some (s.setPhase thread (.locking call attempt))
  | _ => none

def connectFailed (s : TvApi) (thread : Nat) (msg : String) (random : Rat) : Option TvApi :=
  match s.phases thread with
  | .connecting call attempt =>
      if isRandom random then some (s.fail thread call attempt msg random) else none
  | _ => none

def acquire (s : TvApi) (thread : Nat) : Option TvApi :=
  match s.phases thread, s.callLock with
  | .locking call attempt, none =>
      some ({ s with callLock := some thread }.setPhase thread (.limiting call attempt))
  | _, _ => none

-- `time.sleep(wait)` where the wait is positive.
def readClock (s : TvApi) (thread : Nat) : Option TvApi :=
  match s.phases thread with
  | .limiting call attempt =>
      let wait := s.nextAllowedTs - s.clock
      some (s.setPhase thread (.sleeping call attempt (s.clock + if 0 < wait then wait else 0)))
  | _ => none

def proceed (s : TvApi) (thread : Nat) : Option TvApi :=
  match s.phases thread with
  | .sleeping call attempt until_ =>
      if until_ ≤ s.clock then
        some ({ s with
          nextAllowedTs := s.clock + minInterval
          admissions := s.clock :: s.admissions }.setPhase thread (.admitted call attempt))
      else none
  | _ => none

def getHist (s : TvApi) (thread : Nat) : Option TvApi :=
  match s.phases thread with
  | .admitted call attempt =>
      some ({ s with
        requests := { call, attempt, time := s.clock } :: s.requests }.setPhase thread
          (.requesting call attempt false))
  | _ => none

-- A TypeError of the first `get_hist` calls it again under the same lock.
def answer (s : TvApi) (thread : Nat) (answer : HistAnswer) (random : Rat) : Option TvApi :=
  match s.phases thread with
  | .requesting call attempt again =>
      if isRandom random then
        match answer, again with
        | .returned, _ => some (s.release.setPhase thread .idle)
        | .typeError _, false => some (s.setPhase thread (.requesting call attempt true))
        | .typeError msg, true => some (s.release.fail thread call attempt msg random)
        | .raised msg, _ => some (s.release.fail thread call attempt msg random)
      else none
  | _ => none

def retry (s : TvApi) (thread : Nat) : Option TvApi :=
  match s.phases thread with
  | .backingOff call attempt until_ =>
      if until_ ≤ s.clock then some (s.setPhase thread (.connecting call (attempt + 1))) else none
  | _ => none

-- The clock does not go back.
def pass (s : TvApi) (dt : Rat) : Option TvApi :=
  if 0 ≤ dt then some { s with clock := s.clock + dt } else none

def step (s : TvApi) : Action → Option TvApi
  | .pass dt => s.pass dt
  | .call thread retries baseDelay => s.begin_ thread retries baseDelay
  | .connected thread => s.connected thread
  | .connectFailed thread msg random => s.connectFailed thread msg random
  | .acquire thread => s.acquire thread
  | .readClock thread => s.readClock thread
  | .proceed thread => s.proceed thread
  | .getHist thread => s.getHist thread
  | .answer thread answer random => s.answer thread answer random
  | .retry thread => s.retry thread

variable {s s' : TvApi} {a : Action} {thread other attempt : Nat} {call : FetchCall}
  {phase : FetchPhase} {now first length : Rat}

@[simp] theorem setPhase_self : (s.setPhase thread phase).phases thread = phase :=
  Function.update_self ..

theorem setPhase_other (different : other ≠ thread) :
    (s.setPhase thread phase).phases other = s.phases other :=
  Function.update_of_ne different ..

inductive Change (s : TvApi) : TvApi → Prop where
  | pass (dt : Rat) (forward : 0 ≤ dt) : Change s { s with clock := s.clock + dt }
  | begun (thread : Nat) (call : FetchCall) (phase : FetchPhase)
      (idle : s.phases thread = .idle) (new : call.number = s.calls) (now : call.began = s.clock)
      (entered : phase = .idle ∨ phase = .connecting call 1 ∧ 1 ≤ call.retries) :
      Change s ({ s with calls := s.calls + 1 }.setPhase thread phase)
  -- The steps that only move a thread on.
  | moved (thread : Nat) (phase : FetchPhase) (holds : phase.holds = (s.phases thread).holds)
      (target : phase.target = (s.phases thread).target)
      (due : (s.phases thread).due s.clock ≤ phase.due s.clock)
      (inGetHist : phase.inGetHist = (s.phases thread).inGetHist)
      (before : ∀ call attempt, s.phases thread ≠ .admitted call attempt)
      (after : ∀ call attempt, phase ≠ .admitted call attempt)
      (slept : ∀ call attempt until_, phase = .sleeping call attempt until_ →
        s.nextAllowedTs ≤ until_) :
      Change s (s.setPhase thread phase)
  | acquired (thread : Nat) (call : FetchCall) (attempt : Nat)
      (found : s.phases thread = .locking call attempt) (free : s.callLock = none) :
      Change s ({ s with callLock := some thread }.setPhase thread (.limiting call attempt))
  | admitted (thread : Nat) (call : FetchCall) (attempt : Nat) (until_ : Rat)
      (found : s.phases thread = .sleeping call attempt until_) (slept : until_ ≤ s.clock) :
      Change s ({ s with
        nextAllowedTs := s.clock + minInterval
        admissions := s.clock :: s.admissions }.setPhase thread (.admitted call attempt))
  | requested (thread : Nat) (call : FetchCall) (attempt : Nat)
      (found : s.phases thread = .admitted call attempt) :
      Change s ({ s with
        requests := { call, attempt, time := s.clock } :: s.requests }.setPhase thread
          (.requesting call attempt false))
  | returned (thread : Nat) (call : FetchCall) (attempt : Nat) (again : Bool)
      (found : s.phases thread = .requesting call attempt again) :
      Change s (s.release.setPhase thread .idle)
  | notConnected (thread : Nat) (call : FetchCall) (attempt : Nat) (msg : String) (random : Rat)
      (found : s.phases thread = .connecting call attempt) (nonneg : 0 ≤ random) :
      Change s (s.fail thread call attempt msg random)
  | raised (thread : Nat) (call : FetchCall) (attempt : Nat) (again : Bool) (msg : String)
      (random : Rat) (found : s.phases thread = .requesting call attempt again)
      (nonneg : 0 ≤ random) :
      Change s (s.release.fail thread call attempt msg random)

theorem isRandom_nonneg {random : Rat} (valid : isRandom random = true) : 0 ≤ random := by
  simp only [isRandom, Bool.and_eq_true, decide_eq_true_eq] at valid
  exact valid.1

theorem pass_change {dt : Rat} (taken : s.pass dt = some s') : Change s s' := by
  unfold pass at taken
  split at taken
  next forward =>
    cases taken
    exact .pass dt forward
  next => cases taken

theorem begin_change {retries : Int} {baseDelay : Rat}
    (taken : s.begin_ thread retries baseDelay = some s') : Change s s' := by
  unfold begin_ at taken
  split at taken
  next idle =>
    cases taken
    by_cases some_ : 1 ≤ retries
    next => exact .begun _ _ _ idle rfl rfl (.inr ⟨if_pos some_, some_⟩)
    next => exact .begun _ ⟨s.calls, retries, baseDelay, s.clock⟩ _ idle rfl rfl (.inl (if_neg some_))
  next => cases taken

theorem connected_change (taken : s.connected thread = some s') : Change s s' := by
  unfold connected at taken
  split at taken
  next found =>
    cases taken
    exact .moved _ _ (by rw [found]; rfl) (by rw [found]; rfl) (by rw [found]; exact le_refl _)
      (by rw [found]; rfl) (by simp [found]) (by simp) (by simp)
  next => cases taken

theorem connectFailed_change {msg : String} {random : Rat}
    (taken : s.connectFailed thread msg random = some s') : Change s s' := by
  unfold connectFailed at taken
  split at taken
  next found =>
    split at taken
    next valid =>
      cases taken
      exact .notConnected _ _ _ _ _ found (isRandom_nonneg valid)
    next => cases taken
  next => cases taken

theorem acquire_change (taken : s.acquire thread = some s') : Change s s' := by
  unfold acquire at taken
  split at taken
  next found free =>
    cases taken
    exact .acquired _ _ _ found free
  next => cases taken

theorem readClock_change (taken : s.readClock thread = some s') : Change s s' := by
  unfold readClock at taken
  split at taken
  next found =>
    cases taken
    refine .moved _ _ (by rw [found]; rfl) (by rw [found]; rfl) (by rw [found]; exact le_refl _)
      (by rw [found]; rfl) (by simp [found]) (by simp) ?_
    intro call attempt until_ same
    cases same
    split <;> linarith
  next => cases taken

theorem proceed_change (taken : s.proceed thread = some s') : Change s s' := by
  unfold proceed at taken
  split at taken
  next found =>
    split at taken
    next slept =>
      cases taken
      exact .admitted _ _ _ _ found slept
    next => cases taken
  next => cases taken

theorem getHist_change (taken : s.getHist thread = some s') : Change s s' := by
  unfold getHist at taken
  split at taken
  next found =>
    cases taken
    exact .requested _ _ _ found
  next => cases taken

theorem answer_change {given : HistAnswer} {random : Rat}
    (taken : s.answer thread given random = some s') : Change s s' := by
  unfold answer at taken
  split at taken
  next found =>
    split at taken
    next valid =>
      have nonneg := isRandom_nonneg valid
      split at taken <;> cases taken
      next => exact .returned _ _ _ _ found
      next =>
        exact .moved _ _ (by rw [found]; rfl) (by rw [found]; rfl) (by rw [found]; exact le_refl _)
          (by rw [found]; rfl) (by simp [found]) (by simp) (by simp)
      next => exact .raised _ _ _ _ _ _ found nonneg
      next => exact .raised _ _ _ _ _ _ found nonneg
    next => cases taken
  next => cases taken

theorem retry_change (taken : s.retry thread = some s') : Change s s' := by
  unfold retry at taken
  split at taken
  next found =>
    split at taken
    next slept =>
      cases taken
      exact .moved _ _ (by rw [found]; rfl) (by rw [found]; rfl) (by rw [found]; exact slept)
        (by rw [found]; rfl) (by simp [found]) (by simp) (by simp)
    next => cases taken
  next => cases taken

theorem step_change (taken : s.step a = some s') : Change s s' := by
  cases a with
  | pass dt => exact pass_change taken
  | call thread retries baseDelay => exact begin_change taken
  | connected thread => exact connected_change taken
  | connectFailed thread msg random => exact connectFailed_change taken
  | acquire thread => exact acquire_change taken
  | readClock thread => exact readClock_change taken
  | proceed thread => exact proceed_change taken
  | getHist thread => exact getHist_change taken
  | answer thread given random => exact answer_change taken
  | retry thread => exact retry_change taken

def Locked (s : TvApi) : Prop :=
  ∀ thread, (s.phases thread).holds = true ↔ s.callLock = some thread

theorem Locked.unique (locked : Locked s) (mine : (s.phases thread).holds = true)
    (theirs : (s.phases other).holds = true) : other = thread := by
  have same := ((locked other).mp theirs).symm.trans ((locked thread).mp mine)
  exact Option.some.inj same

theorem Locked.setPhase (locked : Locked s) (same : phase.holds = (s.phases thread).holds) :
    Locked (s.setPhase thread phase) := by
  intro other
  by_cases own : other = thread
  next =>
    subst own
    rw [setPhase_self, same]
    exact locked other
  next =>
    rw [setPhase_other own]
    exact locked other

theorem Locked.acquire (locked : Locked s) (free : s.callLock = none)
    (under : phase.holds = true) :
    Locked ({ s with callLock := some thread }.setPhase thread phase) := by
  intro other
  by_cases own : other = thread
  next =>
    subst own
    rw [setPhase_self, under]
    exact iff_of_true rfl rfl
  next =>
    rw [setPhase_other own]
    have out := locked other
    rw [free] at out
    refine iff_of_false (fun holds => nomatch out.mp holds) fun mine => ?_
    exact own (Option.some.inj mine).symm

theorem Locked.release (locked : Locked s) (under : (s.phases thread).holds = true)
    (out : phase.holds = false) : Locked (s.release.setPhase thread phase) := by
  intro other
  refine iff_of_false ?_ fun held => nomatch held
  by_cases own : other = thread
  next =>
    subst own
    simp [out]
  next =>
    rw [setPhase_other own]
    exact fun theirs => own (locked.unique under theirs)

theorem failed_cases (s : TvApi) (call : FetchCall) (attempt : Nat) (msg : String) (random : Rat) :
    s.failed call attempt msg random = .idle ∨
      isRateOrConnError msg = true ∧ (attempt : Int) < call.retries ∧
        0 ≤ call.baseDelay * 2 ^ (attempt - 1) + random ∧
        s.failed call attempt msg random =
          .backingOff call attempt (s.clock + (call.baseDelay * 2 ^ (attempt - 1) + random)) := by
  unfold failed
  split
  next rated =>
    split
    next more =>
      by_cases nonneg : 0 ≤ call.baseDelay * 2 ^ (attempt - 1) + random
      next => exact .inr ⟨rated, more, nonneg, if_pos nonneg⟩
      next => exact .inl (if_neg nonneg)
    next => exact .inl rfl
  next => exact .inl rfl

theorem failed_holds {msg : String} {random : Rat} :
    (s.failed call attempt msg random).holds = false := by
  rcases failed_cases s call attempt msg random with idle | ⟨-, -, -, waits⟩
  next => rw [idle]; rfl
  next => rw [waits]; rfl

theorem Locked.change (locked : Locked s) (change : Change s s') : Locked s' := by
  cases change with
  | pass dt forward => exact locked
  | begun thread call phase idle new now entered =>
      refine Locked.setPhase (s := { s with calls := s.calls + 1 }) locked ?_
      rcases entered with rfl | ⟨rfl, -⟩
      next => exact congrArg FetchPhase.holds idle.symm
      next => rw [idle]; rfl
  | moved thread phase holds => exact locked.setPhase holds
  | acquired thread call attempt found free => exact locked.acquire free rfl
  | admitted thread call attempt until_ found slept =>
      exact Locked.setPhase (s := { s with
        nextAllowedTs := s.clock + minInterval
        admissions := s.clock :: s.admissions }) locked (by rw [found]; rfl)
  | requested thread call attempt found =>
      exact Locked.setPhase (s := { s with
        requests := { call, attempt, time := s.clock } :: s.requests }) locked (by rw [found]; rfl)
  | returned thread call attempt again found => exact locked.release (by rw [found]; rfl) rfl
  | notConnected thread call attempt msg random found nonneg =>
      refine Locked.setPhase (s := { s with
        failures := { call, attempt, msg, time := s.clock } :: s.failures }) locked ?_
      rw [failed_holds, found]
      rfl
  | raised thread call attempt again msg random found nonneg =>
      exact Locked.release (s := { s with
        failures := { call, attempt, msg, time := s.clock } :: s.failures }) locked
        (by rw [found]; rfl) failed_holds

structure Limited (now : Rat) (s : TvApi) : Prop where
  bucket : ∃ level last, Paced 1 (2 / 3) now level last s.admissions ∧ last ≤ s.clock ∧
    (level = 1 ∨ last + minInterval ≤ s.nextAllowedTs)
  slept : ∀ thread call attempt until_, s.phases thread = .sleeping call attempt until_ →
    s.nextAllowedTs ≤ until_

theorem Limited.setPhase (limited : Limited now s)
    (slept : ∀ call attempt until_, phase = .sleeping call attempt until_ →
      s.nextAllowedTs ≤ until_) : Limited now (s.setPhase thread phase) := by
  refine { bucket := limited.bucket, slept := ?_ }
  intro other call attempt until_ found
  by_cases own : other = thread
  next =>
    subst own
    rw [setPhase_self] at found
    exact slept call attempt until_ found
  next =>
    rw [setPhase_other own] at found
    exact limited.slept other call attempt until_ found

theorem failed_ne_sleeping {msg : String} {random : Rat} {call' : FetchCall} {attempt' : Nat}
    {until_ : Rat} : s.failed call attempt msg random ≠ .sleeping call' attempt' until_ := by
  intro same
  have under := congrArg FetchPhase.holds same
  rw [failed_holds] at under
  cases under

theorem failed_ne_admitted {msg : String} {random : Rat} {call' : FetchCall} {attempt' : Nat} :
    s.failed call attempt msg random ≠ .admitted call' attempt' := by
  intro same
  have under := congrArg FetchPhase.holds same
  rw [failed_holds] at under
  cases under

theorem Limited.proceed (limited : Limited now s) (locked : Locked s) {until_ : Rat}
    (found : s.phases thread = .sleeping call attempt until_) (slept : until_ ≤ s.clock) :
    Limited now ({ s with
      nextAllowedTs := s.clock + minInterval
      admissions := s.clock :: s.admissions }.setPhase thread (.admitted call attempt)) := by
  refine { bucket := ?_, slept := ?_ }
  next =>
    obtain ⟨level, last, paced, reached, spent⟩ := limited.bucket
    have allowed := (limited.slept thread call attempt until_ found).trans slept
    refine ⟨0, s.clock, paced.take reached (le_refl 0) (by norm_num) ?_, le_refl _, .inr (le_refl _)⟩
    have nonneg := paced.level_nonneg
    have gained : 2 / 3 * minInterval = 1 := by norm_num [minInterval]
    rcases spent with full | later
    next => linarith
    next => linarith
  next =>
    intro other call' attempt' until' theirs
    by_cases own : other = thread
    next =>
      subst own
      rw [setPhase_self] at theirs
      cases theirs
    next =>
      rw [setPhase_other own] at theirs
      exact absurd (locked.unique (by rw [found]; rfl) (by rw [theirs]; rfl)) own

theorem Limited.change (limited : Limited now s) (locked : Locked s) (change : Change s s') :
    Limited now s' := by
  cases change with
  | pass dt forward =>
      obtain ⟨level, last, paced, reached, spent⟩ := limited.bucket
      exact { bucket := ⟨level, last, paced, by change last ≤ s.clock + dt; linarith, spent⟩
              slept := limited.slept }
  | begun thread call phase idle new now entered =>
      refine Limited.setPhase (s := { s with calls := s.calls + 1 })
        { bucket := limited.bucket, slept := limited.slept } ?_
      rcases entered with rfl | ⟨rfl, -⟩ <;> simp
  | moved thread phase holds target due inGetHist before after slept => exact limited.setPhase slept
  | acquired thread call attempt found free =>
      exact Limited.setPhase (s := { s with callLock := some thread })
        { bucket := limited.bucket, slept := limited.slept } (by simp)
  | admitted thread call attempt until_ found slept => exact limited.proceed locked found slept
  | requested thread call attempt found =>
      exact Limited.setPhase (s := { s with
        requests := { call, attempt, time := s.clock } :: s.requests })
        { bucket := limited.bucket, slept := limited.slept } (by simp)
  | returned thread call attempt again found =>
      exact Limited.setPhase (s := s.release)
        { bucket := limited.bucket, slept := limited.slept } (by simp)
  | notConnected thread call attempt msg random found nonneg =>
      exact Limited.setPhase (s := { s with
        failures := { call, attempt, msg, time := s.clock } :: s.failures })
        { bucket := limited.bucket, slept := limited.slept }
        fun _ _ _ same => absurd same failed_ne_sleeping
  | raised thread call attempt again msg random found nonneg =>
      exact Limited.setPhase (s := { s.release with
        failures := { call, attempt, msg, time := s.clock } :: s.failures })
        { bucket := limited.bucket, slept := limited.slept }
        fun _ _ _ same => absurd same failed_ne_sleeping

def times (s : TvApi) : List Rat := s.requests.map HistRequest.time

structure Trailing (s : TvApi) : Prop where
  past : ∀ r ∈ s.requests, r.time ≤ s.clock
  used : (∀ thread call attempt, s.phases thread ≠ .admitted call attempt) →
    Trails s.admissions s.times
  unused : ∀ thread call attempt, s.phases thread = .admitted call attempt →
    ∃ time takes, s.admissions = time :: takes ∧ time ≤ s.clock ∧
      (∀ u ∈ s.times, u ≤ time) ∧ Trails takes s.times

theorem Trailing.setPhase (trailing : Trailing s)
    (before : ∀ call attempt, s.phases thread ≠ .admitted call attempt)
    (after : ∀ call attempt, phase ≠ .admitted call attempt) :
    Trailing (s.setPhase thread phase) := by
  have same : ∀ other call attempt, (s.setPhase thread phase).phases other = .admitted call attempt →
      s.phases other = .admitted call attempt := by
    intro other call attempt found
    by_cases own : other = thread
    next =>
      subst own
      rw [setPhase_self] at found
      exact absurd found (after call attempt)
    next => rwa [setPhase_other own] at found
  refine { past := trailing.past, used := fun none => trailing.used ?_, unused := ?_ }
  next =>
    intro other call attempt found
    by_cases own : other = thread
    next =>
      subst own
      exact before call attempt found
    next => exact none other call attempt (by rwa [setPhase_other own])
  next =>
    exact fun other call attempt found => trailing.unused other call attempt (same _ _ _ found)

theorem Locked.only_admitted (locked : Locked s) (under : (s.phases thread).holds = true)
    (found : s.phases other = .admitted call attempt) : other = thread :=
  locked.unique under (by rw [found]; rfl)

theorem Trailing.proceed (trailing : Trailing s) (locked : Locked s) {until_ : Rat}
    (found : s.phases thread = .sleeping call attempt until_) :
    Trailing ({ s with
      nextAllowedTs := s.clock + minInterval
      admissions := s.clock :: s.admissions }.setPhase thread (.admitted call attempt)) := by
  have under : (s.phases thread).holds = true := by rw [found]; rfl
  have none : ∀ other call' attempt', s.phases other ≠ .admitted call' attempt' := by
    intro other call' attempt' theirs
    have own := locked.only_admitted under theirs
    subst own
    rw [found] at theirs
    cases theirs
  refine { past := trailing.past, used := ?_, unused := ?_ }
  next =>
    intro absent
    exact absurd setPhase_self (absent thread call attempt)
  next =>
    intro other call' attempt' theirs
    refine ⟨s.clock, s.admissions, rfl, le_refl _, ?_, trailing.used none⟩
    intro u member
    obtain ⟨r, made, rfl⟩ := List.mem_map.mp member
    exact trailing.past r made

theorem Trailing.request (trailing : Trailing s) (locked : Locked s)
    (found : s.phases thread = .admitted call attempt) :
    Trailing ({ s with
      requests := { call, attempt, time := s.clock } :: s.requests }.setPhase thread
        (.requesting call attempt false)) := by
  have under : (s.phases thread).holds = true := by rw [found]; rfl
  refine { past := ?_, used := ?_, unused := ?_ }
  next =>
    intro r member
    rcases List.mem_cons.mp member with rfl | made
    next => exact le_refl _
    next => exact trailing.past r made
  next =>
    intro _
    obtain ⟨time, takes, admissions, reached, past, trails⟩ :=
      trailing.unused thread call attempt found
    change Trails s.admissions (s.clock :: s.times)
    rw [admissions]
    exact trails.use past reached
  next =>
    intro other call' attempt' theirs
    by_cases own : other = thread
    next =>
      subst own
      rw [setPhase_self] at theirs
      cases theirs
    next =>
      rw [setPhase_other own] at theirs
      exact absurd (locked.only_admitted under theirs) own

theorem Trailing.change (trailing : Trailing s) (locked : Locked s) (change : Change s s') :
    Trailing s' := by
  obtain ⟨past, used, unused⟩ := trailing
  cases change with
  | pass dt forward =>
      refine { past := fun r made => ?_, used := used, unused := ?_ }
      next =>
        have before := past r made
        change r.time ≤ s.clock + dt
        linarith
      next =>
        intro thread call attempt found
        obtain ⟨time, takes, admissions, reached, rest⟩ := unused thread call attempt found
        exact ⟨time, takes, admissions, by change time ≤ s.clock + dt; linarith, rest⟩
  | begun thread call phase idle new now entered =>
      refine Trailing.setPhase (s := { s with calls := s.calls + 1 })
        { past := past, used := used, unused := unused } (by simp [idle]) ?_
      rcases entered with rfl | ⟨rfl, -⟩ <;> simp
  | moved thread phase holds target due inGetHist before after slept =>
      exact Trailing.setPhase { past := past, used := used, unused := unused } before after
  | acquired thread call attempt found free =>
      exact Trailing.setPhase (s := { s with callLock := some thread })
        { past := past, used := used, unused := unused } (by simp [found]) (by simp)
  | admitted thread call attempt until_ found slept =>
      exact Trailing.proceed { past := past, used := used, unused := unused } locked found
  | requested thread call attempt found =>
      exact Trailing.request { past := past, used := used, unused := unused } locked found
  | returned thread call attempt again found =>
      exact Trailing.setPhase (s := s.release) { past := past, used := used, unused := unused }
        (by simp [release, found]) (by simp)
  | notConnected thread call attempt msg random found nonneg =>
      exact Trailing.setPhase (s := { s with
        failures := { call, attempt, msg, time := s.clock } :: s.failures })
        { past := past, used := used, unused := unused } (by simp [found])
        fun _ _ => failed_ne_admitted
  | raised thread call attempt again msg random found nonneg =>
      exact Trailing.setPhase (s := { s.release with
        failures := { call, attempt, msg, time := s.clock } :: s.failures })
        { past := past, used := used, unused := unused } (by simp [release, found])
        fun _ _ => failed_ne_admitted

theorem Trailing.within_le (trailing : Trailing s) (first last : Rat) :
    within first last s.times ≤ within first last s.admissions + 1 := by
  by_cases idle : ∀ thread call attempt, s.phases thread ≠ .admitted call attempt
  next => exact (trailing.used idle).within_le
  next =>
    simp only [not_forall, not_not] at idle
    obtain ⟨thread, call, attempt, found⟩ := idle
    obtain ⟨time, takes, admissions, _, _, trails⟩ := trailing.unused thread call attempt found
    rw [admissions]
    exact trails.within_le.trans (Nat.add_le_add_right (within_le_cons time takes) 1)

structure Serial (now : Rat) (s : TvApi) : Prop where
  locked : Locked s
  limited : Limited now s
  trailing : Trailing s

theorem Serial.initial (now : Rat) : Serial now (start now) := by
  refine { locked := fun thread => iff_of_false (nomatch ·) (nomatch ·), limited := ?_, trailing := ?_ }
  next =>
    exact {
      bucket := ⟨1, now, .full 1 (by norm_num) (le_refl 1), le_refl now, .inl rfl⟩
      slept := fun _ _ _ _ found => nomatch found }
  next =>
    exact {
      past := fun _ made => absurd made List.not_mem_nil
      used := fun _ => .nil
      unused := fun _ _ _ found => nomatch found }

theorem Serial.reached (reached : Reaches step anyStep (start now) s) : Serial now s := by
  refine reached.invariant (Serial now) (Serial.initial now) ?_
  intro s a s' serial _ taken
  have change := step_change taken
  exact {
    locked := serial.locked.change change
    limited := serial.limited.change serial.locked change
    trailing := serial.trailing.change serial.locked change }

-- The lock and the interval limit what all threads together ask of the API.
theorem requests_limited (reached : Reaches step anyStep (start now) s) :
    (∀ thread other, (s.phases thread).inGetHist = true → (s.phases other).inGetHist = true →
      other = thread) ∧
      ∀ first length : Rat, 0 ≤ length →
        minInterval * within first (first + length) s.times ≤ length + 2 * minInterval := by
  have serial := Serial.reached reached
  refine ⟨fun thread other mine theirs => ?_, fun first length span => ?_⟩
  next =>
    have under : ∀ thread, (s.phases thread).inGetHist = true → (s.phases thread).holds = true := by
      intro thread asks
      cases phase : s.phases thread <;> simp_all [FetchPhase.inGetHist, FetchPhase.holds]
    exact serial.locked.unique (under thread mine) (under other theirs)
  next =>
    obtain ⟨level, last, paced, -, -⟩ := serial.limited.bucket
    have admissions : (within first (first + length) s.admissions : Rat) ≤
        1 + 2 / 3 * (first + length - first) :=
      paced.within_le (by linarith) (by norm_num) (by norm_num)
    have requests : (within first (first + length) s.times : Rat) ≤
        within first (first + length) s.admissions + 1 := by
      exact_mod_cast serial.trailing.within_le first (first + length)
    have width : first + length - first = length := by ring
    rw [width] at admissions
    have scaled : minInterval * within first (first + length) s.times ≤
        minInterval * (1 + 2 / 3 * length + 1) :=
      mul_le_mul_of_nonneg_left (by linarith) (by norm_num [minInterval])
    have value : minInterval * (1 + 2 / 3 * length + 1) = length + 2 * minInterval := by
      norm_num [minInterval]
      ring
    linarith

-- Two threads, the second of which waits for the lock and then for the interval.
theorem requests_limited_two_threads :
    ∃ s, Reaches step anyStep (start 100) s ∧ s.times = [102, 101] ∧
      minInterval * within 101 (101 + 1) s.times ≤ 1 + 2 * minInterval := by
  obtain ⟨s, reached, checked⟩ := reaches_of_check step (start 100)
    [.call 1 1 1, .connected 1, .acquire 1, .call 2 1 1, .connected 2, .readClock 1, .proceed 1,
      .pass 1, .getHist 1, .answer 1 (.typeError "timeout") 0, .answer 1 .returned 0, .acquire 2,
      .readClock 2, .pass 1, .proceed 2, .getHist 2]
    (fun s => decide (s.times = [102, 101])) (by decide +kernel)
  exact ⟨s, reached, of_decide_eq_true checked,
    (requests_limited reached).2 101 1 (by decide)⟩

end TvApi

end DeepFeeder
