import Mathlib.Algebra.Order.Field.Rat
import DeepFeeder.Shared.TokenBucket
import DeepFeeder.Shared.Transition

set_option autoImplicit false

namespace DeepFeeder

structure RateLimiter where
  tokens : Rat
  rate : Rat
  maxTokens : Rat
  last : Rat

namespace RateLimiter

open Transition TokenBucket

def new (rps burst now : Rat) : RateLimiter :=
  { tokens := burst, rate := rps, maxTokens := burst, last := now }

def refill (l : RateLimiter) (now : Rat) : Rat :=
  min l.maxTokens (l.tokens + (now - l.last) * l.rate)

/-- A call at a time, with the time at which it returns. -/
def acquire (l : RateLimiter) (now : Rat) : RateLimiter × Rat :=
  let tokens := l.refill now
  if tokens < 1 then
    let need := (1 - tokens) / l.rate
    ({ l with tokens := 0, last := now }, now + max need 0)
  else ({ l with tokens := tokens - 1, last := now }, now)

/-- A limiter at work: the clock when it was last left, and when its calls returned, latest first. -/
structure Run where
  limiter : RateLimiter
  clock : Rat
  returns : List Rat

def start (rps burst now : Rat) : Run :=
  { limiter := .new rps burst now, clock := now, returns := [] }

def step (r : Run) (now : Rat) : Option Run :=
  if r.clock ≤ now then
    let (limiter, woken) := r.limiter.acquire now
    some { limiter, clock := woken, returns := woken :: r.returns }
  else none

/-- The time that the call before slept brings no token again: without it there are as many. -/
def sleptOnce (r : Run) (now : Rat) : Prop :=
  r.limiter.refill now = { r.limiter with last := r.clock }.refill now

instance (r : Run) (now : Rat) : Decidable (sleptOnce r now) :=
  inferInstanceAs (Decidable (_ = _))

variable {rps burst from_ : Rat} {l : RateLimiter} {r r' : Run} {now : Rat}

theorem acquire_few (few : l.refill now < 1) :
    l.acquire now =
      ({ l with tokens := 0, last := now }, now + max ((1 - l.refill now) / l.rate) 0) := by
  rw [acquire, if_pos few]

theorem acquire_enough (enough : ¬l.refill now < 1) :
    l.acquire now = ({ l with tokens := l.refill now - 1, last := now }, now) := by
  rw [acquire, if_neg enough]

theorem step_eq_some (taken : step r now = some r') :
    r.clock ≤ now ∧ r' =
      { limiter := (r.limiter.acquire now).1, clock := (r.limiter.acquire now).2
        returns := (r.limiter.acquire now).2 :: r.returns } := by
  unfold step at taken
  split at taken
  next later => exact ⟨later, (Option.some.inj taken).symm⟩
  next => cases taken

structure Inv (rps burst from_ : Rat) (r : Run) : Prop where
  rate : r.limiter.rate = rps
  maxTokens : r.limiter.maxTokens = burst
  paced : Paced burst rps from_ r.limiter.tokens r.clock r.returns

theorem Inv.start (holds : 1 ≤ burst) : Inv rps burst from_ (start rps burst from_) :=
  { rate := rfl, maxTokens := rfl, paced := .full burst (by linarith) (le_refl burst) }

theorem Inv.refill_le (inv : Inv rps burst from_ r) (once : sleptOnce r now) :
    r.limiter.refill now = min burst (r.limiter.tokens + rps * (now - r.clock)) := by
  rw [once, refill, inv.rate, inv.maxTokens, mul_comm]

theorem Inv.step (rates : 0 < rps) (holds : 1 ≤ burst) (inv : Inv rps burst from_ r)
    (once : sleptOnce r now) (taken : RateLimiter.step r now = some r') :
    Inv rps burst from_ r' := by
  have tokens := inv.refill_le once
  obtain ⟨later, rfl⟩ := step_eq_some taken
  by_cases few : r.limiter.refill now < 1
  next =>
      -- The call sleeps until the bucket has the one token that it takes.
      rw [acquire_few few]
      have short : r.limiter.refill now = r.limiter.tokens + rps * (now - r.clock) := by
        rcases min_cases burst (r.limiter.tokens + rps * (now - r.clock)) with full | part
        next => linarith [full.1]
        next => rw [tokens, part.1]
      have need : 0 ≤ (1 - r.limiter.refill now) / rps := div_nonneg (by linarith) rates.le
      have slept : rps * ((1 - r.limiter.refill now) / rps) = 1 - r.limiter.refill now :=
        mul_div_cancel₀ _ rates.ne'
      have spread : rps * (now + (1 - r.limiter.refill now) / rps - r.clock) =
          rps * (now - r.clock) + rps * ((1 - r.limiter.refill now) / rps) := by ring
      rw [inv.rate, max_eq_left need]
      refine { rate := rfl, maxTokens := inv.maxTokens, paced := ?_ }
      exact inv.paced.take (by linarith) (le_refl 0) (by linarith) (by rw [spread, slept]; linarith)
  next =>
      rw [acquire_enough few]
      have full := min_le_left burst (r.limiter.tokens + rps * (now - r.clock))
      have part := min_le_right burst (r.limiter.tokens + rps * (now - r.clock))
      refine { rate := inv.rate, maxTokens := inv.maxTokens, paced := ?_ }
      exact inv.paced.take later (by linarith) (by linarith) (by linarith)

-- The bound of every span of time, where slept time is never counted twice.
theorem within_le_of_sleptOnce (rates : 0 < rps) (holds : 1 ≤ burst)
    (reached : Reaches step sleptOnce (start rps burst from_) r) (first length : Rat)
    (span : 0 ≤ length) :
    (within first (first + length) r.returns : Rat) ≤ burst + rps * length + 1 := by
  have inv : Inv rps burst from_ r := reached.invariant (Inv rps burst from_) (Inv.start holds)
    fun _ _ _ inv once taken => inv.step rates holds once taken
  have after_ : first ≤ first + length := by linarith
  have bound := inv.paced.within_le after_ rates.le (by linarith)
  have width : first + length - first = length := by ring
  rw [width] at bound
  linarith

-- Two calls at once, a third that sleeps, and a fourth when the bucket is full again.
theorem within_le_of_sleptOnce_calls :
    ∃ r, Reaches step sleptOnce (start 1 2 0) r ∧ r.returns = [4, 1, 0, 0] ∧
      (within 0 (0 + 1) r.returns : Rat) ≤ 2 + 1 * 1 + 1 := by
  obtain ⟨r, reached, checked⟩ := reaches_allowed_of_check step sleptOnce (start 1 2 0)
    [0, 0, 0, 4] (fun r => decide (r.returns = [4, 1, 0, 0])) (by decide +kernel)
    (by decide +kernel)
  exact ⟨r, reached, of_decide_eq_true checked, within_le_of_sleptOnce (show (0 : Rat) < 1 by decide)
    (show (1 : Rat) ≤ 2 by decide) reached 0 1 (by decide)⟩

-- With the default values, twelve calls made as soon as they can be return in half a second.
theorem twice_the_rate :
    ∃ r, Reaches step anyStep (start 4 8 0) r ∧
      ¬(within 0 (0 + 1 / 2) r.returns : Rat) ≤ 8 + 4 * (1 / 2) + 1 := by
  obtain ⟨r, reached, checked⟩ := reaches_of_check step (start 4 8 0)
    [0, 0, 0, 0, 0, 0, 0, 0, 0, 1 / 4, 1 / 4, 1 / 2]
    (fun r => decide ¬(within 0 (0 + 1 / 2) r.returns : Rat) ≤ 8 + 4 * (1 / 2) + 1)
    (by decide +kernel)
  exact ⟨r, reached, of_decide_eq_true checked⟩

end RateLimiter

end DeepFeeder
