import Mathlib.Data.List.Perm.Subperm
import DeepFeeder.Providers.FetchLimit

set_option autoImplicit false

namespace DeepFeeder.TvApi

open Transition

variable {s s' : TvApi} {thread other attempt : Nat} {call : FetchCall} {phase : FetchPhase}
  {now : Rat}

def Waited (s : TvApi) (call : FetchCall) (attempt : Nat) (time : Rat) : Prop :=
  call.began ≤ time ∧ (attempt = 1 ∨ ∃ f ∈ s.failures, f.call = call ∧ f.attempt + 1 = attempt ∧
    isRateOrConnError f.msg = true ∧ f.time + call.baseDelay * 2 ^ (f.attempt - 1) ≤ time)

structure Tries (s : TvApi) : Prop where
  target : ∀ thread call attempt, (s.phases thread).target = some (call, attempt) →
    1 ≤ attempt ∧ (attempt : Int) ≤ call.retries ∧ call.number < s.calls ∧
      Waited s call attempt ((s.phases thread).due s.clock)
  own : ∀ thread other call attempt attempt', (s.phases thread).target = some (call, attempt) →
    (s.phases other).target = some (call, attempt') → other = thread
  requests : ∀ r ∈ s.requests, 1 ≤ r.attempt ∧ (r.attempt : Int) ≤ r.call.retries ∧
    r.call.number < s.calls ∧ Waited s r.call r.attempt r.time
  fresh : ∀ thread call attempt, (s.phases thread).target = some (call, attempt) →
    ∀ r ∈ s.requests, r.call = call →
      r.attempt < attempt ∨ r.attempt = attempt ∧ (s.phases thread).inGetHist = true
  failures : ∀ f ∈ s.failures, 1 ≤ f.attempt ∧ Waited s f.call f.attempt f.time
  once : (s.requests.map fun r => (r.call, r.attempt)).Nodup

theorem Waited.mono {time time' : Rat} (waited : Waited s call attempt time) (later : time ≤ time')
    (kept : ∀ f ∈ s.failures, f ∈ s'.failures) : Waited s' call attempt time' := by
  obtain ⟨began, first | ⟨f, failed, of, next, rated, slept⟩⟩ := waited
  next => exact ⟨began.trans later, .inl first⟩
  next => exact ⟨began.trans later, .inr ⟨f, kept f failed, of, next, rated, slept.trans later⟩⟩

theorem Tries.initial (now : Rat) : Tries (start now) :=
  { target := fun _ _ _ found => nomatch found
    own := fun _ _ _ _ _ found => nomatch found
    requests := fun _ made => absurd made List.not_mem_nil
    fresh := fun _ _ _ found => nomatch found
    failures := fun _ failed => absurd failed List.not_mem_nil
    once := .nil }

theorem Tries.setPhase (tries : Tries s)
    (keeps : phase.target = none ∨ phase.target = (s.phases thread).target)
    (due : phase.target = none ∨ (s.phases thread).due s.clock ≤ phase.due s.clock)
    (asks : (s.phases thread).inGetHist = true → phase.target = none ∨ phase.inGetHist = true) :
    Tries (s.setPhase thread phase) := by
  have kept : ∀ other call attempt,
      ((s.setPhase thread phase).phases other).target = some (call, attempt) →
      (s.phases other).target = some (call, attempt) := by
    intro other call attempt found
    by_cases own : other = thread
    next =>
      subst own
      rw [setPhase_self] at found
      rcases keeps with none | same
      next => rw [none] at found; cases found
      next => rw [← same, found]
    next => rwa [setPhase_other own] at found
  refine { tries with target := ?_, own := ?_, fresh := ?_ }
  next =>
    intro other call attempt found
    obtain ⟨positive, allowed, known, waited⟩ := tries.target other call attempt (kept _ _ _ found)
    refine ⟨positive, allowed, known, ?_⟩
    by_cases own : other = thread
    next =>
      subst own
      rw [setPhase_self] at found ⊢
      have later := due.resolve_left (by rw [found]; simp)
      exact waited.mono later fun f failed => failed
    next => rwa [setPhase_other own]
  next =>
    exact fun thread other call attempt attempt' mine theirs =>
      tries.own thread other call attempt attempt' (kept _ _ _ mine) (kept _ _ _ theirs)
  next =>
    intro other call attempt found r made of
    refine (tries.fresh other call attempt (kept _ _ _ found) r made of).imp_right ?_
    rintro ⟨same, asked⟩
    refine ⟨same, ?_⟩
    by_cases own : other = thread
    next =>
      subst own
      rw [setPhase_self] at found ⊢
      exact (asks asked).resolve_left (by rw [found]; simp)
    next => rwa [setPhase_other own]

theorem due_mono {time time' : Rat} (later : time ≤ time') : phase.due time ≤ phase.due time' := by
  cases phase with
  | backingOff => exact le_refl _
  | _ => exact later

theorem Tries.pass (tries : Tries s) {dt : Rat} (forward : 0 ≤ dt) :
    Tries { s with clock := s.clock + dt } := by
  refine { tries with target := ?_ }
  intro thread call attempt found
  obtain ⟨positive, allowed, known, waited⟩ := tries.target thread call attempt found
  have later : s.clock ≤ s.clock + dt := by linarith
  exact ⟨positive, allowed, known, waited.mono (due_mono later) fun f failed => failed⟩

theorem Tries.count (tries : Tries s) : Tries { s with calls := s.calls + 1 } :=
  { tries with
    target := fun thread call attempt found =>
      have ⟨positive, allowed, known, waited⟩ := tries.target thread call attempt found
      ⟨positive, allowed, Nat.lt_succ_of_lt known, waited⟩
    requests := fun r made =>
      have ⟨positive, allowed, known, waited⟩ := tries.requests r made
      ⟨positive, allowed, Nat.lt_succ_of_lt known, waited⟩ }

theorem Tries.begun (tries : Tries s) (new : call.number = s.calls) (now : call.began = s.clock)
    (allowed : 1 ≤ call.retries) :
    Tries ({ s with calls := s.calls + 1 }.setPhase thread (.connecting call 1)) := by
  -- No thread and no request has the number of the new call.
  have unknown : ∀ other attempt, (s.phases other).target ≠ some (call, attempt) := by
    intro other attempt found
    have known := (tries.target other call attempt found).2.2.1
    omega
  have counted := tries.count
  refine { counted with target := ?_, own := ?_, fresh := ?_ }
  next =>
    intro other call' attempt found
    by_cases own : other = thread
    next =>
      subst own
      rw [setPhase_self] at found ⊢
      cases found
      exact ⟨le_refl 1, by exact_mod_cast allowed, by rw [new]; exact Nat.lt_succ_self _,
        now.le, .inl rfl⟩
    next =>
      rw [setPhase_other own] at found ⊢
      exact counted.target other call' attempt found
  next =>
    intro mine theirs call' attempt attempt' found found'
    by_cases own : mine = thread <;> by_cases own' : theirs = thread
    next => exact own'.trans own.symm
    next =>
      subst own
      rw [setPhase_self] at found
      rw [setPhase_other own'] at found'
      cases found
      exact absurd found' (unknown theirs attempt')
    next =>
      subst own'
      rw [setPhase_other own] at found
      rw [setPhase_self] at found'
      cases found'
      exact absurd found (unknown mine attempt)
    next =>
      rw [setPhase_other own] at found
      rw [setPhase_other own'] at found'
      exact tries.own mine theirs call' attempt attempt' found found'
  next =>
    intro other call' attempt found r made of
    by_cases own : other = thread
    next =>
      subst own
      rw [setPhase_self] at found
      cases found
      have known := (tries.requests r made).2.2.1
      rw [of, new] at known
      exact absurd known (lt_irrefl _)
    next =>
      rw [setPhase_other own] at found ⊢
      exact tries.fresh other call' attempt found r made of

theorem Tries.request (tries : Tries s) (found : s.phases thread = .admitted call attempt) :
    Tries ({ s with
      requests := { call, attempt, time := s.clock } :: s.requests }.setPhase thread
        (.requesting call attempt false)) := by
  have mine : (s.phases thread).target = some (call, attempt) := by rw [found]; rfl
  have due : (s.phases thread).due s.clock = s.clock := by rw [found]; rfl
  obtain ⟨positive, allowed, known, waited⟩ := tries.target thread call attempt mine
  rw [due] at waited
  have asking : Tries (s.setPhase thread (.requesting call attempt false)) :=
    tries.setPhase (.inr mine.symm) (.inr due.le) fun _ => .inr rfl
  refine { asking with requests := ?_, fresh := ?_, once := ?_ }
  next =>
    intro r member
    rcases List.mem_cons.mp member with rfl | made
    next => exact ⟨positive, allowed, known, waited⟩
    next => exact tries.requests r made
  next =>
    intro other call' attempt' theirs r member of
    rcases List.mem_cons.mp member with rfl | made
    next =>
      subst of
      have own : other = thread :=
        asking.own thread other call attempt attempt' (by rw [setPhase_self]; rfl) theirs
      subst own
      have same : attempt = attempt' := by
        have both := theirs
        rw [setPhase_self] at both
        cases both
        rfl
      exact .inr ⟨same, by rw [setPhase_self]; rfl⟩
    next => exact asking.fresh other call' attempt' theirs r made of
  next =>
    refine List.nodup_cons.mpr ⟨fun member => ?_, tries.once⟩
    obtain ⟨r, made, same⟩ := List.mem_map.mp member
    obtain ⟨of, number⟩ := Prod.mk.inj same
    rcases tries.fresh thread call attempt mine r made of with before | ⟨-, asked⟩
    next => exact absurd number before.ne
    next => rw [found] at asked; cases asked

theorem Tries.record (tries : Tries s) {f : FailedAttempt} (positive : 1 ≤ f.attempt)
    (waited : Waited s f.call f.attempt f.time) : Tries { s with failures := f :: s.failures } :=
  have kept : ∀ g ∈ s.failures, g ∈ f :: s.failures := fun g failed => List.mem_cons_of_mem _ failed
  { tries with
    target := fun thread call attempt found =>
      have ⟨positive, allowed, known, waited⟩ := tries.target thread call attempt found
      ⟨positive, allowed, known, waited.mono (le_refl _) kept⟩
    requests := fun r made =>
      have ⟨positive, allowed, known, waited⟩ := tries.requests r made
      ⟨positive, allowed, known, waited.mono (le_refl _) kept⟩
    failures := by
      intro g member
      rcases List.mem_cons.mp member with rfl | failed
      next => exact ⟨positive, waited.mono (le_refl _) kept⟩
      next =>
        have ⟨positive, waited⟩ := tries.failures g failed
        exact ⟨positive, waited.mono (le_refl _) kept⟩ }

theorem Tries.backOff (tries : Tries s) (mine : (s.phases thread).target = some (call, attempt))
    {until_ : Rat} (more : (attempt : Int) < call.retries)
    (waited : Waited s call (attempt + 1) until_) :
    Tries (s.setPhase thread (.backingOff call attempt until_)) := by
  obtain ⟨positive, _, known, _⟩ := tries.target thread call attempt mine
  have same : ∀ other call' attempt',
      ((s.setPhase thread (.backingOff call attempt until_)).phases other).target =
        some (call', attempt') →
      ∃ before, (s.phases other).target = some (call', before) := by
    intro other call' attempt' found
    by_cases own : other = thread
    next =>
      subst own
      rw [setPhase_self] at found
      cases found
      exact ⟨attempt, mine⟩
    next =>
      rw [setPhase_other own] at found
      exact ⟨attempt', found⟩
  refine { tries with target := ?_, own := ?_, fresh := ?_ }
  next =>
    intro other call' attempt' found
    by_cases own : other = thread
    next =>
      subst own
      rw [setPhase_self] at found ⊢
      cases found
      exact ⟨Nat.le_add_left 1 attempt, by push_cast; omega, known, waited⟩
    next =>
      rw [setPhase_other own] at found ⊢
      exact tries.target other call' attempt' found
  next =>
    intro thread other call' attempt' attempt'' found found'
    obtain ⟨_, before⟩ := same _ _ _ found
    obtain ⟨_, before'⟩ := same _ _ _ found'
    exact tries.own thread other call' _ _ before before'
  next =>
    intro other call' attempt' found r made of
    by_cases own : other = thread
    next =>
      subst own
      rw [setPhase_self] at found
      cases found
      refine .inl ?_
      rcases tries.fresh other call attempt mine r made of with before | ⟨same, -⟩
      next => exact before.trans (Nat.lt_succ_self attempt)
      next => exact same ▸ Nat.lt_succ_self r.attempt
    next =>
      rw [setPhase_other own] at found ⊢
      exact tries.fresh other call' attempt' found r made of

theorem Tries.fail (tries : Tries s) (mine : (s.phases thread).target = some (call, attempt))
    (due : (s.phases thread).due s.clock = s.clock) {msg : String} {random : Rat}
    (nonneg : 0 ≤ random) : Tries (s.fail thread call attempt msg random) := by
  obtain ⟨positive, _, _, waited⟩ := tries.target thread call attempt mine
  rw [due] at waited
  let f : FailedAttempt := { call, attempt, msg, time := s.clock }
  let recorded : TvApi := { s with failures := f :: s.failures }
  have base : Tries recorded := tries.record positive waited
  change Tries (recorded.setPhase thread (s.failed call attempt msg random))
  rcases failed_cases s call attempt msg random with idle | ⟨rated, more, slept, waits⟩
  next =>
    rw [idle]
    exact base.setPhase (.inl rfl) (.inl rfl) fun _ => .inl rfl
  next =>
    rw [waits]
    refine base.backOff mine more ⟨?_, .inr ⟨f, List.mem_cons_self, rfl, rfl, rated, ?_⟩⟩
    next =>
      have began := waited.1
      linarith
    next =>
      change s.clock + call.baseDelay * 2 ^ (attempt - 1) ≤
        s.clock + (call.baseDelay * 2 ^ (attempt - 1) + random)
      linarith

theorem Tries.change (tries : Tries s) (change : Change s s') : Tries s' := by
  cases change with
  | pass dt forward => exact tries.pass forward
  | begun thread call phase idle new now entered =>
      rcases entered with rfl | ⟨rfl, allowed⟩
      next => exact tries.count.setPhase (.inl rfl) (.inl rfl) fun _ => .inl rfl
      next => exact tries.begun new now allowed
  | moved thread phase holds target due inGetHist before after slept =>
      exact tries.setPhase (.inr target) (.inr due) fun asks => .inr (inGetHist.trans asks)
  | acquired thread call attempt found free =>
      exact Tries.setPhase (s := { s with callLock := some thread }) { tries with }
        (.inr (by rw [found]; rfl)) (.inr (by rw [found]; exact le_refl _))
        fun asks => by rw [found] at asks; cases asks
  | admitted thread call attempt until_ found slept =>
      exact Tries.setPhase (s := { s with
        nextAllowedTs := s.clock + minInterval
        admissions := s.clock :: s.admissions }) { tries with }
        (.inr (by rw [found]; rfl)) (.inr (by rw [found]; exact le_refl _))
        fun asks => by rw [found] at asks; cases asks
  | requested thread call attempt found => exact tries.request found
  | returned thread call attempt again found =>
      exact Tries.setPhase (s := s.release) { tries with } (.inl rfl) (.inl rfl) fun _ => .inl rfl
  | notConnected thread call attempt msg random found nonneg =>
      exact tries.fail (by rw [found]; rfl) (by rw [found]; rfl) nonneg
  | raised thread call attempt again msg random found nonneg =>
      exact Tries.fail (s := s.release) { tries with } (by rw [release, found]; rfl)
        (by rw [release, found]; rfl) nonneg

theorem Tries.reached (reached : Reaches step anyStep (start now) s) : Tries s :=
  reached.invariant Tries (Tries.initial now) fun _ _ _ tries _ taken =>
    tries.change (step_change taken)

theorem Tries.waited_sum (tries : Tries s) (positive : 1 ≤ attempt) {time : Rat}
    (waited : Waited s call attempt time) :
    call.began + call.baseDelay * (2 ^ (attempt - 1) - 1) ≤ time := by
  induction attempt, positive using Nat.le_induction generalizing time with
  | base => simpa using waited.1
  | succ attempt positive ih =>
      obtain ⟨-, first | ⟨f, failed, of, next, -, slept⟩⟩ := waited
      next => omega
      next =>
        have number : f.attempt = attempt := Nat.succ_injective next
        have before := (tries.failures f failed).2
        rw [of, number] at before
        have sum := ih before
        rw [number] at slept
        have power : (2 : Rat) ^ (attempt + 1 - 1) = 2 * 2 ^ (attempt - 1) := by
          rw [← pow_succ']
          congr 1
          omega
        rw [power]
        linarith

theorem Tries.requests_le (tries : Tries s) (call : FetchCall) :
    (s.requests.filter fun r => r.call = call).length ≤ call.retries.toNat := by
  have numbers : ((s.requests.filter fun r => r.call = call).map HistRequest.attempt).Nodup := by
    have once := (List.filter_sublist (l := s.requests) (p := fun r => r.call = call)).map
      (fun r => (r.call, r.attempt)) |>.nodup tries.once
    rw [List.nodup_iff_pairwise_ne, List.pairwise_map] at once ⊢
    refine once.imp_of_mem fun mine theirs different same => ?_
    have of := of_decide_eq_true (List.mem_filter.mp mine).2
    have of' := of_decide_eq_true (List.mem_filter.mp theirs).2
    exact different (Prod.ext (of.trans of'.symm) same)
  have allowed : (s.requests.filter fun r => r.call = call).map HistRequest.attempt ⊆
      List.range' 1 call.retries.toNat := by
    intro n member
    obtain ⟨r, made, rfl⟩ := List.mem_map.mp member
    obtain ⟨made, of⟩ := List.mem_filter.mp made
    obtain ⟨positive, few, -⟩ := tries.requests r made
    rw [of_decide_eq_true of] at few
    rw [List.mem_range'_1]
    omega
  have few := (List.Nodup.subperm numbers allowed).length_le
  rwa [List.length_map, List.length_range'] at few

-- What one call asks of the API, whatever the calls of other threads do in between.
theorem retries_back_off (reached : Reaches step anyStep (start now) s) :
    (∀ call : FetchCall,
      (s.requests.filter fun r => r.call = call).length ≤ call.retries.toNat) ∧
    ∀ r ∈ s.requests,
      r.call.began + r.call.baseDelay * (2 ^ (r.attempt - 1) - 1) ≤ r.time ∧
      (r.attempt = 1 ∨ ∃ f ∈ s.failures, f.call = r.call ∧ f.attempt + 1 = r.attempt ∧
        isRateOrConnError f.msg = true ∧
        f.time + r.call.baseDelay * 2 ^ (f.attempt - 1) ≤ r.time) := by
  have tries := Tries.reached reached
  refine ⟨tries.requests_le, fun r made => ?_⟩
  obtain ⟨positive, -, -, waited⟩ := tries.requests r made
  exact ⟨tries.waited_sum positive waited, waited.2⟩

-- Two failures, each slept off, and a third attempt that is answered.
theorem retries_back_off_twice :
    ∃ s, Reaches step anyStep (start 100) s ∧ s.times = [207 / 2, 203 / 2, 100] ∧
      (s.requests.filter fun r => r.call = ⟨0, 3, 1, 100⟩).length ≤ (3 : Int).toNat ∧
      ∀ r ∈ s.requests, r.call.began + r.call.baseDelay * (2 ^ (r.attempt - 1) - 1) ≤ r.time := by
  obtain ⟨s, reached, checked⟩ := reaches_of_check step (start 100)
    [.call 1 3 1, .connected 1, .acquire 1, .readClock 1, .proceed 1, .getHist 1,
      .answer 1 (.raised "HTTP 429") 0, .pass 1, .retry 1, .connected 1, .acquire 1, .readClock 1,
      .pass (1 / 2), .proceed 1, .getHist 1, .answer 1 (.raised "Rate limit") 0, .pass 2, .retry 1,
      .connected 1, .acquire 1, .readClock 1, .proceed 1, .getHist 1, .answer 1 .returned 0]
    (fun s => decide (s.times = [207 / 2, 203 / 2, 100])) (by decide +kernel)
  have back := retries_back_off reached
  exact ⟨s, reached, of_decide_eq_true checked, back.1 ⟨0, 3, 1, 100⟩,
    fun r made => (back.2 r made).1⟩

end DeepFeeder.TvApi
