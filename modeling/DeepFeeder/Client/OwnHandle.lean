import DeepFeeder.Client.Registry

set_option autoImplicit false

namespace DeepFeeder.Client

open Transition

inductive ClientCall where
  | subscribe (id : String) (join : JoinResult)
  | unsubscribe (handle : Nat) (join : JoinResult)
  | unsubscribeId (id : String) (join : JoinResult)
  | close (join : Nat → JoinResult)

-- Between two calls a worker that was told to stop may come to its end.
inductive ClientTurn where
  | call (c : ClientCall)
  | exit (stream : Nat) (own : Bool)

inductive Returned where
  | handle (stream : Nat)
  | stopped (found : Bool)
  | closed (count : Nat)

namespace Facade

def unsubscribeSections (s : Facade) (id : String) (join : JoinResult) : List FacadeAction :=
  .unsubscribe 0 id :: if (s.streams.lookup id).isSome then [.stop 0 join] else []

def sections (s : Facade) : ClientCall → List FacadeAction
  | .subscribe id join => [.subscribe 0 id join, .start 0]
  | .unsubscribe handle join => s.unsubscribeSections (s.objects handle).id join
  | .unsubscribeId id join => s.unsubscribeSections id join
  | .close join => .close 0 :: s.streams.entries.map fun entry => .stop 0 (join entry.2)

def callStep (s : Facade) (c : ClientCall) : Option Facade := run step s (s.sections c)

def turn (s : Facade) : ClientTurn → Option Facade
  | .call c => s.callStep c
  | .exit n own => s.exit n own

def stopRaises (s : Facade) (n : Nat) : JoinResult → Bool
  | .raised => (s.objects n).alive
  | _ => false

def returned (s : Facade) : ClientCall → Returned
  | .subscribe .. => .handle s.created
  | .unsubscribe handle _ => .stopped (s.streams.lookup (s.objects handle).id).isSome
  | .unsubscribeId id _ => .stopped (s.streams.lookup id).isSome
  | .close join =>
      .closed (s.streams.entries.countP fun entry => !s.stopRaises entry.2 (join entry.2))

def knowsHandle (s : Facade) : ClientTurn → Bool
  | .call (.unsubscribe handle _) => handle < s.created
  | _ => true

def Registered (s : Facade) (n : Nat) : Prop := ∃ id, s.streams.lookup id = some n

/-- A stream that was subscribed later under the id of the handle is registered. -/
def Replaced (s : Facade) (n : Nat) : Prop :=
  ∃ m, n < m ∧ s.streams.lookup (s.objects n).id = some m

def Spares (s s' : Facade) (n : Nat) : Prop :=
  ∀ m ≠ n, s'.objects m = s.objects m ∧
    ∀ id, s.streams.lookup id = some m → s'.streams.lookup id = some m

def Latest (s : Facade) : Prop :=
  ∀ id m, s.streams.lookup id = some m → ∀ n < s.created, (s.objects n).id = id → n ≤ m

variable {s s' : Facade} {n : Nat} {id : String} {join : JoinResult}

theorem Latest.later (latest : Latest s) (created : s'.created = s.created)
    (ids : ∀ m, (s'.objects m).id = (s.objects m).id)
    (registered : ∀ id m, s'.streams.lookup id = some m → s.streams.lookup id = some m) :
    Latest s' := by
  intro id m found n before own
  rw [created] at before
  rw [ids] at own
  exact latest id m (registered id m found) n before own

theorem setObject_ids {stream : StreamThread} (same : stream.id = (s.objects n).id) (m : Nat) :
    ((s.setObject n stream).objects m).id = (s.objects m).id := by
  rw [setObject_objects]
  split
  next here => rw [here, same]
  next => rfl

theorem subscribe_latest {thread : Nat} (latest : Latest s)
    (taken : s.subscribe thread id join = some s') : Latest s' := by
  have done := subscribe_eq taken
  intro other m found n before own
  rw [done.created] at before
  rw [done.streams] at found
  rcases Nat.lt_succ_iff_lt_or_eq.mp before with older | newest
  next =>
      rw [(done.older n older).id] at own
      split at found
      next => cases found; exact older.le
      next => exact latest other m found n older own
  next =>
      rw [newest, done.new] at own
      rw [if_pos own.symm] at found
      rw [newest]
      exact (Option.some.inj found).le

theorem step_latest {a : FacadeAction} (latest : Latest s) (taken : s.step a = some s') :
    Latest s' := by
  cases a with
  | subscribe thread id join => exact subscribe_latest latest taken
  | start thread =>
      obtain ⟨m, _, rfl⟩ := start_eq taken
      refine latest.later rfl (setObject_ids ?_) fun _ _ found => found
      unfold StreamThread.start
      split
      next => rfl
      next => rfl
  | unsubscribe thread id =>
      simp only [step, unsubscribe] at taken
      split at taken
      next => cases taken; exact latest
      next =>
          cases taken
          refine latest.later rfl (fun _ => rfl) fun other m found => ?_
          have erased := found
          simp only [Dict.lookup_erase] at erased
          split at erased
          next => cases erased
          next => exact erased
      next => cases taken
  | close thread =>
      simp only [step, close] at taken
      split at taken
      next => cases taken; exact latest
      next =>
          cases taken
          exact latest.later rfl (fun _ => rfl) fun _ _ found => by cases found
      next => cases taken
  | stop thread join =>
      simp only [step, stop] at taken
      split at taken
      next m _ =>
          cases taken
          exact latest.later rfl (setObject_ids (stop_fields _ join).1) fun _ _ found => found
      next m _ _ _ =>
          cases taken
          exact latest.later rfl (setObject_ids (stop_fields _ join).1) fun _ _ found => found
      next => cases taken
  | exit m own =>
      obtain ⟨stream, quieter, _, rfl⟩ := exit_eq taken
      exact latest.later rfl (setObject_ids quieter.id) fun _ _ found => found

theorem step_tracked {a : FacadeAction} (tracked : Tracked s) (taken : s.step a = some s') :
    Tracked s' := by
  cases a with
  | subscribe thread id join => exact (subscribe_tracked tracked taken).1
  | start thread => exact (start_tracked tracked taken).1
  | unsubscribe thread id => exact (unsubscribe_tracked tracked taken).1
  | close thread => exact (close_tracked tracked taken).1
  | stop thread join => exact (stop_tracked tracked taken).1
  | exit m own => exact (exit_tracked tracked taken).1

theorem run_kept {actions : List FacadeAction} (kept : Tracked s ∧ Latest s)
    (result : run step s actions = some s') : Tracked s' ∧ Latest s' := by
  induction actions generalizing s with
  | nil =>
      cases result
      exact kept
  | cons a rest ih =>
      obtain ⟨next, taken, later⟩ := Option.bind_eq_some_iff.mp result
      exact ih ⟨step_tracked kept.1 taken, step_latest kept.2 taken⟩ later

section Calls

def unsubscribed (s : Facade) (id : String) (join : JoinResult) : Facade :=
  match s.streams.lookup id with
  | none => s
  | some n =>
      { s.setObject n ((s.objects n).stop join) with
        streams := s.streams.erase id
        calls := (s.calls.set 0 (.stopping n [])).erase 0 }

theorem unsubscribe_run (idle : s.calls.lookup 0 = none) (id : String) (join : JoinResult) :
    run step s (s.unsubscribeSections id join) = some (s.unsubscribed id join) := by
  unfold unsubscribeSections unsubscribed
  cases found : s.streams.lookup id with
  | none => simp [run, step, unsubscribe, idle, found]
  | some n =>
      have here : (s.calls.set 0 (.stopping n [])).lookup 0 = some (.stopping n []) :=
        Dict.lookup_set.trans (if_pos rfl)
      simp only [Option.isSome_some, if_true, run, step, unsubscribe, idle, found, stop, here,
        Option.bind_some]
      rfl

theorem unsubscribed_idle (idle : s.calls.lookup 0 = none) (id : String) (join : JoinResult) :
    (s.unsubscribed id join).calls.lookup 0 = none := by
  unfold unsubscribed
  split
  next => exact idle
  next => exact Dict.lookup_erase.trans (if_pos rfl)

theorem stops_run (join : Nat → JoinResult) {rest : List Nat}
    (stopping : s.calls.lookup 0 = some (.stopping n rest)) :
    ∃ s', run step s ((n :: rest).map fun m => .stop 0 (join m)) = some s' ∧
      s'.calls.lookup 0 = none := by
  induction rest generalizing s n with
  | nil =>
      simp only [List.map_cons, List.map_nil, run, step, stop, stopping, Option.bind_some]
      exact ⟨_, rfl, Dict.lookup_erase.trans (if_pos rfl)⟩
  | cons next rest ih =>
      rw [List.map_cons, run]
      simp only [step, stop, stopping, Option.bind_some]
      exact ih (Dict.lookup_set.trans (if_pos rfl))

theorem close_run (idle : s.calls.lookup 0 = none) (join : Nat → JoinResult) :
    ∃ s', run step s (s.sections (.close join)) = some s' ∧ s'.calls.lookup 0 = none := by
  have stops : (s.streams.entries.map fun entry => FacadeAction.stop 0 (join entry.2)) =
      (s.streams.entries.map Sigma.snd).map fun m => .stop 0 (join m) := by
    rw [List.map_map]
    rfl
  simp only [sections, stops]
  cases items : s.streams.entries.map Sigma.snd with
  | nil => exact ⟨s, by simp [run, step, close, idle, items], idle⟩
  | cons n rest =>
      rw [run]
      simp only [step, close, idle, items, Option.bind_some]
      exact stops_run join (Dict.lookup_set.trans (if_pos rfl))

theorem subscribe_run (idle : s.calls.lookup 0 = none) (id : String) (join : JoinResult) :
    ∃ s', run step s (s.sections (.subscribe id join)) = some s' ∧ s'.calls.lookup 0 = none := by
  have taken : s.subscribe 0 id join = some ((s.replaced id join).register 0 id) := by
    simp [subscribe, idle]
  have known := (subscribe_eq taken).calls 0
  rw [if_pos rfl] at known
  simp only [sections, run, step, taken, Option.bind_some, start, known]
  exact ⟨_, rfl, Dict.lookup_erase.trans (if_pos rfl)⟩

theorem callStep_ends (idle : s.calls.lookup 0 = none) (c : ClientCall) :
    ∃ s', s.callStep c = some s' ∧ s'.calls.lookup 0 = none := by
  unfold callStep
  cases c with
  | subscribe id join => exact subscribe_run idle id join
  | unsubscribe handle join =>
      exact ⟨_, unsubscribe_run idle _ join, unsubscribed_idle idle _ join⟩
  | unsubscribeId id join => exact ⟨_, unsubscribe_run idle id join, unsubscribed_idle idle id join⟩
  | close join => exact close_run idle join

structure Resting (s : Facade) : Prop where
  tracked : Tracked s
  latest : Latest s
  idle : s.calls.lookup 0 = none

theorem turn_resting {t : ClientTurn} (resting : Resting s) (taken : s.turn t = some s') :
    Resting s' := by
  cases t with
  | call c =>
      have called : s.callStep c = some s' := taken
      obtain ⟨tracked, latest⟩ := run_kept ⟨resting.tracked, resting.latest⟩ called
      obtain ⟨next, result, idle⟩ := callStep_ends resting.idle c
      rw [called, Option.some.injEq] at result
      exact ⟨tracked, latest, result ▸ idle⟩
  | exit n own =>
      have step : s.step (.exit n own) = some s' := taken
      refine ⟨step_tracked resting.tracked step, step_latest resting.latest step, ?_⟩
      obtain ⟨stream, _, _, rfl⟩ := exit_eq taken
      exact resting.idle

theorem resting_of_reaches
    (reached : Reaches turn (fun s t => s.knowsHandle t = true) {} s) : Resting s := by
  refine reached.invariant Resting ?_ fun s t s' resting _ taken => turn_resting resting taken
  exact ⟨start_sound.1, fun _ _ found => (nomatch found), rfl⟩

end Calls

section Handles

theorem unsubscribed_spares (found : s.streams.lookup id = some n) :
    Spares s (s.unsubscribed id join) n := by
  unfold unsubscribed
  rw [found]
  intro m other
  constructor
  next => exact (setObject_objects _ m).trans (if_neg other)
  next =>
      intro id' registered
      refine Dict.lookup_erase.trans ?_
      rw [if_neg, registered]
      intro same
      rw [same, found, Option.some.injEq] at registered
      exact other registered.symm

theorem registered_iff (tracked : Tracked s) :
    Registered s n ↔ s.streams.lookup (s.objects n).id = some n := by
  constructor
  next =>
      rintro ⟨id, found⟩
      rw [(tracked.registered id n found).2.1]
      exact found
  next => exact fun found => ⟨_, found⟩

/-- After any calls, `unsubscribe` of a handle stops and deregisters nothing else, and returns True for
the registered stream only, exactly when the handle has not been replaced. -/
theorem unsubscribe_own_iff
    (reached : Reaches turn (fun s t => s.knowsHandle t = true) {} s) (known : n < s.created)
    (join : JoinResult) :
    ∃ s', s.callStep (.unsubscribe n join) = some s' ∧
      ((Spares s s' n ∧ (s.returned (.unsubscribe n join) = .stopped true ↔ Registered s n)) ↔
        ¬Replaced s n) := by
  obtain ⟨tracked, latest, idle⟩ := resting_of_reaches reached
  refine ⟨_, unsubscribe_run idle _ join, ?_⟩
  rw [registered_iff tracked]
  unfold returned Replaced
  cases found : s.streams.lookup (s.objects n).id with
  | none =>
      refine iff_of_true ⟨?_, by simp [found]⟩ (by simp)
      unfold unsubscribed
      rw [found]
      exact fun m _ => ⟨rfl, fun _ registered => registered⟩
  | some m =>
      by_cases own : m = n
      next =>
          rw [own] at found ⊢
          refine iff_of_true ⟨unsubscribed_spares found, by simp [found]⟩ ?_
          rintro ⟨m', later, same⟩
          rw [Option.some.injEq] at same
          exact later.ne same
      next =>
          refine iff_of_false ?_ fun kept => kept ⟨m, ?_, rfl⟩
          next =>
              rintro ⟨spares, _⟩
              have gone := (spares m own).2 _ found
              unfold unsubscribed at gone
              simp only [found, Dict.lookup_erase, if_true] at gone
              cases gone
          next =>
              have before := latest _ m found n known rfl
              omega

end Handles

-- A stream that was replaced by another, whose handle was given back.
theorem unsubscribe_own_afterOther :
    ∃ s s', Reaches turn (fun s t => s.knowsHandle t = true) {} s ∧
      s.callStep (.unsubscribe 0 .ended) = some s' ∧ ¬Replaced s 0 ∧ Spares s s' 0 ∧
      ¬Registered s 0 := by
  obtain ⟨s, reached, checked⟩ := reaches_allowed_of_check turn
    (fun s t => s.knowsHandle t = true) {}
    [.call (.subscribe tradesId .ended), .call (.subscribe tradesId .ended),
      .call (.unsubscribe 1 .ended)]
    (fun s => decide (0 < s.created ∧ s.streams.lookup (s.objects 0).id = none))
    (by decide +kernel) (by decide +kernel)
  obtain ⟨known, free⟩ := of_decide_eq_true checked
  obtain ⟨s', taken, kept⟩ := unsubscribe_own_iff reached known .ended
  have own : ¬Replaced s 0 := by
    rintro ⟨m, _, found⟩
    rw [free] at found
    cases found
  obtain ⟨spares, returned⟩ := kept.mpr own
  refine ⟨s, s', reached, taken, own, spares, fun registered => ?_⟩
  have found := returned.mpr registered
  simp [Facade.returned, free] at found

-- Two bots have subscribed the same stream, and the first one stops.
theorem other_bot_stopped :
    ∃ s s', Reaches turn (fun s t => s.knowsHandle t = true) {} s ∧
      s.callStep (.unsubscribe 0 .ended) = some s' ∧
      s.returned (.unsubscribe 0 .ended) = .stopped true ∧ ¬Registered s 0 ∧
      s.streams.lookup tradesId = some 1 ∧ s'.streams.lookup tradesId = none ∧
      (s.objects 1).stopEvt = false ∧ (s'.objects 1).stopEvt = true := by
  obtain ⟨s, reached, checked⟩ := reaches_allowed_of_check turn
    (fun s t => s.knowsHandle t = true) {}
    [.call (.subscribe tradesId .ended), .call (.subscribe tradesId .ended)]
    (fun s => decide ((s.objects 0).id = tradesId ∧ s.streams.lookup tradesId = some 1 ∧
      (s.objects 1).stopEvt = false)) (by decide +kernel) (by decide +kernel)
  obtain ⟨own, second, unstopped⟩ := of_decide_eq_true checked
  obtain ⟨tracked, _, idle⟩ := resting_of_reaches reached
  refine ⟨s, s.unsubscribed tradesId .ended, reached, own ▸ unsubscribe_run idle _ .ended, ?_, ?_,
    second, ?_, unstopped, ?_⟩
  next =>
      simp only [returned]
      rw [own, second]
      rfl
  next =>
      rw [registered_iff tracked, own, second]
      decide
  next =>
      unfold unsubscribed
      simp only [second, Dict.lookup_erase, if_true]
  next =>
      unfold unsubscribed
      simp only [second, setObject_objects, if_true]
      exact (stop_fields _ .ended).2.1

end Facade

end DeepFeeder.Client
