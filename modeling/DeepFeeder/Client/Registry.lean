import DeepFeeder.Shared.Transition
import DeepFeeder.Client.Stream

set_option autoImplicit false

namespace DeepFeeder.Client

open Transition

/-- A stream object: its flag, whether the thread that it holds is alive, and how many threads have
outlived the `join` of a `stop`. -/
structure StreamThread where
  id : String
  stopEvt : Bool := false
  alive : Bool := false
  left : Nat := 0

-- What comes of `join`: the thread ends, it does not in time, or it is the calling thread.
inductive JoinResult where
  | ended
  | timedOut
  | raised

namespace StreamThread

def running (stream : StreamThread) : Bool := stream.alive || 0 < stream.left

def start (stream : StreamThread) : StreamThread :=
  if stream.alive then stream else { stream with stopEvt := false, alive := true }

def stop (stream : StreamThread) (join : JoinResult) : StreamThread :=
  match stream.alive, join with
  | true, .ended => { stream with stopEvt := true, alive := false }
  | true, .timedOut => { stream with stopEvt := true, alive := false, left := stream.left + 1 }
  | _, _ => { stream with stopEvt := true }

end StreamThread

/-- Where the call of a thread is between its sections: a stream that is registered has yet to be
started, or streams that were taken out of `_streams` have yet to be stopped. -/
inductive Progress where
  | starting (stream : Nat)
  | stopping (stream : Nat) (rest : List Nat)

def Progress.stops : Progress → List Nat
  | .starting _ => []
  | .stopping stream rest => stream :: rest

structure Facade where
  objects : Nat → StreamThread := fun _ => { id := "" }
  created : Nat := 0
  streams : Dict String Nat := ∅
  calls : Dict Nat Progress := ∅

inductive FacadeAction where
  | subscribe (thread : Nat) (id : String) (join : JoinResult)
  | start (thread : Nat)
  | unsubscribe (thread : Nat) (id : String)
  | close (thread : Nat)
  | stop (thread : Nat) (join : JoinResult)
  -- A worker that was told to stop is done: the one that the object holds, or an earlier one.
  | exit (stream : Nat) (own : Bool)

namespace Facade

def setObject (s : Facade) (n : Nat) (stream : StreamThread) : Facade :=
  { s with objects := Function.update s.objects n stream }

def replaced (s : Facade) (id : String) (join : JoinResult) : Facade :=
  match s.streams.lookup id with
  | none => s
  | some old => { s.setObject old ((s.objects old).stop join) with streams := s.streams.erase id }

def register (s : Facade) (thread : Nat) (id : String) : Facade :=
  { s.setObject s.created { id } with
    created := s.created + 1
    streams := s.streams.set id s.created
    calls := s.calls.set thread (.starting s.created) }

def subscribe (s : Facade) (thread : Nat) (id : String) (join : JoinResult) : Option Facade :=
  match s.calls.lookup thread with
  | some _ => none
  | none => some ((s.replaced id join).register thread id)

def start (s : Facade) (thread : Nat) : Option Facade :=
  match s.calls.lookup thread with
  | some (.starting n) =>
      some { s.setObject n (s.objects n).start with calls := s.calls.erase thread }
  | _ => none

def unsubscribe (s : Facade) (thread : Nat) (id : String) : Option Facade :=
  match s.calls.lookup thread, s.streams.lookup id with
  | none, none => some s
  | none, some n =>
      some { s with streams := s.streams.erase id, calls := s.calls.set thread (.stopping n []) }
  | some _, _ => none

def close (s : Facade) (thread : Nat) : Option Facade :=
  match s.calls.lookup thread, s.streams.entries.map Sigma.snd with
  | none, [] => some s
  | none, n :: rest => some { s with streams := ∅, calls := s.calls.set thread (.stopping n rest) }
  | some _, _ => none

def stop (s : Facade) (thread : Nat) (join : JoinResult) : Option Facade :=
  match s.calls.lookup thread with
  | some (.stopping n []) =>
      some { s.setObject n ((s.objects n).stop join) with calls := s.calls.erase thread }
  | some (.stopping n (next :: rest)) =>
      some { s.setObject n ((s.objects n).stop join) with
        calls := s.calls.set thread (.stopping next rest) }
  | _ => none

def exit (s : Facade) (n : Nat) (own : Bool) : Option Facade :=
  match (s.objects n).stopEvt, own with
  | true, true => some (s.setObject n { s.objects n with alive := false })
  | true, false => some (s.setObject n { s.objects n with left := (s.objects n).left - 1 })
  | false, _ => none

def step (s : Facade) : FacadeAction → Option Facade
  | .subscribe thread id join => s.subscribe thread id join
  | .start thread => s.start thread
  | .unsubscribe thread id => s.unsubscribe thread id
  | .close thread => s.close thread
  | .stop thread join => s.stop thread join
  | .exit n own => s.exit n own

-- Each stream that runs and was not told to stop is the one that is registered under its id.
def Listed (s : Facade) : Prop :=
  ∀ n < s.created, (s.objects n).running = true → (s.objects n).stopEvt = false →
    s.streams.lookup (s.objects n).id = some n

-- A stream is started only while its flag is not set.
def startsUnstopped (s : Facade) : FacadeAction → Bool
  | .start thread =>
      match s.calls.lookup thread with
      | some (.starting n) => !(s.objects n).stopEvt
      | _ => true
  | _ => true

def Stopping (s : Facade) (n : Nat) : Prop :=
  ∃ thread call, s.calls.lookup thread = some call ∧ n ∈ call.stops

def Kept (s : Facade) (n : Nat) : Prop :=
  (s.objects n).stopEvt = true ∨ s.streams.lookup (s.objects n).id = some n ∨ s.Stopping n

structure Tracked (s : Facade) : Prop where
  registered : ∀ id n, s.streams.lookup id = some n →
    n < s.created ∧ (s.objects n).id = id ∧ (s.objects n).stopEvt = false
  starting : ∀ thread n, s.calls.lookup thread = some (.starting n) →
    n < s.created ∧ (s.objects n).running = false
  once : ∀ thread other n, s.calls.lookup thread = some (.starting n) →
    s.calls.lookup other = some (.starting n) → thread = other
  taken : ∀ n, s.Stopping n → n < s.created ∧ s.streams.lookup (s.objects n).id ≠ some n

variable {s s' : Facade} {thread n : Nat} {id : String} {join : JoinResult}

theorem setObject_objects (stream : StreamThread) (other : Nat) :
    (s.setObject n stream).objects other = if other = n then stream else s.objects other :=
  Function.update_apply _ _ _ _

theorem stop_fields (stream : StreamThread) (join : JoinResult) :
    (stream.stop join).id = stream.id ∧ (stream.stop join).stopEvt = true ∧
      (stream.running = false → (stream.stop join).running = false) := by
  unfold StreamThread.stop
  split
  next alive => exact ⟨rfl, rfl, fun idle => by simp [StreamThread.running, alive] at idle⟩
  next alive => exact ⟨rfl, rfl, fun idle => by simp [StreamThread.running, alive] at idle⟩
  next => exact ⟨rfl, rfl, id⟩

structure Quieter (stream stream' : StreamThread) : Prop where
  id : stream'.id = stream.id
  stopEvt : stream.stopEvt = true → stream'.stopEvt = true
  running : stream.running = false → stream'.running = false

theorem Quieter.refl (stream : StreamThread) : Quieter stream stream := ⟨rfl, fun h => h, fun h => h⟩

theorem quieter_stop (stream : StreamThread) (join : JoinResult) :
    Quieter stream (stream.stop join) :=
  ⟨(stop_fields stream join).1, fun _ => (stop_fields stream join).2.1,
    (stop_fields stream join).2.2⟩

theorem quieter_setObject {stream : StreamThread} (quieter : Quieter (s.objects n) stream)
    (other : Nat) : Quieter (s.objects other) ((s.setObject n stream).objects other) := by
  rw [setObject_objects]
  split
  next same =>
    rw [same]
    exact quieter
  next => exact .refl _

theorem exit_eq {own : Bool} (exited : s.exit n own = some s') :
    ∃ stream, Quieter (s.objects n) stream ∧ stream.stopEvt = (s.objects n).stopEvt ∧
      s' = s.setObject n stream := by
  unfold exit at exited
  split at exited
  next =>
    cases exited
    refine ⟨{ s.objects n with alive := false }, ⟨rfl, fun h => h, ?_⟩, by simp, rfl⟩
    intro idle
    simp only [StreamThread.running, Bool.or_eq_false_iff] at idle
    simpa [StreamThread.running] using idle.2
  next =>
    cases exited
    refine ⟨{ s.objects n with left := (s.objects n).left - 1 }, ⟨rfl, fun h => h, ?_⟩, by simp, rfl⟩
    intro idle
    simp only [StreamThread.running, Bool.or_eq_false_iff, decide_eq_false_iff_not] at idle ⊢
    exact ⟨idle.1, by omega⟩
  next => cases exited

theorem Tracked.later (tracked : Tracked s) (created : s'.created = s.created)
    (quieter : ∀ m, Quieter (s.objects m) (s'.objects m))
    (registered : ∀ id m, s'.streams.lookup id = some m →
      s.streams.lookup id = some m ∧ (s'.objects m).stopEvt = (s.objects m).stopEvt)
    (starting : ∀ thread m, s'.calls.lookup thread = some (.starting m) →
      s.calls.lookup thread = some (.starting m))
    (stopping : ∀ m, s'.Stopping m → m < s.created ∧
      s'.streams.lookup (s.objects m).id ≠ some m) : Tracked s' := by
  constructor
  · intro id m known
    obtain ⟨before, same⟩ := registered id m known
    obtain ⟨old, own, unstopped⟩ := tracked.registered id m before
    exact ⟨created ▸ old, (quieter m).id.trans own, same.trans unstopped⟩
  · intro thread m known
    obtain ⟨old, idle⟩ := tracked.starting thread m (starting thread m known)
    exact ⟨created ▸ old, (quieter m).running idle⟩
  · intro thread other m known known'
    exact tracked.once thread other m (starting thread m known) (starting other m known')
  · intro m stops
    rw [(quieter m).id, created]
    exact stopping m stops

theorem Kept.later {m : Nat} (kept : Kept s m) (quieter : Quieter (s.objects m) (s'.objects m))
    (registered : s.streams.lookup (s.objects m).id = some m → Kept s' m)
    (stopping : s.Stopping m → Kept s' m) : Kept s' m := by
  rcases kept with stopped | known | stops
  · exact .inl (quieter.stopEvt stopped)
  · exact registered known
  · exact stopping stops

theorem starting_set {m other : Nat} {rest : List Nat}
    (known : (s.calls.set thread (.stopping n rest)).lookup other = some (.starting m)) :
    s.calls.lookup other = some (.starting m) := by
  rw [Dict.lookup_set] at known
  split at known
  next => cases known
  next => exact known

theorem starting_erase {m other : Nat}
    (known : (s.calls.erase thread).lookup other = some (.starting m)) :
    other ≠ thread ∧ s.calls.lookup other = some (.starting m) := by
  rw [Dict.lookup_erase] at known
  split at known
  next => cases known
  next different => exact ⟨different, known⟩

theorem stopping_set {call : Progress} {m : Nat}
    (stops : Stopping { s with calls := s.calls.set thread call } m) :
    m ∈ call.stops ∨ s.Stopping m := by
  obtain ⟨other, found, known, member⟩ := stops
  rw [Dict.lookup_set] at known
  split at known
  next =>
    cases known
    exact .inl member
  next => exact .inr ⟨other, found, known, member⟩

theorem stopping_erase {m : Nat}
    (stops : Stopping { s with calls := s.calls.erase thread } m) : s.Stopping m := by
  obtain ⟨other, found, known, member⟩ := stops
  rw [Dict.lookup_erase] at known
  split at known
  next => cases known
  next => exact ⟨other, found, known, member⟩

theorem Stopping.of_set {call : Progress} {m : Nat} (stops : s.Stopping m)
    (kept : ∀ old, s.calls.lookup thread = some old → m ∈ old.stops → m ∈ call.stops) :
    Stopping { s with calls := s.calls.set thread call } m := by
  obtain ⟨other, found, held, member⟩ := stops
  by_cases same : other = thread
  · subst same
    exact ⟨other, call, by simp [Dict.lookup_set], kept found held member⟩
  · exact ⟨other, found, by simp [Dict.lookup_set, same, held], member⟩

theorem Stopping.of_erase {old : Progress} {m : Nat} (stops : s.Stopping m)
    (known : s.calls.lookup thread = some old) (done : m ∉ old.stops) :
    Stopping { s with calls := s.calls.erase thread } m := by
  obtain ⟨other, found, held, member⟩ := stops
  have different : other ≠ thread := by
    rintro rfl
    rw [known, Option.some.injEq] at held
    exact done (held ▸ member)
  exact ⟨other, found, by rw [Dict.lookup_erase, if_neg different, held], member⟩

section Steps

theorem unsubscribe_tracked (tracked : Tracked s) (taken : s.unsubscribe thread id = some s') :
    Tracked s' ∧ s'.created = s.created ∧ ∀ m, Kept s m → Kept s' m := by
  unfold unsubscribe at taken
  split at taken
  next => cases taken; exact ⟨tracked, rfl, fun _ kept => kept⟩
  next n idle known =>
    cases taken
    obtain ⟨old, own, _⟩ := tracked.registered id n known
    have erased (other : String) : (s.streams.erase id).lookup other =
        if other = id then none else s.streams.lookup other := Dict.lookup_erase
    refine ⟨?_, rfl, ?_⟩
    · refine tracked.later rfl (fun m => .refl _) ?_ ?_ ?_
      · intro other m found
        rw [erased] at found
        split at found
        next => cases found
        next => exact ⟨found, rfl⟩
      · exact fun other m => starting_set
      · intro m stops
        change m < s.created ∧ (s.streams.erase id).lookup (s.objects m).id ≠ some m
        rw [erased]
        rcases stopping_set (s := { s with streams := s.streams.erase id }) stops with now_ | before
        · rw [List.mem_singleton.mp now_, own, if_pos rfl]
          exact ⟨old, by simp⟩
        · obtain ⟨older, absent⟩ := tracked.taken m before
          refine ⟨older, ?_⟩
          split
          · simp
          · exact absent
    · intro m kept
      refine kept.later (.refl _) ?_ ?_
      · intro registered
        by_cases same : (s.objects m).id = id
        · rw [same, known, Option.some.injEq] at registered
          rw [← registered]
          exact .inr (.inr ⟨thread, _, Dict.lookup_set.trans (if_pos rfl), List.mem_cons_self⟩)
        · refine .inr (.inl ?_)
          change (s.streams.erase id).lookup (s.objects m).id = some m
          rw [erased, if_neg same, registered]
      · intro stops
        exact .inr (.inr (Stopping.of_set (s := { s with streams := _ }) stops (by simp [idle])))
  next => cases taken

theorem close_tracked (tracked : Tracked s) (taken : s.close thread = some s') :
    Tracked s' ∧ s'.created = s.created ∧ ∀ m, Kept s m → Kept s' m := by
  unfold close at taken
  split at taken
  next => cases taken; exact ⟨tracked, rfl, fun _ kept => kept⟩
  next n rest idle items =>
    cases taken
    have listed (m : Nat) : m ∈ n :: rest ↔ ∃ id, s.streams.lookup id = some m := by
      rw [← items, List.mem_map]
      constructor
      · rintro ⟨entry, inside, rfl⟩
        exact ⟨entry.1, AList.mem_lookup_iff.mpr inside⟩
      · rintro ⟨id, known⟩
        exact ⟨⟨id, m⟩, AList.mem_lookup_iff.mp known, rfl⟩
    refine ⟨?_, rfl, ?_⟩
    · refine tracked.later rfl (fun m => .refl _) ?_ ?_ ?_
      · intro id m found
        cases found
      · exact fun other m => starting_set
      · intro m stops
        refine ⟨?_, by simp⟩
        rcases stopping_set (s := { s with streams := ∅ }) stops with now_ | before
        · obtain ⟨id, known⟩ := (listed m).mp now_
          exact (tracked.registered id m known).1
        · exact (tracked.taken m before).1
    · intro m kept
      refine kept.later (.refl _) ?_ ?_
      · intro registered
        exact .inr (.inr ⟨thread, _, Dict.lookup_set.trans (if_pos rfl),
          (listed m).mpr ⟨_, registered⟩⟩)
      · intro stops
        exact .inr (.inr (Stopping.of_set (s := { s with streams := ∅ }) stops (by simp [idle])))
  next => cases taken

theorem stop_objects_tracked (tracked : Tracked s) (stops : s.Stopping n) (calls : Dict Nat Progress)
    (starting : ∀ thread m, calls.lookup thread = some (.starting m) →
      s.calls.lookup thread = some (.starting m))
    (stopping : ∀ m, Stopping { s with calls } m → s.Stopping m)
    (remains : ∀ m, s.Stopping m → m = n ∨ Stopping { s with calls } m) :
    Tracked { s.setObject n ((s.objects n).stop join) with calls } ∧
      ∀ m, Kept s m → Kept { s.setObject n ((s.objects n).stop join) with calls } m := by
  have quieter := quieter_setObject (quieter_stop (s.objects n) join)
  have stopped : ((s.setObject n ((s.objects n).stop join)).objects n).stopEvt = true := by
    rw [setObject_objects, if_pos rfl]
    exact (stop_fields _ join).2.1
  constructor
  · refine tracked.later rfl quieter ?_ starting ?_
    · intro id m found
      refine ⟨found, ?_⟩
      have different : m ≠ n := by
        rintro rfl
        have own := (tracked.registered id m found).2.1
        exact (tracked.taken m stops).2 (own ▸ found)
      change ((s.setObject n ((s.objects n).stop join)).objects m).stopEvt = _
      rw [setObject_objects, if_neg different]
    · exact fun m still => tracked.taken m (stopping m still)
  · intro m kept
    refine kept.later (quieter m) ?_ ?_
    · intro registered
      refine .inr (.inl ?_)
      change s.streams.lookup ((s.setObject n ((s.objects n).stop join)).objects m).id = some m
      rw [(quieter m).id]
      exact registered
    · intro before
      rcases remains m before with rfl | still
      · exact .inl stopped
      · exact .inr (.inr still)

theorem stop_tracked (tracked : Tracked s) (taken : s.stop thread join = some s') :
    Tracked s' ∧ s'.created = s.created ∧ ∀ m, Kept s m → Kept s' m := by
  unfold stop at taken
  split at taken
  next n known =>
    cases taken
    have stops : s.Stopping n := ⟨thread, _, known, List.mem_cons_self⟩
    refine (stop_objects_tracked tracked stops _ ?_ ?_ ?_).imp_right fun keeps => ⟨rfl, keeps⟩
    · exact fun other m found => (starting_erase found).2
    · exact fun m => stopping_erase
    · intro m before
      by_cases same : m = n
      · exact .inl same
      · exact .inr (before.of_erase known (by simpa [Progress.stops] using same))
  next n later rest known =>
    cases taken
    have stops : s.Stopping n := ⟨thread, _, known, List.mem_cons_self⟩
    refine (stop_objects_tracked tracked stops _ ?_ ?_ ?_).imp_right fun keeps => ⟨rfl, keeps⟩
    · exact fun other m => starting_set
    · intro m still
      rcases stopping_set still with now_ | before
      · exact ⟨thread, _, known, List.mem_cons_of_mem _ now_⟩
      · exact before
    · intro m before
      by_cases same : m = n
      · exact .inl same
      · exact .inr (before.of_set (by simp [known, Progress.stops, same]))
  next => cases taken

theorem exit_tracked {own : Bool} (tracked : Tracked s) (taken : s.exit n own = some s') :
    Tracked s' ∧ s'.created = s.created ∧ ∀ m, Kept s m → Kept s' m := by
  obtain ⟨stream, quiet, flag, rfl⟩ := exit_eq taken
  have quieter := quieter_setObject quiet
  refine ⟨?_, rfl, ?_⟩
  · refine tracked.later rfl quieter ?_ (fun _ _ => id) (fun m => tracked.taken m)
    intro id m found
    refine ⟨found, ?_⟩
    rw [setObject_objects]
    split
    next same => rw [same, flag]
    next => rfl
  · intro m kept
    refine kept.later (quieter m) ?_ (fun stops => .inr (.inr stops))
    intro registered
    refine .inr (.inl ?_)
    rw [(quieter m).id]
    exact registered

theorem replaced_spec (s : Facade) (id : String) (join : JoinResult) :
    (s.replaced id join).created = s.created ∧ (s.replaced id join).calls = s.calls ∧
      (∀ m, Quieter (s.objects m) ((s.replaced id join).objects m)) ∧
      ∀ m, if s.streams.lookup id = some m then ((s.replaced id join).objects m).stopEvt = true
        else (s.replaced id join).objects m = s.objects m := by
  unfold replaced
  split
  next absent =>
    refine ⟨rfl, rfl, fun m => .refl _, ?_⟩
    intro m
    rw [absent, if_neg (by simp)]
  next old known =>
    refine ⟨rfl, rfl, quieter_setObject (quieter_stop _ join), ?_⟩
    intro m
    rw [known]
    by_cases same : old = m
    · subst same
      rw [if_pos rfl]
      change ((s.setObject old ((s.objects old).stop join)).objects old).stopEvt = true
      rw [setObject_objects, if_pos rfl]
      exact (stop_fields _ join).2.1
    · rw [if_neg (by simpa using same)]
      change (s.setObject old ((s.objects old).stop join)).objects m = s.objects m
      rw [setObject_objects, if_neg fun equal => same equal.symm]

theorem replaced_lookup (s : Facade) (id : String) (join : JoinResult) (other : String) (n : Nat) :
    ((s.replaced id join).streams.set id n).lookup other =
      if other = id then some n else s.streams.lookup other := by
  rw [Dict.lookup_set]
  split
  · rfl
  next different =>
    unfold replaced
    split
    next => rfl
    next => exact Dict.lookup_erase.trans (if_neg different)

-- What the section of `subscribe` does: the new stream is registered and to be started, and of the
-- others only the one that it replaces is told to stop.
structure Subscribed (s s' : Facade) (thread : Nat) (id : String) : Prop where
  created : s'.created = s.created + 1
  idle : s.calls.lookup thread = none
  new : s'.objects s.created = { id }
  older : ∀ m < s.created, Quieter (s.objects m) (s'.objects m)
  replaced : ∀ m < s.created, if s.streams.lookup id = some m then (s'.objects m).stopEvt = true
    else s'.objects m = s.objects m
  streams : ∀ other, s'.streams.lookup other =
    if other = id then some s.created else s.streams.lookup other
  calls : ∀ other, s'.calls.lookup other =
    if other = thread then some (.starting s.created) else s.calls.lookup other

theorem subscribe_eq (taken : s.subscribe thread id join = some s') : Subscribed s s' thread id := by
  unfold subscribe at taken
  split at taken
  next => cases taken
  next idle =>
    cases taken
    obtain ⟨created, sameCalls, quieter, replaced⟩ := replaced_spec s id join
    have objects (m : Nat) : (((s.replaced id join).register thread id).objects m) =
        if m = s.created then { id } else (s.replaced id join).objects m := by
      rw [← created]
      exact setObject_objects _ m
    refine ⟨congrArg (· + 1) created, idle, ?_, ?_, ?_, ?_, ?_⟩
    · rw [objects, if_pos rfl]
    · intro m before
      rw [objects, if_neg (by omega)]
      exact quieter m
    · intro m before
      rw [objects m, if_neg (show m ≠ s.created by omega)]
      exact replaced m
    · intro other
      rw [← created]
      exact replaced_lookup s id join other _
    · intro other
      rw [← created, ← sameCalls]
      exact Dict.lookup_set

theorem Subscribed.stopping_iff (done : Subscribed s s' thread id) (m : Nat) :
    s'.Stopping m ↔ s.Stopping m := by
  constructor
  · rintro ⟨other, call, known, member⟩
    rw [done.calls] at known
    split at known
    next =>
      cases known
      cases member
    next => exact ⟨other, call, known, member⟩
  · rintro ⟨other, call, known, member⟩
    have different : other ≠ thread := by
      rintro rfl
      rw [done.idle] at known
      cases known
    exact ⟨other, call, by rw [done.calls, if_neg different, known], member⟩

theorem Subscribed.tracked (tracked : Tracked s) (done : Subscribed s s' thread id) : Tracked s' := by
  -- What was there before is not the new stream.
  have waiting {other m : Nat} (found : s.calls.lookup other = some (.starting m)) : m < s.created :=
    (tracked.starting other m found).1
  constructor
  · intro other m found
    rw [done.streams] at found
    rw [done.created]
    split at found
    next same =>
      cases found
      rw [done.new]
      exact ⟨by omega, same.symm, rfl⟩
    next different =>
      obtain ⟨before, own, unstopped⟩ := tracked.registered other m found
      have untouched := done.replaced m before
      rw [if_neg] at untouched
      · rw [untouched]
        exact ⟨by omega, own, unstopped⟩
      · intro replaced
        exact different (own.symm.trans (tracked.registered id m replaced).2.1)
  · intro other m found
    rw [done.calls] at found
    rw [done.created]
    split at found
    next =>
      cases found
      rw [done.new]
      exact ⟨by omega, rfl⟩
    next =>
      obtain ⟨before, quiet⟩ := tracked.starting other m found
      exact ⟨by omega, (done.older m before).running quiet⟩
  · intro first second m found found'
    rw [done.calls] at found found'
    split at found
    next here =>
      cases found
      split at found'
      next there => rw [here, there]
      next => exact absurd (waiting found') (by omega)
    next =>
      split at found'
      next =>
        cases found'
        exact absurd (waiting found) (by omega)
      next => exact tracked.once first second m found found'
  · intro m stops
    obtain ⟨before, absent⟩ := tracked.taken m ((done.stopping_iff m).mp stops)
    rw [done.created, (done.older m before).id, done.streams]
    refine ⟨by omega, ?_⟩
    split
    · intro equal
      simp only [Option.some.injEq] at equal
      omega
    · exact absent

theorem Subscribed.kept (done : Subscribed s s' thread id) {m : Nat} (before : m < s.created)
    (kept : Kept s m) : Kept s' m := by
  have older := done.older m before
  refine kept.later older ?_ (fun stops => .inr (.inr ((done.stopping_iff m).mpr stops)))
  intro registered
  by_cases same : (s.objects m).id = id
  · have replaced := done.replaced m before
    rw [← same, if_pos registered] at replaced
    exact .inl replaced
  · refine .inr (.inl ?_)
    rw [older.id, done.streams, if_neg same, registered]

theorem subscribe_tracked (tracked : Tracked s) (taken : s.subscribe thread id join = some s') :
    Tracked s' ∧ s'.created = s.created + 1 ∧ Kept s' s.created ∧
      ∀ m < s.created, Kept s m → Kept s' m := by
  have done := subscribe_eq taken
  refine ⟨done.tracked tracked, done.created, .inr (.inl ?_), fun m before => done.kept before⟩
  rw [done.new, done.streams, if_pos rfl]

theorem start_eq (taken : s.start thread = some s') :
    ∃ n, s.calls.lookup thread = some (.starting n) ∧
      s' = { s.setObject n (s.objects n).start with calls := s.calls.erase thread } := by
  unfold start at taken
  split at taken
  next n known => cases taken; exact ⟨n, known, rfl⟩
  next => cases taken

theorem start_object (tracked : Tracked s) (known : s.calls.lookup thread = some (.starting n)) :
    (s.objects n).start = { s.objects n with stopEvt := false, alive := true } := by
  have idle := (tracked.starting thread n known).2
  simp only [StreamThread.running, Bool.or_eq_false_iff] at idle
  rw [StreamThread.start, idle.1]
  rfl

theorem start_tracked (tracked : Tracked s) (taken : s.start thread = some s') :
    Tracked s' ∧ s'.created = s.created ∧
      ∀ m, (s.calls.lookup thread = some (.starting m) → (s.objects m).stopEvt = false) →
        Kept s m → Kept s' m := by
  obtain ⟨n, known, rfl⟩ := start_eq taken
  have objects (m : Nat) : (s.setObject n (s.objects n).start).objects m =
      if m = n then { s.objects n with stopEvt := false, alive := true } else s.objects m := by
    rw [setObject_objects, start_object tracked known]
  have ids (m : Nat) : ((s.setObject n (s.objects n).start).objects m).id = (s.objects m).id := by
    rw [objects]
    split
    next same => rw [same]
    next => rfl
  have stopping {m : Nat} (stops : Stopping { s with calls := s.calls.erase thread } m) :
      s.Stopping m := stopping_erase stops
  refine ⟨⟨?_, ?_, ?_, ?_⟩, rfl, ?_⟩
  · intro id m found
    obtain ⟨before, own, unstopped⟩ := tracked.registered id m found
    refine ⟨before, (ids m).trans own, ?_⟩
    rw [objects]
    split
    · rfl
    · exact unstopped
  · intro other m found
    obtain ⟨different, waits⟩ := starting_erase found
    obtain ⟨before, idle⟩ := tracked.starting other m waits
    refine ⟨before, ?_⟩
    rw [objects, if_neg]
    · exact idle
    · rintro rfl
      exact different (tracked.once other thread m waits known)
  · intro first second m found found'
    exact tracked.once first second m (starting_erase found).2 (starting_erase found').2
  · intro m stops
    rw [ids]
    exact tracked.taken m (stopping stops)
  · rintro m unstopped (stopped | registered | stops)
    · have different : m ≠ n := by
        rintro rfl
        rw [unstopped known] at stopped
        cases stopped
      refine .inl ?_
      rw [objects, if_neg different]
      exact stopped
    · refine .inr (.inl ?_)
      rw [ids]
      exact registered
    · exact .inr (.inr (Stopping.of_erase (s := s.setObject n _) stops known (by simp [Progress.stops])))

end Steps

def Sound (s : Facade) : Prop := Tracked s ∧ ∀ n < s.created, Kept s n

theorem step_sound {a : FacadeAction} (sound : Sound s) (unstopped : startsUnstopped s a = true)
    (taken : s.step a = some s') : Sound s' := by
  obtain ⟨tracked, kept⟩ := sound
  -- The sections other than that of `subscribe` create no stream.
  have same (result : Tracked s' ∧ s'.created = s.created ∧ ∀ m, Kept s m → Kept s' m) : Sound s' := by
    obtain ⟨tracked', created, keeps⟩ := result
    refine ⟨tracked', ?_⟩
    intro m before
    exact keeps m (kept m (created ▸ before))
  cases a with
  | subscribe thread id join =>
      obtain ⟨tracked', created, new, keeps⟩ := subscribe_tracked tracked taken
      refine ⟨tracked', ?_⟩
      intro m before
      rw [created] at before
      rcases Nat.lt_succ_iff_lt_or_eq.mp before with older | rfl
      · exact keeps m older (kept m older)
      · exact new
  | start thread =>
      obtain ⟨tracked', created, keeps⟩ := start_tracked tracked taken
      refine ⟨tracked', ?_⟩
      intro m before
      refine keeps m ?_ (kept m (created ▸ before))
      intro known
      simpa [startsUnstopped, known] using unstopped
  | unsubscribe thread id => exact same (unsubscribe_tracked tracked taken)
  | close thread => exact same (close_tracked tracked taken)
  | stop thread join => exact same (stop_tracked tracked taken)
  | exit n own => exact same (exit_tracked tracked taken)

theorem start_sound : Sound {} := by
  refine ⟨⟨?_, ?_, ?_, ?_⟩, ?_⟩
  · intro id n known
    cases known
  · intro thread n known
    cases known
  · intro thread other n known
    cases known
  · rintro n ⟨thread, call, known, _⟩
    cases known
  · intro n before
    cases before

theorem late_start (tracked : Tracked s) (known : s.calls.lookup thread = some (.starting n))
    (stopped : (s.objects n).stopEvt = true) (taken : s.step (.start thread) = some s') :
    (s'.objects n).running = true ∧ (s'.objects n).stopEvt = false ∧
      s'.streams.lookup (s'.objects n).id ≠ some n := by
  obtain ⟨m, known', rfl⟩ := start_eq taken
  rw [known, Option.some.injEq, Progress.starting.injEq] at known'
  subst known'
  change ((s.setObject n (s.objects n).start).objects n).running = true ∧
    ((s.setObject n (s.objects n).start).objects n).stopEvt = false ∧
      s.streams.lookup ((s.setObject n (s.objects n).start).objects n).id ≠ some n
  rw [setObject_objects, if_pos rfl, start_object tracked known]
  refine ⟨rfl, rfl, ?_⟩
  intro registered
  have unstopped := (tracked.registered _ n registered).2.2
  rw [stopped] at unstopped
  cases unstopped

theorem running_streams_are_listed
    (reached : Reaches step (fun s a => startsUnstopped s a = true) {} s) :
    (s.calls.entries = [] → Listed s) ∧
      ∀ thread n s', s.calls.lookup thread = some (.starting n) → (s.objects n).stopEvt = true →
        s.step (.start thread) = some s' →
          (s'.objects n).running = true ∧ (s'.objects n).stopEvt = false ∧
            s'.streams.lookup (s'.objects n).id ≠ some n := by
  obtain ⟨tracked, kept⟩ : Sound s :=
    reached.invariant Sound start_sound fun _ _ _ sound unstopped taken =>
      step_sound sound unstopped taken
  constructor
  · intro quiet n before running unstopped
    rcases kept n before with stopped | registered | ⟨thread, call, known, _⟩
    · rw [unstopped] at stopped
      cases stopped
    · exact registered
    · have listed : Dict.entry thread call ∈ s.calls.entries := AList.mem_lookup_iff.mp known
      rw [quiet] at listed
      cases listed
  · exact fun thread n s' known stopped taken => late_start tracked known stopped taken

attribute [local instance] asciiUppercase

def tradesId : String := streamId "binance" "trades" "BTCUSDT" none

-- The second call replaces the stream of the first one, whose thread outlives it.
theorem running_streams_are_listed_replaced :
    ∃ s, Reaches step (fun s a => startsUnstopped s a = true) {} s ∧
      s.calls.entries = [] ∧ (s.objects 1).running = true ∧ (s.objects 1).stopEvt = false ∧
      Listed s := by
  obtain ⟨s, reached, check⟩ := reaches_allowed_of_check step (fun s a => startsUnstopped s a = true)
    {} [.subscribe 0 tradesId .ended, .start 0, .subscribe 1 tradesId .timedOut, .start 1]
    (fun s => s.calls.entries.isEmpty && ((s.objects 1).running && !(s.objects 1).stopEvt))
    (by decide +kernel) (by decide +kernel)
  simp only [Bool.and_eq_true, List.isEmpty_iff, Bool.not_eq_true'] at check
  obtain ⟨quiet, running, unstopped⟩ := check
  exact ⟨s, reached, quiet, running, unstopped, (running_streams_are_listed reached).1 quiet⟩

-- The client is closed between the two steps of `subscribe`.
theorem close_before_start_leaves_stream :
    ∃ s, Reaches step anyStep {} s ∧ s.calls.entries = [] ∧ s.streams.entries = [] ∧ ¬ Listed s := by
  obtain ⟨s, reached, check⟩ := reaches_of_check step {}
    [.subscribe 0 tradesId .ended, .close 1, .stop 1 .ended, .start 0]
    (fun s => s.calls.entries.isEmpty && s.streams.entries.isEmpty && decide (0 < s.created) &&
      (s.objects 0).running && !(s.objects 0).stopEvt) (by decide +kernel)
  simp only [Bool.and_eq_true, List.isEmpty_iff, Bool.not_eq_true', decide_eq_true_eq] at check
  obtain ⟨⟨⟨⟨quiet, empty⟩, created⟩, running⟩, unstopped⟩ := check
  refine ⟨s, reached, quiet, empty, ?_⟩
  intro listed
  have member := AList.mem_lookup_iff.mp (listed 0 created running unstopped)
  rw [empty] at member
  cases member

end Facade

end DeepFeeder.Client
