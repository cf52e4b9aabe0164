import DeepFeeder.Shared.Transition
import DeepFeeder.Fanout.Core

set_option autoImplicit false

namespace DeepFeeder

namespace MarketFeeder

def countOf (handles : Dict String HandleInfo) (key : String) : Nat :=
  handles.entries.countP fun entry => decide (entry.2.key = key)

structure Listening (feeder : MarketFeeder) : Prop where
  listened : ∀ key, key ∈ feeder.lsn ↔ 0 < feeder.refCount key
  runs : ∀ id, id ∈ feeder.running ↔ ∃ key lsn, feeder.lsn.lookup key = some lsn ∧ lsn.id = id
  once : ∀ key other lsn lsn', feeder.lsn.lookup key = some lsn →
    feeder.lsn.lookup other = some lsn' → lsn.id = lsn'.id → key = other
  fresh : ∀ key lsn, feeder.lsn.lookup key = some lsn → lsn.id < feeder.nextListener

def Counts (extra : String → Nat) (feeder : MarketFeeder) : Prop :=
  ∀ key, feeder.refCount key = countOf feeder.handles key + extra key

variable {feeder next : MarketFeeder} {sub : Subscription} {creation : Creation} {handle : String}
  {found : HandleInfo} {key : String} {extra : String → Nat}

theorem subscribe_ok [Uppercase] (ok : feeder.subscribe sub creation = (.ok handle, next)) :
    handle = sub.handle ∧ next.handles = feeder.handles.set sub.handle (info sub) ∧
      next.refs = feeder.refs.set sub.key (feeder.refCount sub.key + 1) ∧
      (sub.key ∈ feeder.lsn ∧ next.lsn = feeder.lsn ∧ next.running = feeder.running ∧
          next.nextListener = feeder.nextListener ∨
        sub.key ∉ feeder.lsn ∧ ∃ spec bufLen, schemas sub.provider sub.dataSchema = some spec ∧
          next.lsn = feeder.lsn.set sub.key (feeder.newListener sub spec bufLen) ∧
          next.running = feeder.running ++ [feeder.nextListener] ∧
          next.nextListener = feeder.nextListener + 1) := by
  unfold subscribe ensureListener at ok
  simp only at ok
  by_cases inside : sub.key ∈ (feeder.countRef sub.key).lsn
  · rw [if_pos inside] at ok
    cases ok
    exact ⟨rfl, rfl, rfl, .inl ⟨inside, rfl, rfl, rfl⟩⟩
  · rw [if_neg inside] at ok
    cases spec : schemas sub.provider sub.dataSchema with
    | none =>
        rw [spec] at ok
        cases ok
    | some spec_ =>
        rw [spec] at ok
        cases creation with
        | raised text => cases ok
        | started bufLen =>
            cases ok
            exact ⟨rfl, rfl, rfl, .inr ⟨inside, spec_, bufLen, rfl, rfl, rfl, rfl⟩⟩

theorem subscribe_error [Uppercase] {text : String}
    (failed : feeder.subscribe sub creation = (.error text, next)) :
    next = feeder.countRef sub.key := by
  unfold subscribe at failed
  simp only at failed
  split at failed
  next => cases failed; rfl
  next => cases failed

theorem unsubscribe_unknown (unknown : feeder.handles.lookup handle = none) :
    feeder.unsubscribe handle = feeder := by
  unfold unsubscribe
  rw [unknown]

theorem unsubscribe_found (known : feeder.handles.lookup handle = some found) :
    (feeder.unsubscribe handle).handles = feeder.handles.erase handle ∧
      (feeder.unsubscribe handle).refs =
        feeder.refs.set found.key (feeder.refCount found.key - 1) ∧
      (feeder.unsubscribe handle).nextListener = feeder.nextListener ∧
      (1 < feeder.refCount found.key ∧ (feeder.unsubscribe handle).lsn = feeder.lsn ∧
          (feeder.unsubscribe handle).running = feeder.running ∨
        feeder.refCount found.key ≤ 1 ∧
          (feeder.unsubscribe handle).lsn = feeder.lsn.erase found.key ∧
          (feeder.unsubscribe handle).running =
            feeder.running.filter fun id => ∀ lsn ∈ feeder.lsn.lookup found.key, id ≠ lsn.id) := by
  have dropped : (feeder.dropRef handle found).refCount found.key = feeder.refCount found.key - 1 := by
    unfold refCount dropRef
    rw [Dict.lookup_set, if_pos rfl, Option.getD_some, Nat.max_eq_right (Nat.zero_le _)]
    rfl
  have value : feeder.unsubscribe handle =
      (feeder.dropRef handle found).destroyListenerIfUnused found.key := by
    unfold unsubscribe
    rw [known]
  have refs : (feeder.dropRef handle found).refs =
      feeder.refs.set found.key (feeder.refCount found.key - 1) := by
    unfold dropRef
    rw [Nat.max_eq_right (Nat.zero_le _)]
  rw [value]
  unfold destroyListenerIfUnused
  rw [dropped]
  by_cases used : 0 < feeder.refCount found.key - 1
  · rw [if_pos used]
    exact ⟨rfl, refs, rfl, .inl ⟨by omega, rfl, rfl⟩⟩
  · rw [if_neg used]
    have lookup : (feeder.dropRef handle found).lsn.lookup found.key = feeder.lsn.lookup found.key :=
      rfl
    rw [lookup]
    cases listener : feeder.lsn.lookup found.key with
    | none => exact ⟨rfl, refs, rfl, .inr ⟨by omega, rfl, by simp [dropRef]⟩⟩
    | some lsn => exact ⟨rfl, refs, rfl, .inr ⟨by omega, rfl, by simp [stop, dropRef]⟩⟩

theorem refCount_of_set {count : Nat} (refs : next.refs = feeder.refs.set key count)
    (other : String) :
    next.refCount other = if other = key then count else feeder.refCount other := by
  unfold refCount
  rw [refs, Dict.lookup_set]
  split
  · rfl
  · rfl

theorem info_key [Uppercase] (sub : Subscription) : (info sub).key = sub.key := rfl

theorem countOf_set (handles : Dict String HandleInfo) (handle : String) (found : HandleInfo)
    (key : String) :
    countOf (handles.set handle found) key =
      countOf (handles.erase handle) key + if key = found.key then 1 else 0 := by
  unfold countOf
  rw [Dict.perm_set.countP_eq, List.countP_cons]
  by_cases same : key = found.key
  · simp [same]
  · simp [same, Ne.symm same]

theorem countOf_of_lookup {handles : Dict String HandleInfo}
    (known : handles.lookup handle = some found) (key : String) :
    countOf handles key =
      countOf (handles.erase handle) key + if key = found.key then 1 else 0 := by
  unfold countOf
  rw [(Dict.perm_of_lookup known).countP_eq, List.countP_cons]
  by_cases same : key = found.key
  · simp [same]
  · simp [same, Ne.symm same]

theorem counts_unsubscribe (counts : feeder.Counts extra) (handle : String) :
    (feeder.unsubscribe handle).Counts extra := by
  cases known : feeder.handles.lookup handle with
  | none =>
      rw [unsubscribe_unknown known]
      exact counts
  | some found =>
      intro key
      have before := counts key
      have removed := countOf_of_lookup known key
      rw [refCount_of_set (unsubscribe_found known).2.1, (unsubscribe_found known).1]
      split
      next same =>
        subst same
        rw [if_pos rfl] at removed
        omega
      next different =>
        rw [if_neg different] at removed
        omega

section Listeners

theorem Listening.kept (listening : feeder.Listening) (lsn : next.lsn = feeder.lsn)
    (running : next.running = feeder.running) (nextListener : next.nextListener = feeder.nextListener)
    (listened : ∀ key, key ∈ feeder.lsn ↔ 0 < next.refCount key) : next.Listening := by
  constructor
  next => rw [lsn]; exact listened
  next => rw [lsn, running]; exact listening.runs
  next => rw [lsn]; exact listening.once
  next => rw [lsn, nextListener]; exact listening.fresh

theorem Listening.started (listening : feeder.Listening) {started : Listener}
    (outside : key ∉ feeder.lsn) (isNew : started.id = feeder.nextListener)
    (lsn : next.lsn = feeder.lsn.set key started)
    (running : next.running = feeder.running ++ [feeder.nextListener])
    (nextListener : next.nextListener = feeder.nextListener + 1)
    (listened : ∀ other, other = key ∨ other ∈ feeder.lsn ↔ 0 < next.refCount other) :
    next.Listening := by
  have lookup (other : String) : next.lsn.lookup other =
      if other = key then some started else feeder.lsn.lookup other := by
    rw [lsn, Dict.lookup_set]
  constructor
  next =>
    intro other
    rw [lsn, Dict.mem_set]
    exact listened other
  next =>
    intro id
    rw [running, List.mem_append, List.mem_singleton, listening.runs]
    constructor
    · rintro (⟨other, listener, at_, rfl⟩ | rfl)
      · have different : other ≠ key := by
          rintro rfl
          rw [AList.lookup_eq_none.mpr outside] at at_
          cases at_
        exact ⟨other, listener, by rw [lookup, if_neg different, at_], rfl⟩
      · exact ⟨key, started, by rw [lookup, if_pos rfl], isNew⟩
    · rintro ⟨other, listener, at_, rfl⟩
      rw [lookup] at at_
      split at at_
      next =>
        cases at_
        exact .inr isNew
      next => exact .inl ⟨other, listener, at_, rfl⟩
  next =>
    intro first second listener listener' at_ at' same
    rw [lookup] at at_ at'
    split at at_
    next here =>
      cases at_
      split at at'
      next there => rw [here, there]
      next =>
        have := listening.fresh second listener' at'
        omega
    next =>
      split at at'
      next =>
        cases at'
        have := listening.fresh first listener at_
        omega
      next => exact listening.once first second listener listener' at_ at' same
  next =>
    intro other listener at_
    rw [lookup] at at_
    rw [nextListener]
    split at at_
    next =>
      cases at_
      omega
    next => exact Nat.lt_succ_of_lt (listening.fresh other listener at_)

theorem Listening.stopped (listening : feeder.Listening) (lsn : next.lsn = feeder.lsn.erase key)
    (running : next.running =
      feeder.running.filter fun id => ∀ lsn ∈ feeder.lsn.lookup key, id ≠ lsn.id)
    (nextListener : next.nextListener = feeder.nextListener)
    (listened : ∀ other, other ≠ key ∧ other ∈ feeder.lsn ↔ 0 < next.refCount other) :
    next.Listening := by
  have lookup (other : String) : next.lsn.lookup other =
      if other = key then none else feeder.lsn.lookup other := by
    rw [lsn, Dict.lookup_erase]
  have remains {other : String} {listener : Listener}
      (at_ : next.lsn.lookup other = some listener) :
      other ≠ key ∧ feeder.lsn.lookup other = some listener := by
    rw [lookup] at at_
    split at at_
    next => cases at_
    next different => exact ⟨different, at_⟩
  constructor
  next =>
    intro other
    rw [lsn, AList.mem_erase]
    exact listened other
  next =>
    intro id
    rw [running, List.mem_filter, decide_eq_true_eq, listening.runs]
    constructor
    · rintro ⟨⟨other, listener, at_, rfl⟩, apart⟩
      refine ⟨other, listener, ?_, rfl⟩
      rw [lookup, if_neg, at_]
      rintro rfl
      exact apart listener at_ rfl
    · rintro ⟨other, listener, at_, rfl⟩
      obtain ⟨different, at_⟩ := remains at_
      refine ⟨⟨other, listener, at_, rfl⟩, fun stopped inside same => different ?_⟩
      exact listening.once other key listener stopped at_ inside same
  next =>
    intro first second listener listener' at_ at' same
    exact listening.once first second listener listener' (remains at_).2 (remains at').2 same
  next =>
    intro other listener at_
    rw [nextListener]
    exact listening.fresh other listener (remains at_).2

end Listeners

theorem listening_subscribe [Uppercase] (listening : feeder.Listening)
    (ok : feeder.subscribe sub creation = (.ok handle, next)) : next.Listening := by
  obtain ⟨_, _, refs, ⟨inside, lsn, running, nextListener⟩ |
    ⟨outside, _, _, _, lsn, running, nextListener⟩⟩ := subscribe_ok ok
  · apply listening.kept lsn running nextListener
    intro key
    rw [refCount_of_set refs]
    split
    next same => simp [same, inside]
    next => exact listening.listened key
  · apply listening.started outside rfl lsn running nextListener
    intro key
    rw [refCount_of_set refs]
    split
    next same => simp [same]
    next different => simpa [different] using listening.listened key

theorem listening_unsubscribe (listening : feeder.Listening) (handle : String) :
    (feeder.unsubscribe handle).Listening := by
  cases known : feeder.handles.lookup handle with
  | none =>
      rw [unsubscribe_unknown known]
      exact listening
  | some found =>
      obtain ⟨_, refs, nextListener, ⟨used, lsn, running⟩ | ⟨unused, lsn, running⟩⟩ :=
        unsubscribe_found known
      · apply listening.kept lsn running nextListener
        intro key
        rw [refCount_of_set refs]
        split
        next same =>
          rw [same, listening.listened]
          omega
        next => exact listening.listened key
      · apply listening.stopped lsn running nextListener
        intro key
        rw [refCount_of_set refs]
        split
        next same =>
          simp only [same, ne_eq, not_true_eq_false, false_and, false_iff]
          omega
        next different => simpa [different] using listening.listened key

theorem unsubscribes_keeps (order : List String) (listening : feeder.Listening)
    (counts : feeder.Counts extra) :
    (order.foldl unsubscribe feeder).Listening ∧ (order.foldl unsubscribe feeder).Counts extra := by
  induction order generalizing feeder with
  | nil => exact ⟨listening, counts⟩
  | cons handle rest ih =>
      exact ih (listening_unsubscribe listening handle) (counts_unsubscribe counts handle)

theorem handles_unsubscribe (feeder : MarketFeeder) (handle : String) :
    (feeder.unsubscribe handle).handles = feeder.handles.erase handle := by
  cases known : feeder.handles.lookup handle with
  | none => rw [unsubscribe_unknown known, Dict.erase_of_notMem (AList.lookup_eq_none.mp known)]
  | some found => exact (unsubscribe_found known).1

theorem mem_handles_unsubscribes (order : List String) (other : String) :
    other ∈ (order.foldl unsubscribe feeder).handles ↔ other ∉ order ∧ other ∈ feeder.handles := by
  induction order generalizing feeder with
  | nil => simp
  | cons handle rest ih =>
      rw [List.foldl_cons, ih, handles_unsubscribe, AList.mem_erase, List.mem_cons]
      tauto

theorem running_of_no_handles (listening : feeder.Listening) (counts : feeder.Counts extra)
    (none : ∀ handle, handle ∉ feeder.handles) :
    feeder.running = [] ↔ ∀ key, extra key = 0 := by
  have empty : feeder.handles.entries = [] := by
    apply List.eq_nil_iff_forall_not_mem.mpr
    intro entry member
    exact none entry.1 (List.mem_keys_of_mem member)
  have refs (key : String) : feeder.refCount key = extra key := by
    rw [counts key]
    simp [countOf, empty]
  constructor
  · intro stopped key
    by_contra kept
    have referred : 0 < feeder.refCount key := by
      rw [refs]
      omega
    obtain ⟨lsn, at_⟩ := Option.isSome_iff_exists.mp
      (AList.lookup_isSome.mpr ((listening.listened key).mpr referred))
    have runs := (listening.runs lsn.id).mpr ⟨key, lsn, at_, rfl⟩
    rw [stopped] at runs
    cases runs
  · intro zero
    apply List.eq_nil_iff_forall_not_mem.mpr
    intro id runs
    obtain ⟨key, lsn, at_, _⟩ := (listening.runs id).mp runs
    have referred := (listening.listened key).mp (AList.lookup_isSome.mp (by rw [at_]; rfl))
    rw [refs, zero] at referred
    exact absurd referred (Nat.lt_irrefl 0)

theorem counts_subscribe_new [Uppercase] (counts : feeder.Counts fun _ => 0)
    (absent : sub.handle ∉ feeder.handles)
    (ok : feeder.subscribe sub creation = (.ok handle, next)) : next.Counts fun _ => 0 := by
  obtain ⟨_, handles, refs, _⟩ := subscribe_ok ok
  intro key
  have before : feeder.refCount key = countOf feeder.handles key := counts key
  have added := countOf_set feeder.handles sub.handle (info sub) key
  rw [Dict.erase_of_notMem absent, info_key] at added
  rw [refCount_of_set refs, handles, added]
  by_cases same : key = sub.key
  · subst same
    rw [if_pos rfl, if_pos rfl, before]
    rfl
  · rw [if_neg same, if_neg same, before]
    rfl

theorem counts_subscribe_again [Uppercase] (counts : feeder.Counts fun _ => 0)
    (known : feeder.handles.lookup sub.handle = some found)
    (ok : feeder.subscribe sub creation = (.ok handle, next)) :
    next.Counts fun key => if key = found.key then 1 else 0 := by
  obtain ⟨_, handles, refs, _⟩ := subscribe_ok ok
  intro key
  have before : feeder.refCount key = countOf feeder.handles key := counts key
  have added := countOf_set feeder.handles sub.handle (info sub) key
  have removed := countOf_of_lookup known key
  rw [info_key] at added
  rw [refCount_of_set refs, handles, added]
  by_cases same : key = sub.key
  · subst same
    rw [if_pos rfl, if_pos rfl, before, removed]
    exact Nat.add_right_comm _ _ _
  · rw [if_neg same, if_neg same, before, removed]
    rfl

theorem stops_eq (listeners : List (Sigma fun _ : String => Listener)) (feeder : MarketFeeder) :
    (listeners.foldl (fun feeder lsn => feeder.stop lsn.2) feeder).handles = feeder.handles ∧
      (feeder.running = [] →
        (listeners.foldl (fun feeder lsn => feeder.stop lsn.2) feeder).running = []) := by
  induction listeners generalizing feeder with
  | nil => exact ⟨rfl, id⟩
  | cons lsn rest ih =>
      obtain ⟨handles, running⟩ := ih (feeder.stop lsn.2)
      refine ⟨handles, fun stopped => running ?_⟩
      unfold stop
      rw [stopped]
      rfl

theorem unsubscribeAll_empty (listening : feeder.Listening) (counts : feeder.Counts fun _ => 0) :
    (feeder.unsubscribeAll.2.handles = ∅ ∧ feeder.unsubscribeAll.2.running = []) ∧
      feeder.unsubscribeAll.2.lsn = ∅ ∧ feeder.unsubscribeAll.2.refs = ∅ := by
  obtain ⟨released, counted⟩ := unsubscribes_keeps feeder.handles.keys listening counts
  have none : ∀ handle, handle ∉ (feeder.handles.keys.foldl unsubscribe feeder).handles := by
    intro handle inside
    rw [mem_handles_unsubscribes] at inside
    exact inside.1 (AList.mem_keys.mp inside.2)
  have stopped := (running_of_no_handles released counted none).mpr fun _ => rfl
  obtain ⟨handles, running⟩ := stops_eq
    (feeder.handles.keys.foldl unsubscribe feeder).lsn.entries
    (feeder.handles.keys.foldl unsubscribe feeder)
  refine ⟨⟨handles.trans ?_, running stopped⟩, rfl, rfl⟩
  apply AList.ext
  apply List.eq_nil_iff_forall_not_mem.mpr
  intro entry member
  exact none entry.1 (List.mem_keys_of_mem member)

end MarketFeeder

structure Live where
  key : String
  handle : String
  deriving DecidableEq

structure Session where
  feeder : MarketFeeder
  live : List Live

inductive Call where
  | subscribe (sub : Subscription) (creation : Creation)
  | unsubscribe (handle : String)
  | unsubscribeAll

namespace Session

def new : Session := { feeder := {}, live := [] }

-- The calls return; a `subscribe` that raises is not taken.
def step [Uppercase] (s : Session) : Call → Option Session
  | .subscribe sub creation => match s.feeder.subscribe sub creation with
      | (.ok handle, feeder) => some { feeder, live := s.live ++ [⟨sub.key, handle⟩] }
      | (.error _, _) => none
  | .unsubscribe handle => some
      { feeder := s.feeder.unsubscribe handle
        live := s.live.eraseP fun live => decide (live.handle = handle) }
  | .unsubscribeAll => some { feeder := s.feeder.unsubscribeAll.2, live := [] }

def liveCount (s : Session) (key : String) : Nat := s.live.countP fun live => decide (live.key = key)

structure Counted (s : Session) : Prop where
  refs : ∀ key, s.feeder.refCount key = s.liveCount key
  listener : ∀ key, key ∈ s.feeder.lsn ↔ 0 < s.liveCount key
  registered : ∀ live ∈ s.live, live.handle ∈ s.feeder.handles
  released : ∀ order : List String, order.Perm (s.live.map Live.handle) →
    (order.foldl MarketFeeder.unsubscribe s.feeder).running = []

-- The handle of a new subscription is not that of a registered one.
def fresh [Uppercase] (s : Session) : Call → Prop
  | .subscribe sub _ => sub.handle ∉ s.feeder.handles
  | _ => True

instance [Uppercase] (s : Session) (c : Call) : Decidable (s.fresh c) :=
  match c with
  | .subscribe sub _ => inferInstanceAs (Decidable (sub.handle ∉ s.feeder.handles))
  | .unsubscribe _ | .unsubscribeAll => isTrue trivial

structure Good (s : Session) : Prop where
  listening : s.feeder.Listening
  counts : s.feeder.Counts fun _ => 0
  perm : s.live.Perm (s.feeder.handles.entries.map fun entry => ⟨entry.2.key, entry.1⟩)

variable {s s' : Session} {c : Call} {handle : String}

theorem good_new : new.Good where
  listening :=
    { listened := fun key => by simp [new, MarketFeeder.refCount]
      runs := fun id => by simp [new]
      once := fun key other lsn lsn' at_ => by simp [new] at at_
      fresh := fun key lsn at_ => by simp [new] at at_ }
  counts := fun key => rfl
  perm := List.Perm.nil

theorem Good.liveCount_eq (good : s.Good) (key : String) : s.liveCount key = s.feeder.refCount key := by
  have counts : s.feeder.refCount key = MarketFeeder.countOf s.feeder.handles key := good.counts key
  unfold liveCount
  rw [counts, good.perm.countP_eq, List.countP_map]
  rfl

theorem Good.live_iff (good : s.Good) :
    handle ∈ s.live.map Live.handle ↔ handle ∈ s.feeder.handles := by
  rw [(good.perm.map Live.handle).mem_iff, List.map_map]
  rfl

theorem Good.counted (good : s.Good) : s.Counted where
  refs := fun key => (good.liveCount_eq key).symm
  listener := fun key => by rw [good.liveCount_eq, good.listening.listened]
  registered := fun live member => good.live_iff.mp (List.mem_map_of_mem member)
  released := fun order perm => by
    obtain ⟨listening, counts⟩ :=
      MarketFeeder.unsubscribes_keeps order good.listening good.counts
    refine (MarketFeeder.running_of_no_handles listening counts fun handle inside => ?_).mpr
      fun _ => rfl
    rw [MarketFeeder.mem_handles_unsubscribes, perm.mem_iff, good.live_iff] at inside
    exact inside.1 inside.2

theorem good_subscribe [Uppercase] {sub : Subscription} {creation : Creation} (good : s.Good)
    (absent : sub.handle ∉ s.feeder.handles) (taken : s.step (.subscribe sub creation) = some s') :
    s'.Good := by
  unfold step at taken
  simp only at taken
  split at taken
  next handle feeder ok =>
    cases taken
    obtain ⟨isHandle, handles, _⟩ := MarketFeeder.subscribe_ok ok
    constructor
    next => exact MarketFeeder.listening_subscribe good.listening ok
    next => exact MarketFeeder.counts_subscribe_new good.counts absent ok
    next =>
      rw [handles, Dict.entries_set_of_notMem absent, List.map_append, isHandle]
      exact good.perm.append_right _
  next => cases taken

theorem good_unsubscribe [Uppercase] (good : s.Good) (taken : s.step (.unsubscribe handle) = some s') :
    s'.Good := by
  cases taken
  constructor
  next => exact MarketFeeder.listening_unsubscribe good.listening handle
  next => exact MarketFeeder.counts_unsubscribe good.counts handle
  next =>
    have distinct : (s.feeder.handles.entries.map fun entry =>
        (⟨entry.2.key, entry.1⟩ : Live)).Pairwise fun a b =>
          decide (a.handle = handle) = true → decide (b.handle = handle) = true → False := by
      rw [List.pairwise_map]
      refine s.feeder.handles.nodupKeys.pairwise_ne.imp fun different a b => different ?_
      exact (of_decide_eq_true a).trans (of_decide_eq_true b).symm
    have erased := (List.Perm.eraseP _ distinct good.perm.symm).symm
    rw [List.eraseP_map] at erased
    rw [MarketFeeder.handles_unsubscribe]
    change List.Perm _ ((s.feeder.handles.entries.eraseP _).map _)
    simpa only [Function.comp_def, eq_comm] using erased

theorem good_step [Uppercase] (good : s.Good) (permitted : s.fresh c) (taken : s.step c = some s') :
    s'.Good := by
  cases c with
  | subscribe sub creation => exact good_subscribe good permitted taken
  | unsubscribe handle => exact good_unsubscribe good taken
  | unsubscribeAll =>
      cases taken
      obtain ⟨⟨handles, running⟩, lsn, refs⟩ :=
        MarketFeeder.unsubscribeAll_empty good.listening good.counts
      constructor
      next =>
        constructor
        next =>
          intro key
          simp only [lsn, MarketFeeder.refCount, refs]
          simp
        next => simp [lsn, running]
        next => simp [lsn]
        next => simp [lsn]
      next =>
        intro key
        simp [MarketFeeder.refCount, MarketFeeder.countOf, refs, handles]
      next => simp [handles]

-- Unsubscribing every handle that was returned does not stop the listener.
theorem not_counted_of_again [Uppercase] {sub : Subscription} {creation : Creation} (good : s.Good)
    (known : sub.handle ∈ s.feeder.handles) (taken : s.step (.subscribe sub creation) = some s') :
    ¬s'.Counted := by
  intro counted
  obtain ⟨found, at_⟩ := Option.isSome_iff_exists.mp (AList.lookup_isSome.mpr known)
  unfold step at taken
  simp only at taken
  split at taken
  next handle feeder ok =>
    cases taken
    obtain ⟨isHandle, handles, _⟩ := MarketFeeder.subscribe_ok ok
    let order := (s.live ++ [(⟨sub.key, handle⟩ : Live)]).map Live.handle
    obtain ⟨listening, counts⟩ := MarketFeeder.unsubscribes_keeps order
      (MarketFeeder.listening_subscribe good.listening ok)
      (MarketFeeder.counts_subscribe_again good.counts at_ ok)
    have stopped := (MarketFeeder.running_of_no_handles listening counts fun other inside => ?_).mp
      (counted.released order (.refl _))
    · have extra := stopped found.key
      rw [if_pos rfl] at extra
      cases extra
    · rw [MarketFeeder.mem_handles_unsubscribes, handles, Dict.mem_set, ← isHandle] at inside
      obtain ⟨outside, here | there⟩ := inside
      · exact outside (by simp [order, here])
      · have returned := good.live_iff.mpr there
        simp only [order, List.map_append, List.mem_append] at outside
        exact outside (.inl returned)
  next => cases taken

theorem counted_iff_from [Uppercase] (good : s.Good) (calls : List Call)
    (successful : (Transition.run step s calls).isSome = true) :
    (∀ n s', Transition.run step s (calls.take n) = some s' → s'.Counted) ↔
      Transition.runMeets step fresh s calls = true := by
  induction calls generalizing s with
  | nil =>
      refine iff_of_true (fun n s' result => ?_) rfl
      rw [List.take_nil] at result
      cases result
      exact good.counted
  | cons c rest ih =>
      cases taken : s.step c with
      | none => simp [Transition.run, taken] at successful
      | some next =>
          simp only [Transition.run, taken, Option.bind_some] at successful
          simp only [Transition.runMeets, taken, Bool.and_eq_true, decide_eq_true_eq]
          constructor
          · intro counted
            have here := counted 1 next (by simp [Transition.run, taken])
            have permitted : s.fresh c := by
              cases c with
              | subscribe sub creation =>
                  exact fun known => not_counted_of_again good known taken here
              | unsubscribe handle => trivial
              | unsubscribeAll => trivial
            refine ⟨permitted, (ih (good_step good permitted taken) successful).mp ?_⟩
            exact fun n s' result => counted (n + 1) s' (by simp [Transition.run, taken, result])
          · rintro ⟨permitted, later⟩ n s' result
            have counted := (ih (good_step good permitted taken) successful).mpr later
            cases n with
            | zero =>
                cases result
                exact good.counted
            | succ n =>
                simp only [List.take_succ_cons, Transition.run, taken, Option.bind_some] at result
                exact counted n s' result

theorem counted_iff [Uppercase] (calls : List Call)
    (successful : (Transition.run step new calls).isSome = true) :
    (∀ n s, Transition.run step new (calls.take n) = some s → s.Counted) ↔
      Transition.runMeets step fresh new calls = true :=
  counted_iff_from good_new calls successful

attribute [local instance] asciiUppercase

def trades (callback : Nat) : Subscription :=
  { provider := "binance", dataSchema := "trades", symbol := "BTCUSDT"
    callback := { id := callback, target := callback } }

def once : List Call :=
  [.subscribe (trades 1) (.started 256), .subscribe (trades 2) (.started 256),
    .unsubscribe (trades 1).handle, .unsubscribe (trades 2).handle]

theorem counted_once :
    Transition.runMeets step fresh new once = true ∧
      ∀ n s, Transition.run step new (once.take n) = some s → s.Counted :=
  ⟨by decide, (counted_iff once (by decide)).mpr (by decide)⟩

def twice : List Call :=
  [.subscribe (trades 1) (.started 256), .subscribe (trades 1) (.started 256),
    .unsubscribe (trades 1).handle, .unsubscribe (trades 1).handle]

theorem twice_keeps_running :
    ∃ s, Transition.run step new twice = some s ∧ s.live = [] ∧ s.feeder.running = [0] ∧
      ¬s.Counted := by
  have left : (Transition.run step new twice).map (fun s => (s.live, s.feeder.running)) =
      some ([], [0]) := by decide
  obtain ⟨s, result, isLeft⟩ := Option.map_eq_some_iff.mp left
  obtain ⟨live, running⟩ := Prod.mk.inj isLeft
  refine ⟨s, result, live, running, fun counted => ?_⟩
  have stopped := counted.released [] (by rw [live]; rfl)
  rw [List.foldl_nil, running] at stopped
  cases stopped

end Session

end DeepFeeder
