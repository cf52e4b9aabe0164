import DeepFeeder.Shared.Transition
import DeepFeeder.Runtime.Services

set_option autoImplicit false

namespace DeepFeeder

universe u

def Stage.made {Inst : Type u} : Stage Inst → Nat
  | .running | .raised => 0
  | .returned _ | .cleared _ => 1

def Stage.isMarked {Inst : Type u} : Stage Inst → Bool
  | .cleared _ => false
  | _ => true

/-- The container, with as history how many times the factory of each key has returned, what the calls
of `get` have returned, and the keys for which they have raised the error of a cycle. -/
structure ServiceLog (Inst : Type u) where
  services : Services Inst := {}
  completed : String → Nat := fun _ => 0
  handedOut : List (String × Inst) := []
  cyclic : List String := []

namespace ServiceLog

open Transition Relation

variable {Inst : Type u}

def note (l : ServiceLog Inst) : ServiceAction Inst → ServiceLog Inst
  | .get _ key =>
      match l.services.find key with
      | .ok (some inst) => { l with handedOut := l.handedOut ++ [(key, inst)] }
      | .error (.runtimeError _) => { l with cyclic := l.cyclic ++ [key] }
      | _ => l
  | .factoryReturns thread _ =>
      match l.services.callsOf thread with
      | c :: _ => { l with completed := Function.update l.completed c.key (l.completed c.key + 1) }
      | [] => l
  | .publish thread =>
      match l.services.callsOf thread with
      | ⟨key, .cleared inst⟩ :: _ => { l with handedOut := l.handedOut ++ [(key, inst)] }
      | _ => l
  | _ => l

def step (uses : String → String → Bool) (l : ServiceLog Inst) (a : ServiceAction Inst) :
    Option (ServiceLog Inst) :=
  (l.services.step uses a).map fun services => { l.note a with services }

def onlyThread (l : ServiceLog Inst) (thread : Nat) (key : String) : Bool :=
  l.services.calls.entries.all fun entry =>
    entry.1 = thread || key ∉ entry.2.map GetCall.key

def unconstructed (l : ServiceLog Inst) (key : String) : Bool :=
  l.services.calls.entries.all fun entry => key ∉ entry.2.map GetCall.key

/-- A key that has no instance is asked for only while no other thread constructs it, and an instance
is registered only for a key that has none and is not constructed. -/
def alone (l : ServiceLog Inst) : ServiceAction Inst → Bool
  | .get thread key => key ∈ l.services.instances || l.onlyThread thread key
  | .register key (some _) => key ∉ l.services.instances && l.unconstructed key
  | _ => true

structure Singletons (l : ServiceLog Inst) : Prop where
  noError : l.cyclic = []
  once : ∀ key, l.completed key ≤ 1
  same : ∀ key inst inst', (key, inst) ∈ l.handedOut → (key, inst') ∈ l.handedOut → inst = inst'
  listed : ∀ key inst, (key, inst) ∈ l.handedOut → l.services.constructOrder.count key = 1

structure OnceFor (l : ServiceLog Inst) (key : String) : Prop where
  built : ∀ t, ∀ c ∈ l.services.callsOf t, c.key = key → key ∉ l.services.instances ∧
    key ∈ l.services.factories ∧ l.completed key = c.stage.made
  marked : key ∈ l.services.constructing ↔
    ∃ t, ∃ c ∈ l.services.callsOf t, c.key = key ∧ c.stage.isMarked = true
  untouched : key ∉ l.services.instances → (∀ t, key ∉ l.services.keysOf t) → l.completed key = 0
  ready : key ∈ l.services.instances → l.completed key ≤ 1
  order : l.services.constructOrder.count key = if key ∈ l.services.instances then 1 else 0
  same : ∀ inst, (key, inst) ∈ l.handedOut → l.services.instances.lookup key = some inst

structure Once (uses : String → String → Bool) (l : ServiceLog Inst) : Prop where
  nested : ∀ t, (l.services.keysOf t).Pairwise fun inner outer =>
    TransGen (fun a b => uses a b = true) outer inner
  apart : ∀ t t' key, key ∈ l.services.keysOf t → key ∈ l.services.keysOf t' → t = t'
  keys : ∀ key, l.OnceFor key
  noError : l.cyclic = []

structure Agrees (l l' : ServiceLog Inst) (key : String) : Prop where
  calls : ∀ t, ∀ c : GetCall Inst, c.key = key →
    (c ∈ l'.services.callsOf t ↔ c ∈ l.services.callsOf t)
  factories : key ∈ l.services.factories → key ∈ l'.services.factories
  instances : l'.services.instances.lookup key = l.services.instances.lookup key
  constructing : key ∈ l'.services.constructing ↔ key ∈ l.services.constructing
  completed : l'.completed key = l.completed key
  order : l'.services.constructOrder.count key = l.services.constructOrder.count key
  handedOut : ∀ inst, (key, inst) ∈ l'.handedOut → (key, inst) ∈ l.handedOut

variable {uses : String → String → Bool} {l l' : ServiceLog Inst} {thread t : Nat} {key : String}
  {c d : GetCall Inst} {rest : List (GetCall Inst)}

theorem mem_callsOf (member : key ∈ l.services.keysOf t) :
    ∃ calls, Dict.entry t calls ∈ l.services.calls.entries ∧ key ∈ calls.map GetCall.key := by
  unfold Services.keysOf Services.callsOf at member
  cases found : l.services.calls.lookup t with
  | none =>
      rw [found] at member
      cases member
  | some calls =>
      rw [found] at member
      exact ⟨calls, AList.mem_lookup_iff.mp found, member⟩

theorem keysOf_entry {calls : List (GetCall Inst)}
    (member : Dict.entry t calls ∈ l.services.calls.entries) :
    l.services.keysOf t = calls.map GetCall.key := by
  unfold Services.keysOf Services.callsOf
  rw [AList.mem_lookup_iff.mpr member]
  rfl

theorem onlyThread_iff : l.onlyThread thread key = true ↔
    ∀ t, t ≠ thread → key ∉ l.services.keysOf t := by
  unfold onlyThread
  rw [List.all_eq_true]
  constructor
  next =>
      intro all t other member
      obtain ⟨calls, entry, inside⟩ := mem_callsOf member
      have here := all _ entry
      rw [Bool.or_eq_true, decide_eq_true_eq, decide_eq_true_eq] at here
      rcases here with same | absent
      next => exact other same
      next => exact absent inside
  next =>
      intro others entry member
      obtain ⟨t, calls⟩ := entry
      rw [Bool.or_eq_true, decide_eq_true_eq, decide_eq_true_eq]
      by_cases same : t = thread
      next => exact .inl same
      next => exact .inr (keysOf_entry member ▸ others t same)

theorem unconstructed_spec (alone : l.unconstructed key = true) (t : Nat) :
    key ∉ l.services.keysOf t := by
  intro member
  obtain ⟨calls, entry, inside⟩ := mem_callsOf member
  have here := List.all_eq_true.mp alone _ entry
  exact of_decide_eq_true here inside

theorem Once.singletons (once : Once uses l) : l.Singletons := by
  refine ⟨once.noError, fun key => ?_, fun key inst inst' first second => ?_,
    fun key inst handed => ?_⟩
  next =>
      obtain ⟨built, _, untouched, ready, _, _⟩ := once.keys key
      by_cases has : key ∈ l.services.instances
      next => exact ready has
      next =>
          by_cases idle : ∀ t, key ∉ l.services.keysOf t
          next => exact (untouched has idle).le.trans (Nat.zero_le 1)
          next =>
              obtain ⟨t, member⟩ := not_forall_not.mp idle
              obtain ⟨c, inside, own⟩ := List.mem_map.mp member
              rw [(built t c inside own).2.2]
              unfold Stage.made
              split
              next => exact Nat.zero_le 1
              next => exact Nat.zero_le 1
              next => exact le_refl 1
              next => exact le_refl 1
  next =>
      have found := (once.keys key).same inst first
      rw [(once.keys key).same inst' second, Option.some.injEq] at found
      exact found.symm
  next =>
      have has : key ∈ l.services.instances :=
        AList.lookup_isSome.mp (Option.isSome_of_eq_some ((once.keys key).same inst handed))
      rw [(once.keys key).order, if_pos has]

theorem mem_iff_of_lookup {d d' : Dict String Inst} (same : d'.lookup key = d.lookup key) :
    key ∈ d' ↔ key ∈ d := by rw [← AList.lookup_isSome, same, AList.lookup_isSome]

theorem OnceFor.of_agrees (once : OnceFor l key) (agrees : Agrees l l' key) : OnceFor l' key := by
  have has := mem_iff_of_lookup agrees.instances
  constructor
  next =>
      intro t c member own
      rw [has, agrees.completed]
      obtain ⟨absent, known, made⟩ := once.built t c ((agrees.calls t c own).mp member) own
      exact ⟨absent, agrees.factories known, made⟩
  next =>
      rw [agrees.constructing, once.marked]
      refine exists_congr fun t => exists_congr fun c => ?_
      constructor
      next => exact fun ⟨member, own, marked⟩ => ⟨(agrees.calls t c own).mpr member, own, marked⟩
      next => exact fun ⟨member, own, marked⟩ => ⟨(agrees.calls t c own).mp member, own, marked⟩
  next =>
      rw [has, agrees.completed]
      refine fun absent idle => once.untouched absent fun t member => ?_
      obtain ⟨c, inside, own⟩ := List.mem_map.mp member
      refine idle t (List.mem_map.mpr ⟨c, ?_, own⟩)
      exact (agrees.calls t c own).mpr inside
  next =>
      rw [has, agrees.completed]
      exact once.ready
  next =>
      rw [agrees.order, once.order]
      simp only [has]
  next =>
      intro inst handed
      rw [agrees.instances]
      exact once.same inst (agrees.handedOut inst handed)

/-- No factory uses its own key, through others or not. -/
def Acyclic (uses : String → String → Bool) : Prop :=
  ∀ key, ¬TransGen (fun a b => uses a b = true) key key

section Calls

theorem mem_keysOf (member : c ∈ l.services.callsOf t) : c.key ∈ l.services.keysOf t :=
  List.mem_map_of_mem member

theorem Once.not_below (once : Once uses l) (acyclic : Acyclic uses)
    (top : l.services.callsOf thread = c :: rest) : c.key ∉ rest.map GetCall.key := by
  have nested := once.nested thread
  unfold Services.keysOf at nested
  rw [top, List.map_cons, List.pairwise_cons] at nested
  exact fun member => acyclic c.key (nested.1 c.key member)

theorem Once.unique (once : Once uses l) (acyclic : Acyclic uses)
    (top : l.services.callsOf thread = c :: rest) (member : d ∈ l.services.callsOf t)
    (same : d.key = c.key) : t = thread ∧ d = c := by
  have here : c ∈ l.services.callsOf thread := top ▸ List.mem_cons_self
  have own : t = thread := once.apart t thread c.key (same ▸ mem_keysOf member) (mem_keysOf here)
  rw [own, top] at member
  rcases List.mem_cons.mp member with equal | below
  next => exact ⟨own, equal⟩
  next => exact absurd (same ▸ List.mem_map_of_mem below) (once.not_below acyclic top)

theorem Once.built_top (once : Once uses l) (top : l.services.callsOf thread = c :: rest) :
    c.key ∉ l.services.instances ∧ c.key ∈ l.services.factories ∧
      l.completed c.key = c.stage.made :=
  (once.keys c.key).built thread c (top ▸ List.mem_cons_self) rfl

theorem Once.marked_top (once : Once uses l) (top : l.services.callsOf thread = c :: rest)
    (isMarked : c.stage.isMarked = true) : c.key ∈ l.services.constructing :=
  (once.keys c.key).marked.mpr ⟨thread, c, top ▸ List.mem_cons_self, rfl, isMarked⟩

theorem Once.own_goes_on (once : Once uses l) (acyclic : Acyclic uses)
    (top : l.services.callsOf thread = c :: rest) {stage : Stage Inst}
    (member : d ∈ (l.services.setCalls thread (⟨c.key, stage⟩ :: rest)).callsOf t)
    (same : d.key = c.key) : t = thread ∧ d = ⟨c.key, stage⟩ := by
  rw [Services.callsOf_setCalls] at member
  split at member
  next own =>
      rcases List.mem_cons.mp member with equal | below
      next => exact ⟨own, equal⟩
      next => exact absurd (same ▸ List.mem_map_of_mem below) (once.not_below acyclic top)
  next other => exact absurd (once.unique acyclic top member same).1 other

theorem Once.own_ended (once : Once uses l) (acyclic : Acyclic uses)
    (top : l.services.callsOf thread = c :: rest)
    (member : d ∈ (l.services.setCalls thread rest).callsOf t) : d.key ≠ c.key := by
  intro same
  rw [Services.callsOf_setCalls] at member
  split at member
  next => exact once.not_below acyclic top (same ▸ List.mem_map_of_mem member)
  next other => exact other (once.unique acyclic top member same).1

theorem Once.nested_of_sublist (once : Once uses l) (l' : ServiceLog Inst)
    (fewer : ∀ t, (l'.services.keysOf t).Sublist (l.services.keysOf t)) :
    (∀ t, (l'.services.keysOf t).Pairwise fun inner outer =>
      TransGen (fun a b => uses a b = true) outer inner) ∧
      ∀ t t' key, key ∈ l'.services.keysOf t → key ∈ l'.services.keysOf t' → t = t' :=
  ⟨fun t => (once.nested t).sublist (fewer t), fun t t' key here there =>
    once.apart t t' key ((fewer t).subset here) ((fewer t').subset there)⟩

end Calls

section Steps

theorem Once.goesOn (once : Once uses l) (acyclic : Acyclic uses)
    (top : l.services.callsOf thread = c :: rest) (stage : Stage Inst)
    {constructing : Finset String} {completed : String → Nat}
    (marked : c.key ∈ constructing ↔ stage.isMarked = true) (made : completed c.key = stage.made)
    (others : ∀ key, key ≠ c.key →
      (key ∈ constructing ↔ key ∈ l.services.constructing) ∧ completed key = l.completed key) :
    Once uses { l with
      services := { l.services.setCalls thread (⟨c.key, stage⟩ :: rest) with constructing }
      completed } := by
  have there : (⟨c.key, stage⟩ : GetCall Inst) ∈
      (l.services.setCalls thread (⟨c.key, stage⟩ :: rest)).callsOf thread := by
    rw [Services.callsOf_setCalls_self]
    exact List.mem_cons_self
  have fewer (t : Nat) : ((l.services.setCalls thread (⟨c.key, stage⟩ :: rest)).keysOf t).Sublist
      (l.services.keysOf t) := by
    rw [Services.keysOf_setCalls]
    split
    next own =>
        unfold Services.keysOf
        rw [own, top, List.map_cons, List.map_cons]
    next => exact List.Sublist.refl _
  obtain ⟨nested, apart⟩ := once.nested_of_sublist { l with
    services := { l.services.setCalls thread (⟨c.key, stage⟩ :: rest) with constructing }
    completed } fewer
  refine ⟨nested, apart, fun key => ?_, once.noError⟩
  by_cases own : key = c.key
  next =>
      rw [own]
      obtain ⟨_, _, _, _, order, same⟩ := once.keys c.key
      obtain ⟨absent, known, _⟩ := once.built_top top
      refine ⟨fun t d member equal => ?_, marked.trans ⟨fun still => ?_, ?_⟩, fun _ idle => ?_,
        fun has => absurd has absent, order, same⟩
      next =>
          obtain ⟨_, rfl⟩ := once.own_goes_on acyclic top member equal
          exact ⟨absent, known, made⟩
      next => exact ⟨thread, _, there, rfl, still⟩
      next =>
          rintro ⟨t, d, member, equal, still⟩
          obtain ⟨_, rfl⟩ := once.own_goes_on acyclic top member equal
          exact still
      next => exact absurd (List.mem_map_of_mem there) (idle thread)
  next =>
      obtain ⟨constructing_, completed_⟩ := others key own
      refine (once.keys key).of_agrees ⟨fun t d equal => ?_, id, rfl, constructing_, completed_, rfl,
        fun _ => id⟩
      refine Services.mem_setCalls_other top (fun e other => ?_) t d (equal ▸ own)
      rw [List.mem_cons, List.mem_cons]
      refine or_congr ⟨fun same => ?_, fun same => ?_⟩ Iff.rfl
      next => exact absurd (congrArg GetCall.key same) other
      next => exact absurd (congrArg GetCall.key same) other

theorem Once.ended (once : Once uses l) (acyclic : Acyclic uses)
    (top : l.services.callsOf thread = c :: rest) {instances : Dict String Inst}
    {constructOrder : List String} {constructing : Finset String} {handedOut : List (String × Inst)}
    (unmarked : c.key ∉ constructing) (untouched : c.key ∉ instances → l.completed c.key = 0)
    (ready : c.key ∈ instances → l.completed c.key ≤ 1)
    (order : constructOrder.count c.key = if c.key ∈ instances then 1 else 0)
    (same : ∀ inst, (c.key, inst) ∈ handedOut → instances.lookup c.key = some inst)
    (others : ∀ key, key ≠ c.key → instances.lookup key = l.services.instances.lookup key ∧
      (key ∈ constructing ↔ key ∈ l.services.constructing) ∧
      constructOrder.count key = l.services.constructOrder.count key ∧
      ∀ inst, (key, inst) ∈ handedOut → (key, inst) ∈ l.handedOut) :
    Once uses { l with
      services := { l.services.setCalls thread rest with instances, constructOrder, constructing }
      handedOut } := by
  have fewer (t : Nat) : ((l.services.setCalls thread rest).keysOf t).Sublist
      (l.services.keysOf t) := by
    rw [Services.keysOf_setCalls]
    split
    next own =>
        unfold Services.keysOf
        rw [own, top, List.map_cons]
        exact List.sublist_cons_self _ _
    next => exact List.Sublist.refl _
  obtain ⟨nested, apart⟩ := once.nested_of_sublist { l with
    services := { l.services.setCalls thread rest with instances, constructOrder, constructing }
    handedOut } fewer
  refine ⟨nested, apart, fun key => ?_, once.noError⟩
  by_cases own : key = c.key
  next =>
      rw [own]
      refine ⟨fun t d member equal => ?_, iff_of_false unmarked ?_, fun absent _ => untouched absent,
        ready, order, same⟩
      next => exact absurd equal (once.own_ended acyclic top member)
      next =>
          rintro ⟨t, d, member, equal, _⟩
          exact once.own_ended acyclic top member equal
  next =>
      obtain ⟨instances_, constructing_, order_, handed⟩ := others key own
      refine (once.keys key).of_agrees ⟨fun t d equal => ?_, id, instances_, constructing_, rfl, order_,
        handed⟩
      refine Services.mem_setCalls_other top (fun e other => ?_) t d (equal ▸ own)
      rw [List.mem_cons, or_iff_right]
      exact fun same => other (congrArg GetCall.key same)

theorem own_begins (idle : ∀ t, key ∉ l.services.keysOf t)
    (member : d ∈ (l.services.setCalls thread
      (⟨key, .running⟩ :: l.services.callsOf thread)).callsOf t) (same : d.key = key) :
    d = ⟨key, .running⟩ := by
  rw [Services.callsOf_setCalls] at member
  split at member
  next =>
      rcases List.mem_cons.mp member with equal | below
      next => exact equal
      next => exact absurd (same ▸ mem_keysOf below) (idle thread)
  next => exact absurd (same ▸ mem_keysOf member) (idle t)

theorem place_begins {other : String} (member : other ∈ (l.services.setCalls thread
    (⟨key, .running⟩ :: l.services.callsOf thread)).keysOf t) :
    (other = key ∧ t = thread) ∨ other ∈ l.services.keysOf t := by
  rw [Services.keysOf_setCalls] at member
  split at member
  next same =>
      rw [same]
      exact (List.mem_cons.mp member).imp_left fun equal => ⟨equal, rfl⟩
  next => exact .inr member

theorem Once.apart_begins (once : Once uses l) (idle : ∀ t, key ∉ l.services.keysOf t)
    {other : String} {t' : Nat} (here : other ∈ (l.services.setCalls thread
      (⟨key, .running⟩ :: l.services.callsOf thread)).keysOf t)
    (here' : other ∈ (l.services.setCalls thread
      (⟨key, .running⟩ :: l.services.callsOf thread)).keysOf t') : t = t' := by
  rcases place_begins here with ⟨new, first⟩ | old
  next =>
      rcases place_begins here' with ⟨_, second⟩ | old'
      next => rw [first, second]
      next => exact absurd (new ▸ old') (idle t')
  next =>
      rcases place_begins here' with ⟨new, _⟩ | old'
      next => exact absurd (new ▸ old) (idle t)
      next => exact once.apart t t' other old old'

theorem Once.begins (once : Once uses l) (absent : key ∉ l.services.instances)
    (known : key ∈ l.services.factories) (idle : ∀ t, key ∉ l.services.keysOf t)
    (used : ∀ outer ∈ l.services.keysOf thread, TransGen (fun a b => uses a b = true) outer key) :
    Once uses { l with services :=
      { l.services.setCalls thread (⟨key, .running⟩ :: l.services.callsOf thread) with
        constructing := insert key l.services.constructing } } := by
  have there : (⟨key, .running⟩ : GetCall Inst) ∈ (l.services.setCalls thread
      (⟨key, .running⟩ :: l.services.callsOf thread)).callsOf thread := by
    rw [Services.callsOf_setCalls_self]
    exact List.mem_cons_self
  refine ⟨fun t => ?_, fun t t' other => once.apart_begins idle, fun other => ?_, once.noError⟩
  next =>
      change ((l.services.setCalls thread _).keysOf t).Pairwise _
      rw [Services.keysOf_setCalls]
      split
      next => exact List.pairwise_cons.mpr ⟨used, once.nested thread⟩
      next => exact once.nested t
  next =>
      by_cases equal : other = key
      next =>
          rw [equal]
          obtain ⟨_, _, untouched, _, order, same⟩ := once.keys key
          refine ⟨fun t d member same => ?_, iff_of_true (Finset.mem_insert_self _ _) ?_,
            fun _ unused => ?_, fun has => absurd has absent, order, same⟩
          next =>
              rw [own_begins idle member same]
              exact ⟨absent, known, untouched absent idle⟩
          next => exact ⟨thread, _, there, rfl, rfl⟩
          next => exact absurd (List.mem_map_of_mem there) (unused thread)
      next =>
          refine (once.keys other).of_agrees ⟨fun t d same => ?_, id, rfl, ?_, rfl, rfl, fun _ => id⟩
          next =>
              refine Services.mem_setCalls_other rfl (fun e different => ?_) t d (same ▸ equal)
              rw [List.mem_cons, or_iff_right]
              exact fun new => different (congrArg GetCall.key new)
          next => exact Finset.mem_insert.trans (or_iff_right equal)

theorem Once.registers (once : Once uses l) (absent : key ∉ l.services.instances)
    (idle : ∀ t, key ∉ l.services.keysOf t) (inst : Inst) :
    Once uses { l with services := l.services.register key (some inst) } := by
  refine ⟨once.nested, once.apart, fun other => ?_, once.noError⟩
  by_cases equal : other = key
  next =>
      rw [equal]
      obtain ⟨_, marked, untouched, _, order, same⟩ := once.keys key
      have has : key ∈ l.services.instances.set key inst := Dict.mem_set.mpr (.inl rfl)
      refine ⟨fun t d member own => ?_, marked, fun gone => absurd has gone, fun _ => ?_, ?_,
        fun other handed => ?_⟩
      next => exact absurd (own ▸ mem_keysOf member) (idle t)
      next => exact (untouched absent idle).le.trans (Nat.zero_le 1)
      next =>
          rw [if_neg absent] at order
          change (l.services.constructOrder ++ [key]).count key =
            if key ∈ l.services.instances.set key inst then 1 else 0
          rw [if_pos has, List.count_append, order, List.count_singleton_self]
      next =>
          refine absurd (AList.lookup_isSome.mp ?_) absent
          exact Option.isSome_of_eq_some (same other handed)
  next =>
      refine (once.keys other).of_agrees ⟨fun _ _ _ => Iff.rfl, id, ?_, Iff.rfl, rfl, ?_, fun _ => id⟩
      next => exact Dict.lookup_set.trans (if_neg equal)
      next =>
          change (l.services.constructOrder ++ [key]).count other = _
          rw [List.count_append, List.count_singleton, beq_false_of_ne (Ne.symm equal)]
          rfl

theorem step_eq {a : ServiceAction Inst} (taken : l.step uses a = some l') :
    ∃ services, l.services.step uses a = some services ∧ l' = { l.note a with services } := by
  obtain ⟨services, done, rfl⟩ := Option.map_eq_some_iff.mp taken
  exact ⟨services, done, rfl⟩

theorem find_cases (s : Services Inst) (key : String) :
    (∃ inst, s.instances.lookup key = some inst ∧ s.find key = .ok (some inst)) ∨
      (key ∉ s.instances ∧ key ∉ s.factories ∧
        s.find key = .error (.keyError ("service '" ++ key ++ "' not registered"))) ∨
      (key ∉ s.instances ∧ key ∈ s.factories ∧ key ∈ s.constructing ∧ s.find key =
        .error (.runtimeError ("cyclic service construction for '" ++ key ++ "'"))) ∨
      (key ∉ s.instances ∧ key ∈ s.factories ∧ key ∉ s.constructing ∧ s.find key = .ok none) := by
  unfold Services.find
  cases found : s.instances.lookup key with
  | some inst => exact .inl ⟨inst, rfl, rfl⟩
  | none =>
      have absent := AList.lookup_eq_none.mp found
      by_cases known : key ∈ s.factories
      next =>
          by_cases marked : key ∈ s.constructing
          next => exact .inr (.inr (.inl ⟨absent, known, marked, by simp [known, marked]⟩))
          next => exact .inr (.inr (.inr ⟨absent, known, marked, by simp [known, marked]⟩))
      next => exact .inr (.inl ⟨absent, known, by simp [known]⟩)

theorem Once.used (once : Once uses l) (may : l.services.mayGet uses thread key = true) :
    ∀ outer ∈ l.services.keysOf thread, TransGen (fun a b => uses a b = true) outer key := by
  have nested := once.nested thread
  unfold Services.keysOf at nested ⊢
  unfold Services.mayGet at may
  cases top : l.services.callsOf thread with
  | nil => exact fun outer member => by cases member
  | cons c rest =>
      rw [top] at may nested
      obtain ⟨inner, stage⟩ := c
      cases stage with
      | running =>
          intro outer member
          rcases List.mem_cons.mp member with same | below
          next => exact .single (same ▸ may)
          next => exact ((List.pairwise_cons.mp nested).1 outer below).tail may
      | returned | raised | cleared => cases may

theorem once_get (once : Once uses l) (acyclic : Acyclic uses)
    (alone : l.alone (.get thread key) = true) (taken : l.step uses (.get thread key) = some l') :
    Once uses l' := by
  obtain ⟨services, done, rfl⟩ := step_eq taken
  simp only [Services.step] at done
  split at done
  next may =>
      cases done
      have idle (absent : key ∉ l.services.instances) (t : Nat) : key ∉ l.services.keysOf t := by
        by_cases own : t = thread
        next => exact own ▸ fun member => acyclic key (once.used may key member)
        next =>
            unfold ServiceLog.alone at alone
            rw [Bool.or_eq_true, decide_eq_true_eq] at alone
            exact onlyThread_iff.mp (alone.resolve_left absent) t own
      rcases find_cases l.services key with ⟨inst, found, result⟩ | ⟨_, _, result⟩ |
        ⟨absent, _, marked, _⟩ | ⟨absent, known, _, result⟩
      next =>
          simp only [note, Services.get, result]
          refine ⟨once.nested, once.apart, fun other => ?_, once.noError⟩
          obtain ⟨built, marked, untouched, ready, order, same⟩ := once.keys other
          refine ⟨built, marked, untouched, ready, order, fun inst' handed => ?_⟩
          rcases List.mem_append.mp handed with before | now
          next => exact same inst' before
          next =>
              obtain ⟨equal, equal'⟩ := Prod.mk.inj (List.mem_singleton.mp now)
              rw [equal, equal']
              exact found
      next =>
          simp only [note, Services.get, result]
          exact once
      next =>
          obtain ⟨t, c, member, own, _⟩ := (once.keys key).marked.mp marked
          exact absurd (own ▸ mem_keysOf member) (idle absent t)
      next =>
          simp only [note, Services.get, result]
          exact once.begins absent known (idle absent) (once.used may)
  next => cases done

theorem once_factoryReturns (once : Once uses l) (acyclic : Acyclic uses) {inst : Inst}
    (taken : l.step uses (.factoryReturns thread inst) = some l') : Once uses l' := by
  obtain ⟨services, done, rfl⟩ := step_eq taken
  simp only [Services.step, Services.factoryEnds] at done
  split at done
  next key rest top =>
      cases done
      have unmade : l.completed key = 0 := (once.built_top top).2.2
      simp only [note, top]
      refine once.goesOn acyclic top (.returned inst) (iff_of_true (once.marked_top top rfl) rfl) ?_ ?_
      next => rw [Function.update_self, unmade]; rfl
      next => exact fun other different => ⟨Iff.rfl, Function.update_of_ne different _ _⟩
  next => cases done

theorem once_factoryRaises (once : Once uses l) (acyclic : Acyclic uses)
    (taken : l.step uses (.factoryRaises thread) = some l') : Once uses l' := by
  obtain ⟨services, done, rfl⟩ := step_eq taken
  simp only [Services.step, Services.factoryEnds] at done
  split at done
  next key rest top =>
      cases done
      refine once.goesOn acyclic top .raised (iff_of_true (once.marked_top top rfl) rfl) ?_ ?_
      next => exact (once.built_top top).2.2
      next => exact fun other _ => ⟨Iff.rfl, rfl⟩
  next => cases done

theorem once_clear (once : Once uses l) (acyclic : Acyclic uses)
    (taken : l.step uses (.clear thread) = some l') : Once uses l' := by
  obtain ⟨services, done, rfl⟩ := step_eq taken
  simp only [Services.step, Services.clear] at done
  split at done
  next key inst rest top =>
      cases done
      refine once.goesOn acyclic top (.cleared inst) (iff_of_false ?_ Bool.false_ne_true) ?_ ?_
      next => exact Finset.notMem_erase _ _
      next => exact (once.built_top top).2.2
      next =>
          exact fun other different =>
            ⟨Finset.mem_erase.trans (and_iff_right different), rfl⟩
  next key rest top =>
      cases done
      obtain ⟨_, _, _, _, order, same⟩ := once.keys key
      obtain ⟨absent, _, unmade⟩ := once.built_top top
      refine once.ended acyclic top (Finset.notMem_erase _ _) (fun _ => unmade)
        (fun has => absurd has absent) order same fun other different => ?_
      exact ⟨rfl, Finset.mem_erase.trans (and_iff_right different), rfl, fun _ => id⟩
  next => cases done

theorem once_publish (once : Once uses l) (acyclic : Acyclic uses)
    (taken : l.step uses (.publish thread) = some l') : Once uses l' := by
  obtain ⟨services, done, rfl⟩ := step_eq taken
  simp only [Services.step, Services.publish] at done
  split at done
  next key inst rest top =>
      cases done
      obtain ⟨_, marked, _, _, order, same⟩ := once.keys key
      obtain ⟨absent, _, made⟩ := once.built_top top
      have has : key ∈ l.services.instances.set key inst := Dict.mem_set.mpr (.inl rfl)
      simp only [note, top]
      refine once.ended acyclic top ?_ (fun gone => absurd has gone) (fun _ => made.le) ?_ ?_ ?_
      next =>
          intro isMarked
          obtain ⟨t, d, member, own, still⟩ := marked.mp isMarked
          obtain ⟨_, rfl⟩ := once.unique acyclic top member own
          cases still
      next =>
          rw [if_neg absent] at order
          rw [if_pos has, List.count_append, order, List.count_singleton_self]
      next =>
          intro inst' handed
          rcases List.mem_append.mp handed with before | now
          next =>
              refine absurd (AList.lookup_isSome.mp ?_) absent
              exact Option.isSome_of_eq_some (same inst' before)
          next =>
              rw [(Prod.mk.inj (List.mem_singleton.mp now)).2]
              exact Dict.lookup_set.trans (if_pos rfl)
      next =>
          intro other different
          refine ⟨Dict.lookup_set.trans (if_neg different), Iff.rfl, ?_, fun inst' handed => ?_⟩
          next =>
              rw [List.count_append, List.count_singleton, beq_false_of_ne (Ne.symm different)]
              rfl
          next =>
              refine (List.mem_append.mp handed).resolve_right fun now => different ?_
              exact (Prod.mk.inj (List.mem_singleton.mp now)).1
  next => cases done

theorem once_register (once : Once uses l) {inst : Option Inst}
    (alone : l.alone (.register key inst) = true)
    (taken : l.step uses (.register key inst) = some l') : Once uses l' := by
  obtain ⟨services, done, rfl⟩ := step_eq taken
  cases done
  cases inst with
  | none =>
      refine ⟨once.nested, once.apart, fun other => ?_, once.noError⟩
      exact (once.keys other).of_agrees ⟨fun _ _ _ => Iff.rfl, Finset.mem_insert_of_mem, rfl, Iff.rfl,
        rfl, rfl, fun _ => id⟩
  | some inst =>
      unfold ServiceLog.alone at alone
      rw [Bool.and_eq_true, decide_eq_true_eq] at alone
      exact once.registers alone.1 (unconstructed_spec alone.2) inst

theorem step_once {a : ServiceAction Inst} (once : Once uses l) (acyclic : Acyclic uses)
    (alone : l.alone a = true) (taken : l.step uses a = some l') : Once uses l' := by
  cases a with
  | register key inst => exact once_register once alone taken
  | get thread key => exact once_get once acyclic alone taken
  | factoryReturns thread inst => exact once_factoryReturns once acyclic taken
  | factoryRaises thread => exact once_factoryRaises once acyclic taken
  | clear thread => exact once_clear once acyclic taken
  | publish thread => exact once_publish once acyclic taken

theorem once_of_reaches (acyclic : Acyclic uses)
    (reached : Reaches (step uses) (fun l a => alone l a = true) ({} : ServiceLog Inst) l) :
    Once uses l := by
  refine reached.invariant (Once uses) ?_ fun _ _ _ once alone taken =>
    step_once once acyclic alone taken
  refine ⟨fun _ => List.Pairwise.nil, fun _ _ _ member => (nomatch member), fun key => ?_, rfl⟩
  refine ⟨fun _ _ member => (nomatch member), iff_of_false (Finset.notMem_empty key) ?_,
    fun _ _ => rfl, fun _ => Nat.zero_le 1, rfl, fun _ handed => (nomatch handed)⟩
  rintro ⟨t, c, member, _⟩
  cases member

end Steps

section Overlap

theorem raises_of_marked (absent : key ∉ l.services.instances) (known : key ∈ l.services.factories)
    (isMarked : key ∈ l.services.constructing) (may : l.services.mayGet uses thread key = true) :
    ∃ l', l.step uses (.get thread key) = some l' ∧ ¬l'.Singletons := by
  rcases find_cases l.services key with ⟨inst, found, _⟩ | ⟨_, unknown, _⟩ | ⟨_, _, _, result⟩ |
    ⟨_, _, unmarked, _⟩
  next => exact absurd (AList.lookup_isSome.mp (Option.isSome_of_eq_some found)) absent
  next => exact absurd known unknown
  next =>
      refine ⟨_, congrArg (Option.map _) (if_pos may), fun kept => ?_⟩
      have none := kept.noError
      simp only [note, result] at none
      exact List.append_ne_nil_of_right_ne_nil _ (List.cons_ne_nil _ _) none
  next => exact absurd isMarked unmarked

theorem returns_twice (absent : key ∉ l.services.instances) (known : key ∈ l.services.factories)
    (unmarked : key ∉ l.services.constructing) (made : l.completed key = 1)
    (may : l.services.mayGet uses thread key = true) (inst : Inst) :
    ∃ l', run (step uses) l [.get thread key, .factoryReturns thread inst] = some l' ∧
      ¬l'.Singletons := by
  rcases find_cases l.services key with ⟨inst, found, _⟩ | ⟨_, unknown, _⟩ | ⟨_, _, marked, _⟩ |
    ⟨_, _, _, result⟩
  next => exact absurd (AList.lookup_isSome.mp (Option.isSome_of_eq_some found)) absent
  next => exact absurd known unknown
  next => exact absurd marked unmarked
  next =>
      let begun : Services Inst :=
        { l.services.setCalls thread (⟨key, .running⟩ :: l.services.callsOf thread) with
          constructing := insert key l.services.constructing }
      have first : l.step uses (.get thread key) = some { l with services := begun } := by
        simp only [step, Services.step, if_pos may, Option.map_some, note, result, Services.get]
        rfl
      have top : begun.callsOf thread = ⟨key, .running⟩ :: l.services.callsOf thread :=
        Services.callsOf_setCalls_self _
      have second : step uses { l with services := begun } (.factoryReturns thread inst) =
          some { l with
            services := begun.setCalls thread (⟨key, .returned inst⟩ :: l.services.callsOf thread)
            completed := Function.update l.completed key (l.completed key + 1) } := by
        simp only [step, Services.step, Services.factoryEnds, top, note, Option.map_some]
      refine ⟨_, by rw [run, first, Option.bind_some, run, second]; rfl, fun kept => ?_⟩
      have twice := kept.once key
      simp only [Function.update_self, made] at twice
      omega

/-- Two threads that construct one key at a time: an error is raised, or a factory returns twice. -/
theorem overlaps (once : Once uses l)
    (may : l.services.mayGet uses thread key = true)
    (overlap : l.alone (.get thread key) = false) :
    ∃ actions l', run (step uses) l (.get thread key :: actions) = some l' ∧ ¬l'.Singletons := by
  unfold ServiceLog.alone at overlap
  rw [Bool.or_eq_false_iff, decide_eq_false_iff_not] at overlap
  obtain ⟨absent, shared⟩ := overlap
  obtain ⟨t, other, member⟩ : ∃ t, t ≠ thread ∧ key ∈ l.services.keysOf t := by
    by_contra none
    rw [onlyThread_iff.mpr fun t other member => none ⟨t, other, member⟩] at shared
    cases shared
  obtain ⟨c, inside, own⟩ := List.mem_map.mp member
  obtain ⟨built, marked, _⟩ := once.keys key
  obtain ⟨_, known, made⟩ := built t c inside own
  by_cases isMarked : key ∈ l.services.constructing
  next =>
      obtain ⟨l', taken, broken⟩ := raises_of_marked absent known isMarked may
      exact ⟨[], l', by rw [run, taken]; rfl, broken⟩
  next =>
      cases stage : c.stage with
      | cleared inst =>
          rw [stage] at made
          obtain ⟨l', result, broken⟩ := returns_twice absent known isMarked made may inst
          exact ⟨[.factoryReturns thread inst], l', result, broken⟩
      | running | returned | raised =>
          exact absurd (marked.mpr ⟨t, c, inside, own, by rw [stage]; rfl⟩) isMarked

end Overlap

/-- As long as no key is asked for while another thread constructs it, calls of `get` keep their
promise; from any state that is reached so, a call that does otherwise leads to one that breaks it. -/
theorem singletons_of_alone (acyclic : Acyclic uses)
    (reached : Reaches (step uses) (fun l a => alone l a = true) ({} : ServiceLog Inst) l) :
    l.Singletons ∧ ∀ thread key, l.services.mayGet uses thread key = true →
      l.alone (.get thread key) = false →
        ∃ actions l', run (step uses) l (.get thread key :: actions) = some l' ∧ ¬l'.Singletons := by
  have once := once_of_reaches acyclic reached
  exact ⟨once.singletons, fun _ _ => overlaps once⟩

theorem acyclic_of_rank {rank : String → Nat} (lower : ∀ a b, uses a b = true → rank b < rank a) :
    Acyclic uses := by
  intro key cycle
  have below {a b : String} (path : TransGen (fun a b => uses a b = true) a b) :
      rank b < rank a := by
    induction path with
    | single used => exact lower _ _ used
    | tail _ used ih => exact (lower _ _ used).trans ih
  exact lt_irrefl _ (below cycle)

def busUses (a b : String) : Bool := a = "event_bus" && b = "event_store"

theorem busUses_acyclic : Acyclic busUses := by
  refine @acyclic_of_rank _ (fun key => if key = "event_bus" then 1 else 0) fun a b used => ?_
  rw [busUses, Bool.and_eq_true, decide_eq_true_eq, decide_eq_true_eq] at used
  rw [used.1, used.2]
  decide

def registered : List (ServiceAction Nat) :=
  [.register "event_store" none, .register "event_bus" none, .get 0 "event_bus"]

-- One thread makes the bus, and the store for it, before another asks for the store.
theorem singletons_of_alone_nested :
    ∃ l : ServiceLog Nat, Reaches (step busUses) (fun l a => alone l a = true) {} l ∧
      l.handedOut = [("event_store", 1), ("event_bus", 2), ("event_store", 1)] ∧
      l.Singletons := by
  obtain ⟨l, reached, checked⟩ := reaches_allowed_of_check (step busUses)
    (fun l a => alone l a = true) ({} : ServiceLog Nat)
    (registered ++ [.get 0 "event_store", .factoryReturns 0 1, .clear 0, .publish 0,
      .factoryReturns 0 2, .clear 0, .publish 0, .get 1 "event_store"])
    (fun l => decide (l.handedOut = [("event_store", 1), ("event_bus", 2), ("event_store", 1)]))
    (by decide +kernel) (by decide +kernel)
  exact ⟨l, reached, of_decide_eq_true checked, (singletons_of_alone busUses_acyclic reached).1⟩

-- A second thread asks for the bus while the first one makes it, or has made it and not published it.
theorem taken_for_cycle :
    Acyclic busUses ∧
      (∃ l : ServiceLog Nat, Reaches (step busUses) anyStep {} l ∧ l.cyclic = ["event_bus"]) ∧
      ∃ l : ServiceLog Nat, Reaches (step busUses) anyStep {} l ∧
        l.completed "event_bus" = 2 ∧ l.handedOut = [("event_bus", 1), ("event_bus", 2)] ∧
        l.services.constructOrder = ["event_bus", "event_bus"] := by
  refine ⟨busUses_acyclic, ?_, ?_⟩
  next =>
      obtain ⟨l, reached, checked⟩ := reaches_of_check (step busUses) ({} : ServiceLog Nat)
        (registered ++ [.get 1 "event_bus"]) (fun l => decide (l.cyclic = ["event_bus"]))
        (by decide +kernel)
      exact ⟨l, reached, of_decide_eq_true checked⟩
  next =>
      obtain ⟨l, reached, checked⟩ := reaches_of_check (step busUses) ({} : ServiceLog Nat)
        (registered ++ [.factoryReturns 0 1, .clear 0, .get 1 "event_bus", .publish 0,
          .factoryReturns 1 2, .clear 1, .publish 1])
        (fun l => decide (l.completed "event_bus" = 2 ∧
          l.handedOut = [("event_bus", 1), ("event_bus", 2)] ∧
          l.services.constructOrder = ["event_bus", "event_bus"])) (by decide +kernel)
      obtain ⟨twice, handedOut, order⟩ := of_decide_eq_true checked
      exact ⟨l, reached, twice, handedOut, order⟩

end ServiceLog

end DeepFeeder
