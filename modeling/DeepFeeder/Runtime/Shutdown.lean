import DeepFeeder.Runtime.ConstructedOnce

set_option autoImplicit false

namespace DeepFeeder

universe u

inductive Attr where
  | absent
  | value
  | method
  deriving DecidableEq

/-- What `shutdown` sees of the services: the attributes of an instance, which instances are None, and
which calls of which key's instance raise. -/
structure ClosingView (Inst : Type u) where
  attr : Inst → String → Attr
  isNone : Inst → Bool
  raises : String → String → Bool

inductive Closing where
  | hook (number : Nat)
  | call (key name : String)
  deriving DecidableEq

def closerNameOrder : List String := ["shutdown", "close", "stop", "flush"]

namespace Services

variable {Inst : Type u} (view : ClosingView Inst)

def tryGet (s : Services Inst) (key : String) : Option Inst := s.instances.lookup key

-- The calls made by `obj.stop()` and `obj.join(timeout=timeout)`, and whether neither raised.
def stopAndJoin (key : String) (inst : Inst) : List (String × String) × Bool :=
  if view.attr inst "stop" = .method then
    if view.raises key "stop" then ([(key, "stop")], false)
    else if view.attr inst "join" = .method then
      ([(key, "stop"), (key, "join")], !view.raises key "join")
    else ([(key, "stop")], false)
  else ([], false)

def joinCalls (join : Bool) (key : String) (inst : Inst) : List (String × String) × Bool :=
  if join && view.attr inst "stop" != .absent && view.attr inst "join" != .absent then
    stopAndJoin view key inst
  else ([], false)

def closeService (join : Bool) (key : String) (inst : Inst) : List (String × String) :=
  if view.isNone inst then []
  else if (joinCalls view join key inst).2 then (joinCalls view join key inst).1
  else
    match closerNameOrder.find? fun name => view.attr inst name = .method with
    | some name => (joinCalls view join key inst).1 ++ [(key, name)]
    | none => (joinCalls view join key inst).1

-- What the second loop of `shutdown` does for one key. Whatever a call raises, the next is made.
def closeKey (join : Bool) (s : Services Inst) (key : String) : List (String × String) :=
  match s.tryGet key with
  | none => []
  | some inst => closeService view join key inst

def closeInstances (join : Bool) (s : Services Inst) : List (String × String) :=
  s.constructOrder.reverse.flatMap (closeKey view join s)

def shutdown (join : Bool) (shutdownHooks : List Nat) (s : Services Inst) : List Closing :=
  shutdownHooks.reverse.map .hook ++
    (closeInstances view join s).map fun call => .call call.1 call.2

theorem joinCalls_key {join : Bool} {key : String} {inst : Inst} :
    ∀ call ∈ (joinCalls view join key inst).1, call.1 = key := by
  unfold joinCalls stopAndJoin
  split_ifs <;> simp

theorem closeService_key {join : Bool} {key : String} {inst : Inst} :
    ∀ call ∈ closeService view join key inst, call.1 = key := by
  intro call member
  unfold closeService at member
  split at member
  next => cases member
  next =>
    split at member
    next => exact joinCalls_key view call member
    next =>
      split at member
      next name _ =>
        rcases List.mem_append.mp member with before | last
        next => exact joinCalls_key view call before
        next => rw [List.mem_singleton.mp last]
      next => exact joinCalls_key view call member

theorem closeKey_key {join : Bool} {s : Services Inst} {key : String} :
    ∀ call ∈ closeKey view join s key, call.1 = key := by
  unfold closeKey
  split
  next => simp
  next => exact closeService_key view

theorem filter_closeKey (join : Bool) (s : Services Inst) {keys : List String}
    (distinct : keys.Nodup) (key : String) :
    (keys.flatMap (closeKey view join s)).filter (fun call => call.1 = key) =
      if key ∈ keys then closeKey view join s key else [] := by
  induction keys with
  | nil => rfl
  | cons first rest ih =>
      obtain ⟨absent, later⟩ := List.nodup_cons.mp distinct
      rw [List.flatMap_cons, List.filter_append, ih later]
      by_cases same : key = first
      · subst same
        rw [if_neg absent, List.append_nil, if_pos List.mem_cons_self, List.filter_eq_self]
        exact fun call member => decide_eq_true (closeKey_key view call member)
      · have none : (closeKey view join s first).filter (fun call => call.1 = key) = [] := by
          rw [List.filter_eq_nil_iff]
          intro call member
          rw [closeKey_key view call member]
          simpa using fun equal => same equal.symm
        rw [none, List.nil_append]
        simp only [List.mem_cons, same, false_or]

end Services

/-- The container with its log, and as history which key's factory has got which key. -/
structure UseLog (Inst : Type u) where
  log : ServiceLog Inst := {}
  obtained : List (String × String) := []

namespace UseLog

open Transition Relation

variable {Inst : Type u}

def outer : List (GetCall Inst) → List String
  | ⟨key, .running⟩ :: _ => [key]
  | _ => []

def note (u : UseLog Inst) : ServiceAction Inst → List (String × String)
  | .get thread key =>
      match u.log.services.find key with
      | .ok (some _) => (outer (u.log.services.callsOf thread)).map fun user => (user, key)
      | _ => []
  | .publish thread =>
      match u.log.services.callsOf thread with
      | ⟨key, .cleared _⟩ :: rest => (outer rest).map fun user => (user, key)
      | _ => []
  | _ => []

def step (uses : String → String → Bool) (u : UseLog Inst) (a : ServiceAction Inst) :
    Option (UseLog Inst) :=
  (u.log.step uses a).map fun log => { log, obtained := u.obtained ++ u.note a }

def alone (u : UseLog Inst) (a : ServiceAction Inst) : Bool := u.log.alone a

def Before (order : List String) (first second : String) : Prop :=
  ∃ front back, order = front ++ back ∧ first ∈ front ∧ second ∉ front

variable {uses : String → String → Bool} {u u' : UseLog Inst} {l : ServiceLog Inst}
  {order : List String} {thread : Nat} {key user : String} {inst : Inst}
  {rest : List (GetCall Inst)}

theorem Before.append {first second : String} (before : Before order first second)
    (more : List String) : Before (order ++ more) first second := by
  obtain ⟨front, back, rfl, inside, outside⟩ := before
  exact ⟨front, back ++ more, List.append_assoc _ _ _, inside, outside⟩

theorem mem_order_iff (once : ServiceLog.Once uses l) (key : String) :
    key ∈ l.services.constructOrder ↔ key ∈ l.services.instances := by
  have count := (once.keys key).order
  rw [← List.count_pos_iff, count]
  split
  next has => simp [has]
  next absent => simp [absent]

theorem order_nodup (once : ServiceLog.Once uses l) : l.services.constructOrder.Nodup := by
  rw [List.nodup_iff_count_le_one]
  intro key
  rw [(once.keys key).order]
  split <;> omega

theorem outer_unbuilt (once : ServiceLog.Once uses l)
    (running : user ∈ outer (l.services.callsOf thread)) :
    user ∉ l.services.constructOrder := by
  rw [mem_order_iff once]
  unfold outer at running
  split at running
  next key rest top =>
    rw [List.mem_singleton.mp running]
    exact ((once.keys key).built thread ⟨key, .running⟩ (by rw [top]; simp) rfl).1
  next => cases running

theorem order_grows {a : ServiceAction Inst} {l' : ServiceLog Inst}
    (taken : l.step uses a = some l') :
    ∃ more, l'.services.constructOrder = l.services.constructOrder ++ more := by
  obtain ⟨services, done, rfl⟩ := Option.map_eq_some_iff.mp taken
  change ∃ more, services.constructOrder = _
  cases a with
  | register key inst =>
      cases done
      cases inst with
      | none => exact ⟨[], (List.append_nil _).symm⟩
      | some inst => exact ⟨[key], rfl⟩
  | get thread key =>
      simp only [Services.step] at done
      split at done
      next =>
        cases done
        refine ⟨[], ?_⟩
        rw [List.append_nil]
        unfold Services.get
        split <;> rfl
      next => cases done
  | factoryReturns thread inst | factoryRaises thread =>
      simp only [Services.step, Services.factoryEnds] at done
      split at done
      next =>
        cases done
        exact ⟨[], (List.append_nil _).symm⟩
      next => cases done
  | clear thread =>
      simp only [Services.step, Services.clear] at done
      split at done
      next =>
        cases done
        exact ⟨[], (List.append_nil _).symm⟩
      next =>
        cases done
        exact ⟨[], (List.append_nil _).symm⟩
      next => cases done
  | publish thread =>
      simp only [Services.step, Services.publish] at done
      split at done
      next key inst rest top =>
        cases done
        exact ⟨[key], rfl⟩
      next => cases done

structure Ordered (uses : String → String → Bool) (u : UseLog Inst) : Prop where
  once : ServiceLog.Once uses u.log
  before : ∀ pair ∈ u.obtained, Before u.log.services.constructOrder pair.2 pair.1

theorem note_before {a : ServiceAction Inst} {log : ServiceLog Inst}
    (once : ServiceLog.Once uses u.log) (later : ServiceLog.Once uses log)
    (taken : u.log.step uses a = some log) :
    ∀ pair ∈ u.note a, Before log.services.constructOrder pair.2 pair.1 := by
  intro pair member
  obtain ⟨more, grown⟩ := order_grows taken
  cases a with
  | register key inst | factoryReturns thread inst | factoryRaises thread | clear thread =>
      cases member
  | get thread key =>
      simp only [note] at member
      split at member
      next inst found =>
        obtain ⟨user, running, rfl⟩ := List.mem_map.mp member
        have unbuilt := outer_unbuilt once running
        have has : key ∈ u.log.services.constructOrder := by
          rw [mem_order_iff once, ← AList.lookup_isSome]
          unfold Services.find at found
          split at found
          next other isInst => exact Option.isSome_of_eq_some isInst
          next =>
            split_ifs at found
            cases found
        rw [grown]
        exact ⟨_, more, rfl, has, unbuilt⟩
      next => cases member
  | publish thread =>
      obtain ⟨services, done, rfl⟩ := Option.map_eq_some_iff.mp taken
      simp only [Services.step, Services.publish] at done
      simp only [note] at member
      split at member
      next key inst rest top =>
        obtain ⟨user, running, rfl⟩ := List.mem_map.mp member
        rw [top] at done
        cases done
        have here : (u.log.services.setCalls thread rest).callsOf thread = rest :=
          Services.callsOf_setCalls_self rest
        refine ⟨u.log.services.constructOrder ++ [key], [], (List.append_nil _).symm, by simp, ?_⟩
        apply outer_unbuilt later
        change user ∈ outer ((u.log.services.setCalls thread rest).callsOf thread)
        rw [here]
        exact running
      next => cases member

theorem step_ordered (ordered : Ordered uses u) (acyclic : ServiceLog.Acyclic uses)
    {a : ServiceAction Inst} (permitted : u.alone a = true) (taken : u.step uses a = some u') :
    Ordered uses u' := by
  obtain ⟨log, done, rfl⟩ := Option.map_eq_some_iff.mp taken
  have later := ServiceLog.step_once ordered.once acyclic permitted done
  refine ⟨later, fun pair member => ?_⟩
  rcases List.mem_append.mp member with old | new
  next =>
    obtain ⟨more, grown⟩ := order_grows done
    change Before log.services.constructOrder pair.2 pair.1
    rw [grown]
    exact (ordered.before pair old).append more
  next => exact note_before ordered.once later done pair new

theorem ordered_of_reaches (acyclic : ServiceLog.Acyclic uses)
    (reached : Reaches (step uses) (fun u a => alone u a = true) ({} : UseLog Inst) u) :
    Ordered uses u := by
  refine reached.invariant (Ordered uses) ⟨ServiceLog.once_of_reaches acyclic .refl, ?_⟩
    fun _ _ _ ordered permitted taken => step_ordered ordered acyclic permitted taken
  intro pair member
  cases member

/-- Behind the hooks `shutdown` closes every instance once, and what a factory got it closes after the
service that the factory made. -/
theorem shutdown_order (acyclic : ServiceLog.Acyclic uses)
    (reached : Reaches (step uses) (fun u a => alone u a = true) ({} : UseLog Inst) u)
    (view : ClosingView Inst) (join : Bool) (hooks : List Nat) :
    ∃ calls : List (String × String), u.log.services.shutdown view join hooks =
        hooks.reverse.map .hook ++ calls.map (fun call => .call call.1 call.2) ∧
      (∀ key inst, u.log.services.tryGet key = some inst →
        calls.filter (fun call => call.1 = key) = Services.closeService view join key inst) ∧
      ∀ user used, (user, used) ∈ u.obtained →
        ∃ first second, calls = first ++ second ∧
          (∀ call ∈ first, call.1 ≠ used) ∧ ∀ call ∈ second, call.1 ≠ user := by
  have ordered := ordered_of_reaches acyclic reached
  have distinct := order_nodup ordered.once
  have notIn {keys : List String} {key : String} (absent : key ∉ keys) :
      ∀ call ∈ keys.reverse.flatMap (Services.closeKey view join u.log.services), call.1 ≠ key := by
    intro call member same
    obtain ⟨other, inside, own⟩ := List.mem_flatMap.mp member
    rw [← same, Services.closeKey_key view call own] at absent
    exact absent (List.mem_reverse.mp inside)
  refine ⟨_, rfl, ?_, ?_⟩
  next =>
    intro key inst found
    have has : key ∈ u.log.services.constructOrder.reverse := by
      rw [List.mem_reverse, mem_order_iff ordered.once, ← AList.lookup_isSome]
      exact Option.isSome_of_eq_some found
    have own := Services.filter_closeKey view join u.log.services
      (List.nodup_reverse.mpr distinct) key
    rw [if_pos has] at own
    refine own.trans ?_
    unfold Services.closeKey
    rw [found]
  next =>
    intro user used got
    obtain ⟨front, back, split, inside, outside⟩ := ordered.before _ got
    have absent : used ∉ back := by
      rw [split, List.nodup_append] at distinct
      exact fun later => distinct.2.2 used inside used later rfl
    refine ⟨_, _, ?_, notIn absent, notIn outside⟩
    unfold Services.closeInstances
    rw [split, List.reverse_append, List.flatMap_append]

def stoppable : ClosingView Nat where
  attr _ name := if name = "stop" ∨ name = "join" then .method else .absent
  isNone _ := false
  raises key _ := decide (key = "event_bus")

-- The bus is made of the store, so it is closed first.
theorem shutdown_order_bus :
    ∃ u : UseLog Nat, Reaches (step ServiceLog.busUses) (fun u a => alone u a = true) {} u ∧
      ("event_bus", "event_store") ∈ u.obtained ∧
      u.log.services.shutdown stoppable true [0, 1] =
        [.hook 1, .hook 0, .call "event_bus" "stop", .call "event_bus" "stop",
          .call "event_store" "stop", .call "event_store" "join"] ∧
      ∃ first second : List (String × String), u.log.services.shutdown stoppable true [0, 1] =
          [.hook 1, .hook 0] ++ (first ++ second).map (fun call => .call call.1 call.2) ∧
        (∀ call ∈ first, call.1 ≠ "event_store") ∧ ∀ call ∈ second, call.1 ≠ "event_bus" := by
  obtain ⟨u, reached, checked⟩ := reaches_allowed_of_check (step ServiceLog.busUses)
    (fun u a => alone u a = true) ({} : UseLog Nat)
    (ServiceLog.registered ++ [.get 0 "event_store", .factoryReturns 0 1, .clear 0, .publish 0,
      .factoryReturns 0 2, .clear 0, .publish 0])
    (fun u => decide (("event_bus", "event_store") ∈ u.obtained ∧
      u.log.services.shutdown stoppable true [0, 1] =
        [.hook 1, .hook 0, .call "event_bus" "stop", .call "event_bus" "stop",
          .call "event_store" "stop", .call "event_store" "join"])) (by decide +kernel)
    (by decide +kernel)
  obtain ⟨got, closed⟩ := of_decide_eq_true checked
  obtain ⟨calls, closing, _, later⟩ :=
    shutdown_order ServiceLog.busUses_acyclic reached stoppable true [0, 1]
  obtain ⟨first, second, rfl, notUsed, notUser⟩ := later _ _ got
  exact ⟨u, reached, got, closed, first, second, closing, notUsed, notUser⟩

end UseLog

end DeepFeeder
