import Mathlib.Data.Finset.Basic
import Mathlib.Logic.Relation
import DeepFeeder.Shared.Dict

set_option autoImplicit false

namespace DeepFeeder

universe u

inductive Stage (Inst : Type u) where
  | running
  | returned (inst : Inst)
  | raised
  | cleared (inst : Inst)

structure GetCall (Inst : Type u) where
  key : String
  stage : Stage Inst

inductive GetError where
  | keyError (text : String)
  | runtimeError (text : String)

/-- The `Services` container, and for each thread the calls of `get` that construct, the innermost
first. -/
structure Services (Inst : Type u) where
  factories : Finset String := ∅
  instances : Dict String Inst := ∅
  constructOrder : List String := []
  constructing : Finset String := ∅
  calls : Dict Nat (List (GetCall Inst)) := ∅

inductive ServiceAction (Inst : Type u) where
  -- A factory, or an instance.
  | register (key : String) (inst : Option Inst)
  | get (thread : Nat) (key : String)
  | factoryReturns (thread : Nat) (inst : Inst)
  | factoryRaises (thread : Nat)
  -- The section of the `finally`.
  | clear (thread : Nat)
  | publish (thread : Nat)

namespace Services

variable {Inst : Type u}

def callsOf (s : Services Inst) (thread : Nat) : List (GetCall Inst) :=
  (s.calls.lookup thread).getD []

def keysOf (s : Services Inst) (thread : Nat) : List String := (s.callsOf thread).map GetCall.key

def setCalls (s : Services Inst) (thread : Nat) (calls : List (GetCall Inst)) : Services Inst :=
  { s with calls := s.calls.set thread calls }

def register (s : Services Inst) (key : String) : Option Inst → Services Inst
  | none => { s with factories := insert key s.factories }
  | some inst =>
      { s with
        instances := s.instances.set key inst, constructOrder := s.constructOrder ++ [key] }

def find (s : Services Inst) (key : String) : Except GetError (Option Inst) :=
  match s.instances.lookup key with
  | some inst => .ok (some inst)
  | none =>
      if key ∉ s.factories then .error (.keyError ("service '" ++ key ++ "' not registered"))
      else if key ∈ s.constructing then
        .error (.runtimeError ("cyclic service construction for '" ++ key ++ "'"))
      else .ok none

-- A thread that is in a factory calls `get` with what the factory uses only.
def mayGet (uses : String → String → Bool) (s : Services Inst) (thread : Nat) (key : String) : Bool :=
  match s.callsOf thread with
  | [] => true
  | ⟨inner, .running⟩ :: _ => uses inner key
  | _ => false

def get (s : Services Inst) (thread : Nat) (key : String) : Services Inst :=
  match s.find key with
  | .ok none =>
      { s.setCalls thread (⟨key, .running⟩ :: s.callsOf thread) with
        constructing := insert key s.constructing }
  | _ => s

def factoryEnds (s : Services Inst) (thread : Nat) (stage : Stage Inst) : Option (Services Inst) :=
  match s.callsOf thread with
  | ⟨key, .running⟩ :: rest => some (s.setCalls thread (⟨key, stage⟩ :: rest))
  | _ => none

def clear (s : Services Inst) (thread : Nat) : Option (Services Inst) :=
  match s.callsOf thread with
  | ⟨key, .returned inst⟩ :: rest =>
      some { s.setCalls thread (⟨key, .cleared inst⟩ :: rest) with
        constructing := s.constructing.erase key }
  | ⟨key, .raised⟩ :: rest =>
      some { s.setCalls thread rest with constructing := s.constructing.erase key }
  | _ => none

def publish (s : Services Inst) (thread : Nat) : Option (Services Inst) :=
  match s.callsOf thread with
  | ⟨key, .cleared inst⟩ :: rest =>
      some { s.setCalls thread rest with
        instances := s.instances.set key inst, constructOrder := s.constructOrder ++ [key] }
  | _ => none

def step (uses : String → String → Bool) (s : Services Inst) :
    ServiceAction Inst → Option (Services Inst)
  | .register key inst => some (s.register key inst)
  | .get thread key => if s.mayGet uses thread key then some (s.get thread key) else none
  | .factoryReturns thread inst => s.factoryEnds thread (.returned inst)
  | .factoryRaises thread => s.factoryEnds thread .raised
  | .clear thread => s.clear thread
  | .publish thread => s.publish thread

variable {s : Services Inst} {thread : Nat}

theorem callsOf_setCalls (calls : List (GetCall Inst)) (other : Nat) :
    (s.setCalls thread calls).callsOf other = if other = thread then calls else s.callsOf other := by
  unfold callsOf setCalls
  simp only [Dict.lookup_set]
  split
  next => rfl
  next => rfl

@[simp] theorem callsOf_setCalls_self (calls : List (GetCall Inst)) :
    (s.setCalls thread calls).callsOf thread = calls :=
  (callsOf_setCalls calls thread).trans (if_pos rfl)

theorem keysOf_setCalls (calls : List (GetCall Inst)) (other : Nat) :
    (s.setCalls thread calls).keysOf other =
      if other = thread then calls.map GetCall.key else s.keysOf other := by
  unfold keysOf
  rw [callsOf_setCalls]
  split
  next => rfl
  next => rfl

theorem mem_setCalls_other {calls before : List (GetCall Inst)} (own : s.callsOf thread = before)
    {key : String} (kept : ∀ c : GetCall Inst, c.key ≠ key → (c ∈ calls ↔ c ∈ before))
    (t : Nat) (c : GetCall Inst) (other : c.key ≠ key) :
    c ∈ (s.setCalls thread calls).callsOf t ↔ c ∈ s.callsOf t := by
  rw [callsOf_setCalls]
  split
  next same => rw [same, own, kept c other]
  next => exact Iff.rfl

end Services

end DeepFeeder
