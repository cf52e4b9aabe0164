import Mathlib.Logic.Basic

set_option autoImplicit false

namespace Transition

universe u v

variable {State : Type u} {Action : Type v}

/-- States reached from `start` by steps that each met `allowed` in the state they were taken in. -/
inductive Reaches (step : State → Action → Option State) (allowed : State → Action → Prop)
    (start : State) : State → Prop where
  | refl : Reaches step allowed start start
  | tail {s s' : State} {a : Action} (before : Reaches step allowed start s)
      (permitted : allowed s a) (taken : step s a = some s') : Reaches step allowed start s'

def anyStep (_ : State) (_ : Action) : Prop := True

instance (s : State) (a : Action) : Decidable (anyStep s a) := isTrue trivial

variable {step : State → Action → Option State} {allowed : State → Action → Prop}

theorem Reaches.invariant {start : State} (inv : State → Prop) (initial : inv start)
    (preserved : ∀ s a s', inv s → allowed s a → step s a = some s' → inv s')
    {s : State} (reached : Reaches step allowed start s) : inv s := by
  induction reached with
  | refl => exact initial
  | tail _ permitted taken ih => exact preserved _ _ _ ih permitted taken

theorem Reaches.mono {weaker : State → Action → Prop}
    (weaken : ∀ s a, allowed s a → weaker s a) {start s : State}
    (reached : Reaches step allowed start s) : Reaches step weaker start s := by
  induction reached with
  | refl => exact .refl
  | tail _ permitted taken ih => exact .tail ih (weaken _ _ permitted) taken

def run (step : State → Action → Option State) : State → List Action → Option State
  | s, [] => some s
  | s, a :: rest => (step s a).bind fun s' => run step s' rest

theorem run_append {s middle : State} {first second : List Action}
    (before : run step s first = some middle) :
    run step s (first ++ second) = run step middle second := by
  induction first generalizing s with
  | nil =>
      cases before
      rfl
  | cons a rest ih =>
      cases taken : step s a with
      | none => simp [run, taken] at before
      | some next =>
          simp only [run, taken, Option.bind_some] at before
          rw [List.cons_append, run, taken, Option.bind_some, ih before]

def runMeets (step : State → Action → Option State) (allowed : State → Action → Prop)
    [∀ s a, Decidable (allowed s a)] : State → List Action → Bool
  | _, [] => true
  | s, a :: rest =>
      decide (allowed s a) && match step s a with
        | some s' => runMeets step allowed s' rest
        | none => true

theorem Reaches.run [∀ s a, Decidable (allowed s a)] {start s s' : State} {actions : List Action}
    (reached : Reaches step allowed start s) (met : runMeets step allowed s actions = true)
    (result : run step s actions = some s') : Reaches step allowed start s' := by
  induction actions generalizing s with
  | nil =>
      cases result
      exact reached
  | cons a rest ih =>
      simp only [runMeets, Bool.and_eq_true, decide_eq_true_eq] at met
      obtain ⟨here, later⟩ := met
      cases taken : step s a with
      | none => simp [Transition.run, taken] at result
      | some next =>
          simp only [taken] at later
          exact ih (.tail reached here taken) later (by simpa [Transition.run, taken] using result)

theorem runMeets_of_mem [∀ s a, Decidable (allowed s a)] {actions : List Action}
    (met : ∀ a ∈ actions, ∀ s, allowed s a) (s : State) :
    runMeets step allowed s actions = true := by
  induction actions generalizing s with
  | nil => rfl
  | cons a rest ih =>
      simp only [runMeets, Bool.and_eq_true, decide_eq_true_eq]
      refine ⟨met a List.mem_cons_self s, ?_⟩
      split
      · exact ih (fun b member => met b (List.mem_cons_of_mem a member)) _
      · rfl

theorem runMeets_anyStep (s : State) (actions : List Action) :
    runMeets step anyStep s actions = true :=
  runMeets_of_mem (fun _ _ _ => trivial) s

theorem run_reaches {start s : State} {actions : List Action}
    (result : run step start actions = some s) : Reaches step anyStep start s :=
  .run .refl (runMeets_anyStep start actions) result

/-- A finished run whose last state passes a check reaches a state that passes it. -/
theorem reaches_of_check (step : State → Action → Option State) (start : State)
    (actions : List Action) (check : State → Bool)
    (result : (run step start actions).map check = some true) :
    ∃ s, Reaches step anyStep start s ∧ check s = true := by
  cases last : run step start actions with
  | none => simp [last] at result
  | some s => exact ⟨s, run_reaches last, by simpa [last] using result⟩

theorem reaches_step_of_check (step : State → Action → Option State) (start : State)
    (actions : List Action) (a : Action) (check : State → State → Bool)
    (result : ((run step start actions).bind fun s => (step s a).map (check s)) = some true) :
    ∃ s s', Reaches step anyStep start s ∧ step s a = some s' ∧ check s s' = true := by
  cases last : run step start actions with
  | none => simp [last] at result
  | some s =>
      cases taken : step s a with
      | none => simp [last, taken] at result
      | some s' => exact ⟨s, s', run_reaches last, taken, by simpa [last, taken] using result⟩

theorem reaches_allowed_of_check (step : State → Action → Option State)
    (allowed : State → Action → Prop) [∀ s a, Decidable (allowed s a)] (start : State)
    (actions : List Action) (check : State → Bool)
    (met : runMeets step allowed start actions = true)
    (result : (run step start actions).map check = some true) :
    ∃ s, Reaches step allowed start s ∧ check s = true := by
  cases last : run step start actions with
  | none => simp [last] at result
  | some s => exact ⟨s, .run .refl met last, by simpa [last] using result⟩

end Transition
