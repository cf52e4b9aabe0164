import DeepFeeder.Shared.Transition

set_option autoImplicit false

namespace Transition

universe u v

variable {State : Type u} {Action : Type v} {step : State → Action → Option State}
  {allowed : State → Action → Prop} {inv goal : State → Prop} {party : Action → Bool}
  {rank : State → Nat}

/-- Until the goal holds no step raises the rank and every step of the party lowers it. -/
structure Descends (step : State → Action → Option State) (allowed : State → Action → Prop)
    (inv goal : State → Prop) (party : Action → Bool) (rank : State → Nat) : Prop where
  preserved : ∀ s a s', inv s → allowed s a → step s a = some s' → inv s'
  kept : ∀ s a s', inv s → allowed s a → step s a = some s' → goal s → goal s'
  bounded : ∀ s a s', inv s → allowed s a → step s a = some s' → ¬ goal s →
    goal s' ∨ rank s' ≤ rank s
  lowered : ∀ s a s', inv s → allowed s a → step s a = some s' → ¬ goal s → party a = true →
    goal s' ∨ rank s' < rank s

theorem Descends.goal_of_run [∀ s a, Decidable (allowed s a)]
    (descends : Descends step allowed inv goal party rank) {s s' : State} {actions : List Action}
    (holds : inv s) (met : runMeets step allowed s actions = true)
    (result : run step s actions = some s') (enough : goal s ∨ rank s < actions.countP party) :
    goal s' := by
  induction actions generalizing s with
  | nil =>
      cases result
      rcases enough with done | none
      · exact done
      · rw [List.countP_nil] at none
        exact absurd none (Nat.not_lt_zero _)
  | cons a rest ih =>
      simp only [runMeets, Bool.and_eq_true, decide_eq_true_eq] at met
      obtain ⟨permitted, later⟩ := met
      cases taken : step s a with
      | none => simp [run, taken] at result
      | some next =>
          simp only [run, taken, Option.bind_some] at result
          simp only [taken] at later
          refine ih (descends.preserved s a next holds permitted taken) later result ?_
          by_cases done : goal s
          · exact .inl (descends.kept s a next holds permitted taken done)
          · have more := enough.resolve_left done
            rw [List.countP_cons] at more
            by_cases own : party a = true
            · rw [if_pos own] at more
              refine (descends.lowered s a next holds permitted taken done own).imp_right ?_
              omega
            · rw [if_neg own] at more
              refine (descends.bounded s a next holds permitted taken done).imp_right ?_
              omega

end Transition
