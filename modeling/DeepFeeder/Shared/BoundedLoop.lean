import Mathlib.Logic.Basic

set_option autoImplicit false

namespace BoundedLoop

variable {State Out : Type}

-- None where the turns do not suffice to leave the loop.
def loop (turn : Nat → State → Out ⊕ State) : Nat → Nat → State → Option Out
  | 0, _, _ => none
  | turns + 1, k, s =>
      match turn k s with
      | .inl out => some out
      | .inr next => loop turn turns (k + 1) next

variable {turn : Nat → State → Out ⊕ State} {turns k : Nat} {s : State}

theorem loop_exit {out : Out} (left : turn k s = .inl out) :
    loop turn (turns + 1) k s = some out := by
  rw [loop, left]

theorem loop_next {next : State} (more : turn k s = .inr next) :
    loop turn (turns + 1) k s = loop turn turns (k + 1) next := by
  rw [loop, more]

theorem loop_ends (inv : State → Prop) (measure : State → Nat)
    (kept : ∀ k s next, inv s → turn k s = .inr next → inv next)
    (lowered : ∀ k s next, inv s → turn k s = .inr next → measure next < measure s)
    (holds : inv s) :
    ∃ out k' s', inv s' ∧ turn k' s' = .inl out ∧
      ∀ turns, measure s < turns → loop turn turns k s = some out := by
  induction size : measure s using Nat.strongRecOn generalizing k s with
  | ind size ih =>
      cases result : turn k s with
      | inl out =>
          refine ⟨out, k, s, holds, result, fun turns many => ?_⟩
          obtain ⟨fewer, rfl⟩ := Nat.exists_eq_succ_of_ne_zero (Nat.ne_of_gt (Nat.zero_lt_of_lt many))
          exact loop_exit result
      | inr next =>
          have fewer := lowered k s next holds result
          obtain ⟨out, k', s', later, left, enough⟩ := ih (measure next) (size ▸ fewer)
            (k := k + 1) (kept k s next holds result) rfl
          refine ⟨out, k', s', later, left, fun turns many => ?_⟩
          obtain ⟨less, rfl⟩ := Nat.exists_eq_succ_of_ne_zero (Nat.ne_of_gt (Nat.zero_lt_of_lt many))
          rw [loop_next result]
          exact enough less (by omega)

end BoundedLoop
