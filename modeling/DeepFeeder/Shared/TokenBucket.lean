import Mathlib.Algebra.Order.Field.Basic
import Mathlib.Algebra.Order.Ring.Cast
import Mathlib.Tactic.Linarith
import Mathlib.Tactic.Ring

set_option autoImplicit false

namespace TokenBucket

variable {K : Type} [Field K] [LinearOrder K]

/-- Takes from a full bucket, the latest first, with what it holds after the latest and when that was.
A take finds no more than what was left and what time has brought. -/
inductive Paced (burst rate start : K) : K → K → List K → Prop where
  | full (level : K) (nonneg : 0 ≤ level) (limit : level ≤ burst) : Paced burst rate start level start []
  | take {level time : K} {takes : List K} (before : Paced burst rate start level time takes)
      {level' time' : K} (later : time ≤ time') (nonneg : 0 ≤ level') (limit : level' + 1 ≤ burst)
      (gained : level' + 1 ≤ level + rate * (time' - time)) :
      Paced burst rate start level' time' (time' :: takes)

def within (first last : K) (takes : List K) : Nat :=
  takes.countP fun time => first ≤ time ∧ time ≤ last

inductive Trails : List K → List K → Prop where
  | nil : Trails [] []
  | use {takes uses : List K} (before : Trails takes uses) {time time' : K}
      (past : ∀ u ∈ uses, u ≤ time) (later : time ≤ time') :
      Trails (time :: takes) (time' :: uses)

variable {burst rate start level time first last : K} {takes uses : List K}

theorem Paced.time_le (paced : Paced burst rate start level time takes) :
    ∀ t ∈ takes, t ≤ time := by
  induction paced with
  | full => exact fun t member => absurd member List.not_mem_nil
  | take before later _ _ _ ih =>
      intro t member
      rcases List.mem_cons.mp member with rfl | earlier
      next => exact le_refl t
      next => exact (ih t earlier).trans later

theorem Paced.level_nonneg (paced : Paced burst rate start level time takes) : 0 ≤ level := by
  cases paced with
  | full _ nonneg _ => exact nonneg
  | take _ _ nonneg _ _ => exact nonneg

omit [Field K] in
theorem within_cons (time : K) (takes : List K) :
    within first last (time :: takes) =
      within first last takes + if first ≤ time ∧ time ≤ last then 1 else 0 := by
  simp [within, List.countP_cons]

omit [Field K] in
theorem within_le_cons (time : K) (takes : List K) :
    within first last takes ≤ within first last (time :: takes) := by
  rw [within_cons]
  exact Nat.le_add_right _ _

omit [Field K] in
theorem Trails.within_le (trails : Trails takes uses) :
    within first last uses ≤ within first last takes + 1 := by
  induction trails with
  | nil => exact Nat.zero_le _
  | @use takes uses before time time' past later ih =>
      rw [within_cons]
      split
      next inside =>
          by_cases started : first ≤ time
          next =>
              rw [within_cons, if_pos ⟨started, later.trans inside.2⟩]
              omega
          next =>
              have none : within first last uses = 0 := by
                refine List.countP_eq_zero.mpr fun u member => ?_
                have early := (past u member).trans_lt (not_le.mp started)
                simp [not_le.mpr early]
              omega
      next =>
          have more : within first last takes ≤ within first last (time :: takes) :=
            within_le_cons time takes
          omega

theorem Paced.within_eq_zero (paced : Paced burst rate start level time takes)
    (before : time < first) : within first last takes = 0 := by
  refine List.countP_eq_zero.mpr fun t member => ?_
  have early := (paced.time_le t member).trans_lt before
  simp [not_le.mpr early]

variable [IsStrictOrderedRing K]

theorem Paced.within_add_level (paced : Paced burst rate start level time takes)
    (reached : first ≤ time) (rates : 0 ≤ rate) :
    (within first time takes : K) + level ≤ burst + rate * (time - first) := by
  induction paced with
  | full level _ limit =>
      have gain := mul_nonneg rates (sub_nonneg.mpr reached)
      simp only [within, List.countP_nil, Nat.cast_zero]
      linarith
  | @take level time takes before level' time' later _ limit gained ih =>
      rw [within_cons, if_pos ⟨reached, le_refl time'⟩, Nat.cast_add, Nat.cast_one]
      by_cases early : time < first
      next =>
          have gain := mul_nonneg rates (sub_nonneg.mpr reached)
          rw [before.within_eq_zero early, Nat.cast_zero]
          linarith
      next =>
          have older := ih (not_lt.mp early)
          have same : within first time' takes = within first time takes := by
            refine List.countP_congr fun t member => ?_
            have past := before.time_le t member
            simp [past, past.trans later]
          have spread : rate * (time' - first) =
              rate * (time - first) + rate * (time' - time) := by ring
          rw [same, spread]
          linarith

theorem Paced.within_le (paced : Paced burst rate start level time takes) (span : first ≤ last)
    (rates : 0 ≤ rate) (holds : 0 ≤ burst) :
    (within first last takes : K) ≤ burst + rate * (last - first) := by
  have gain := mul_nonneg rates (sub_nonneg.mpr span)
  induction paced with
  | full =>
      simp only [within, List.countP_nil, Nat.cast_zero]
      linarith
  | @take level time takes before level' time' later nonneg limit gained ih =>
      by_cases inside : first ≤ time' ∧ time' ≤ last
      next =>
          have all := (before.take later nonneg limit gained).within_add_level inside.1 rates
          have same : within first last (time' :: takes) = within first time' (time' :: takes) := by
            refine List.countP_congr fun t member => ?_
            have past := (before.take later nonneg limit gained).time_le t member
            simp [past, past.trans inside.2]
          have longer := mul_le_mul_of_nonneg_left (sub_le_sub_right inside.2 first) rates
          rw [same]
          linarith
      next =>
          rw [within_cons, if_neg inside, Nat.add_zero]
          exact ih

end TokenBucket
