import Mathlib.Data.List.Sort

set_option autoImplicit false

namespace Ranks

universe u

variable {Item : Type u} [LinearOrder Item] {items : List Item} {m : Item}

theorem getElem_le_iff (sorted : items.Pairwise (· ≤ ·)) {index : Nat} (inside : index < items.length) :
    items[index] ≤ m ↔ index < items.countP (· ≤ m) := by
  induction items generalizing index with
  | nil => exact absurd inside (Nat.not_lt_zero index)
  | cons first rest ih =>
      obtain ⟨least, sorted⟩ := List.pairwise_cons.mp sorted
      by_cases low : first ≤ m
      next =>
          have counted : (first :: rest).countP (· ≤ m) = rest.countP (· ≤ m) + 1 :=
            List.countP_cons_of_pos (decide_eq_true low)
          rw [counted]
          cases index with
          | zero => exact iff_of_true low (Nat.succ_pos _)
          | succ index =>
              have later : index < rest.length := by simpa using inside
              rw [List.getElem_cons_succ, ih sorted later]
              omega
      next =>
          have above : ∀ item ∈ first :: rest, ¬ item ≤ m := by
            intro item member
            rcases List.mem_cons.mp member with rfl | later
            next => exact low
            next => exact fun under => low ((least item later).trans under)
          have none : (first :: rest).countP (· ≤ m) = 0 :=
            List.countP_eq_zero.mpr fun item member => by simpa using above item member
          rw [none]
          exact iff_of_false (above _ (List.getElem_mem inside)) (Nat.not_lt_zero index)

theorem countP_le_add_countP_lt (items : List Item) (m : Item) :
    items.countP (· ≤ m) + items.countP (m < ·) = items.length := by
  have other : items.countP (m < ·) = items.countP fun item => ¬ (decide (item ≤ m)) = true := by
    refine List.countP_congr fun item _ => ?_
    simp
  rw [other, List.length_eq_countP_add_countP (· ≤ m)]

theorem fromEnd_le_iff {k : Nat} (few : k ≤ items.length)
    (inside : items.length - k < (items.insertionSort (· ≤ ·)).length) :
    (items.insertionSort (· ≤ ·))[items.length - k] ≤ m ↔ items.countP (m < ·) < k := by
  have same : (items.insertionSort (· ≤ ·)).countP (· ≤ m) = items.countP (· ≤ m) :=
    (List.perm_insertionSort _ items).countP_eq _
  have all := countP_le_add_countP_lt items m
  rw [getElem_le_iff (List.pairwise_insertionSort _ items), same]
  omega

end Ranks
