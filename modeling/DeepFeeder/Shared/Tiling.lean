import Mathlib.Data.Int.Order.Basic
import Mathlib.Data.List.Chain

set_option autoImplicit false

namespace Tiling

abbrev Piece := Int × Int

def Tiles (most : Int) : Int → List Piece → Int → Prop
  | first, [], next => first = next
  | first, piece :: rest, next =>
      piece.1 = first ∧ piece.1 ≤ piece.2 ∧ piece.2 - piece.1 + 1 ≤ most ∧
        Tiles most (piece.2 + 1) rest next

variable {most first next : Int} {pieces : List Piece} {piece : Piece}

theorem Tiles.concat (tiled : Tiles most first pieces next) {last : Int} (some_ : next ≤ last)
    (short : last - next + 1 ≤ most) : Tiles most first (pieces ++ [(next, last)]) (last + 1) := by
  induction pieces generalizing first with
  | nil =>
      cases (tiled : first = next)
      exact ⟨rfl, some_, short, rfl⟩
  | cons piece rest ih =>
      obtain ⟨starts, inhabited, bounded, later⟩ := tiled
      exact ⟨starts, inhabited, bounded, ih later⟩

theorem Tiles.length_le (tiled : Tiles most first pieces next) :
    (pieces.length : Int) ≤ next - first := by
  induction pieces generalizing first with
  | nil =>
      cases (tiled : first = next)
      simp
  | cons piece rest ih =>
      obtain ⟨starts, inhabited, _, later⟩ := tiled
      have shorter := ih later
      rw [List.length_cons]
      omega

theorem Tiles.covers (tiled : Tiles most first pieces next) (n : Int) :
    (∃ piece ∈ pieces, piece.1 ≤ n ∧ n ≤ piece.2) ↔ first ≤ n ∧ n < next := by
  induction pieces generalizing first with
  | nil =>
      cases (tiled : first = next)
      simp only [List.not_mem_nil, false_and, exists_false, false_iff]
      omega
  | cons piece rest ih =>
      have length := tiled.length_le
      obtain ⟨starts, inhabited, _, later⟩ := tiled
      have ends := later.length_le
      simp only [List.mem_cons, exists_eq_or_imp, ih later]
      omega

theorem Tiles.before (tiled : Tiles most first pieces next) (member : piece ∈ pieces) :
    first ≤ piece.1 := by
  induction pieces generalizing first with
  | nil => cases member
  | cons head rest ih =>
      obtain ⟨starts, inhabited, _, later⟩ := tiled
      rcases List.mem_cons.mp member with rfl | inside
      next => exact Int.le_of_eq starts.symm
      next =>
          have after := ih later inside
          omega

structure Exact (most first last : Int) (pieces : List Piece) : Prop where
  inhabited : ∀ piece ∈ pieces, piece.1 ≤ piece.2
  short : ∀ piece ∈ pieces, piece.2 - piece.1 + 1 ≤ most
  consecutive : pieces.IsChain fun a b => b.1 = a.2 + 1
  disjoint : pieces.Pairwise fun a b => a.2 < b.1
  union : ∀ n, (∃ piece ∈ pieces, piece.1 ≤ n ∧ n ≤ piece.2) ↔ first ≤ n ∧ n ≤ last

theorem Tiles.exact {last : Int} (tiled : Tiles most first pieces (last + 1)) :
    Exact most first last pieces := by
  have union (n : Int) : (∃ piece ∈ pieces, piece.1 ≤ n ∧ n ≤ piece.2) ↔ first ≤ n ∧ n ≤ last := by
    rw [tiled.covers n, Int.lt_add_one_iff]
  suffices parts : (∀ piece ∈ pieces, piece.1 ≤ piece.2) ∧
      (∀ piece ∈ pieces, piece.2 - piece.1 + 1 ≤ most) ∧
      (pieces.IsChain fun a b => b.1 = a.2 + 1) ∧ pieces.Pairwise fun a b => a.2 < b.1 from
    { inhabited := parts.1, short := parts.2.1, consecutive := parts.2.2.1
      disjoint := parts.2.2.2, union }
  clear union
  induction pieces generalizing first with
  | nil => simp
  | cons piece rest ih =>
      obtain ⟨starts, inhabited, bounded, later⟩ := tiled
      obtain ⟨inhabiteds, boundeds, chained, apart⟩ := ih later
      refine ⟨List.forall_mem_cons.mpr ⟨inhabited, inhabiteds⟩,
        List.forall_mem_cons.mpr ⟨bounded, boundeds⟩, ?_, ?_⟩
      next =>
          cases rest with
          | nil => exact .singleton piece
          | cons second rest => exact .cons_cons later.1 chained
      next =>
          refine List.pairwise_cons.mpr ⟨fun other inside => ?_, apart⟩
          exact Int.lt_of_lt_of_le (Int.lt_succ piece.2) (later.before inside)

section Cut

universe u

variable {Item : Type u} {key : Item → Int} {items : List Item}

theorem filter_append_filter (sorted : items.Pairwise fun a b => key a ≤ key b) {last : Int}
    (low : first ≤ last + 1) (high : last + 1 ≤ next) :
    (items.filter fun i => decide (first ≤ key i ∧ key i ≤ last)) ++
        (items.filter fun i => decide (last + 1 ≤ key i ∧ key i < next)) =
      items.filter fun i => decide (first ≤ key i ∧ key i < next) := by
  induction items with
  | nil => rfl
  | cons i rest ih =>
      obtain ⟨above, later⟩ := List.pairwise_cons.mp sorted
      by_cases left : key i ≤ last
      next =>
          have skipped : ¬(last + 1 ≤ key i ∧ key i < next) := by omega
          have same : (first ≤ key i ∧ key i ≤ last) ↔ (first ≤ key i ∧ key i < next) := by omega
          simp only [List.filter_cons, skipped, decide_false, Bool.false_eq_true, if_false, same,
            ← ih later]
          split
          next => rfl
          next => rfl
      next =>
          have none : ((i :: rest).filter fun i => decide (first ≤ key i ∧ key i ≤ last)) = [] := by
            rw [List.filter_eq_nil_iff]
            intro other member
            have order : key i ≤ key other := by
              rcases List.mem_cons.mp member with rfl | inside
              next => exact Int.le_refl _
              next => exact above other inside
            simp only [decide_eq_true_eq]
            omega
          rw [none, List.nil_append]
          refine List.filter_congr fun other member => ?_
          have order : key i ≤ key other := by
            rcases List.mem_cons.mp member with rfl | inside
            next => exact Int.le_refl _
            next => exact above other inside
          rw [decide_eq_decide]
          omega

theorem Tiles.flatMap_filter (sorted : items.Pairwise fun a b => key a ≤ key b)
    (tiled : Tiles most first pieces next) :
    (pieces.flatMap fun piece => items.filter fun i => decide (piece.1 ≤ key i ∧ key i ≤ piece.2)) =
      items.filter fun i => decide (first ≤ key i ∧ key i < next) := by
  induction pieces generalizing first with
  | nil =>
      cases (tiled : first = next)
      rw [List.flatMap_nil, eq_comm, List.filter_eq_nil_iff]
      intro i _
      simp only [decide_eq_true_eq]
      omega
  | cons piece rest ih =>
      obtain ⟨starts, inhabited, _, later⟩ := tiled
      have ends := later.length_le
      rw [List.flatMap_cons, ih later, ← starts]
      exact filter_append_filter sorted (by omega) (by omega)

end Cut

end Tiling
