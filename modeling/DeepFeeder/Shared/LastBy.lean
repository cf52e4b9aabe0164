import Mathlib.Data.List.Sort
import DeepFeeder.Shared.NestedGroups

set_option autoImplicit false

namespace LastBy

open NestedGroups

universe u v

variable {Row : Type u} {Key : Type v} [DecidableEq Key]

def lastOf (key : Row → Key) (rows : List Row) (k : Key) : Option Row :=
  (rows.filter fun row => key row = k).getLast?

def lastBy (key : Row → Key) (rows : List Row) : List Row :=
  (Dict.groupBy key rows).entries.filterMap fun entry => entry.2.getLast?

variable {key : Row → Key} {rows : List Row} {row : Row} {k : Key}

theorem lastOf_eq_some (found : lastOf key rows k = some row) : key row = k ∧ row ∈ rows := by
  have member := List.mem_of_getLast? found
  obtain ⟨inside, own⟩ := List.mem_filter.mp member
  exact ⟨of_decide_eq_true own, inside⟩

theorem lastOf_eq_none : lastOf key rows k = none ↔ ∀ row ∈ rows, key row ≠ k := by
  unfold lastOf
  rw [List.getLast?_eq_none_iff, List.filter_eq_nil_iff]
  simp

theorem lastOf_append (before after : List Row) :
    lastOf key (before ++ after) k = (lastOf key after k).or (lastOf key before k) := by
  unfold lastOf
  rw [List.filter_append, List.getLast?_append]

theorem lastOf_again (before block after : List Row) :
    lastOf key (before ++ block ++ block ++ after) k = lastOf key (before ++ block ++ after) k := by
  simp only [lastOf_append]
  cases lastOf key after k <;> cases lastOf key block k <;> rfl

theorem lastBy_eq (key : Row → Key) (rows : List Row) :
    lastBy key rows = (firstSeen (rows.map key)).filterMap (lastOf key rows) := by
  unfold lastBy
  rw [entries_groupBy, List.filterMap_map]
  rfl

theorem mem_lastBy : row ∈ lastBy key rows ↔ lastOf key rows (key row) = some row := by
  rw [lastBy_eq, List.mem_filterMap]
  constructor
  · rintro ⟨k, _, found⟩
    rwa [(lastOf_eq_some found).1]
  · intro found
    refine ⟨key row, ?_, found⟩
    rw [mem_firstSeen]
    exact List.mem_map_of_mem (lastOf_eq_some found).2

theorem keys_lastBy (key : Row → Key) (rows : List Row) :
    (lastBy key rows).map key = firstSeen (rows.map key) := by
  rw [lastBy_eq, List.map_filterMap]
  have own : ∀ k ∈ firstSeen (rows.map key), (lastOf key rows k).map key = some k := by
    intro k member
    obtain ⟨row, inside, same⟩ := List.mem_map.mp (mem_firstSeen.mp member)
    cases found : lastOf key rows k with
    | none => exact absurd same (lastOf_eq_none.mp found row inside)
    | some last => rw [Option.map_some, (lastOf_eq_some found).1]
  rw [List.filterMap_congr own, List.filterMap_some]

theorem lastBy_distinct (key : Row → Key) (rows : List Row) : ((lastBy key rows).map key).Nodup := by
  rw [keys_lastBy]
  exact firstSeen_nodup _

theorem lastOf_lastBy (key : Row → Key) (rows : List Row) (k : Key) :
    lastOf key (lastBy key rows) k = lastOf key rows k := by
  cases found : lastOf key rows k with
  | none =>
      rw [lastOf_eq_none]
      intro row member same
      rw [mem_lastBy, same, found] at member
      cases member
  | some row =>
      have own := (lastOf_eq_some found).1
      have member : row ∈ lastBy key rows := mem_lastBy.mpr (by rw [own, found])
      cases last : lastOf key (lastBy key rows) k with
      | none => exact absurd own (lastOf_eq_none.mp last row member)
      | some other =>
          obtain ⟨same, inside⟩ := lastOf_eq_some last
          rw [mem_lastBy, same, found] at inside
          exact inside.symm

theorem length_filter_le_one (distinct : (rows.map key).Nodup) (k : Key) :
    (rows.filter fun row => key row = k).length ≤ 1 := by
  have same : (rows.filter fun row => key row = k).map key =
      List.replicate (rows.filter fun row => key row = k).length k := by
    rw [List.eq_replicate_iff]
    refine ⟨List.length_map _, fun other member => ?_⟩
    obtain ⟨row, inside, rfl⟩ := List.mem_map.mp member
    exact of_decide_eq_true (List.mem_filter.mp inside).2
  have once := distinct.sublist ((List.filter_sublist (p := fun row => decide (key row = k))).map key)
  rw [same, List.nodup_replicate] at once
  exact once

def assign (key : Row → Key) (rows : List Row) (d : Dict Key Row) : Dict Key Row :=
  rows.foldl (fun d row => d.set (key row) row) d

theorem lookup_assign {d : Dict Key Row} :
    (assign key rows d).lookup k = (lastOf key rows k).or (d.lookup k) := by
  induction rows generalizing d with
  | nil => rfl
  | cons row rest ih =>
      have first : assign key (row :: rest) d = assign key rest (d.set (key row) row) := rfl
      have split : row :: rest = [row] ++ rest := rfl
      rw [first, ih, split, lastOf_append, Option.or_assoc, Dict.lookup_set]
      congr 1
      by_cases same : k = key row
      next => simp [lastOf, same]
      next =>
        have other : key row ≠ k := fun equal => same equal.symm
        simp [lastOf, same, other]

section Sorting

variable {r : Row → Row → Prop} [DecidableRel r]

theorem filter_insertionSort (tied : ∀ a b, key a = key b → r a b) (rows : List Row) (k : Key) :
    ((rows.insertionSort r).filter fun row => key row = k) =
      rows.filter fun row => key row = k := by
  have pairwise : (rows.filter fun row => key row = k).Pairwise r := by
    refine List.pairwise_of_forall_mem_list fun a first b second => tied a b ?_
    exact (of_decide_eq_true (List.mem_filter.mp first).2).trans
      (of_decide_eq_true (List.mem_filter.mp second).2).symm
  have inside := List.sublist_insertionSort pairwise List.filter_sublist
  have own := inside.filter fun row => decide (key row = k)
  rw [List.filter_filter] at own
  simp only [Bool.and_self] at own
  refine (own.eq_of_length ?_).symm
  exact ((List.perm_insertionSort r rows).filter _).length_eq.symm

theorem lastOf_insertionSort (tied : ∀ a b, key a = key b → r a b) (rows : List Row) (k : Key) :
    lastOf key (rows.insertionSort r) k = lastOf key rows k := by
  unfold lastOf
  rw [filter_insertionSort tied]

theorem lastOf_perm {others : List Row} (perm : rows.Perm others)
    (single : (rows.filter fun row => key row = k).length ≤ 1) :
    lastOf key rows k = lastOf key others k := by
  have own := perm.filter fun row => decide (key row = k)
  unfold lastOf
  match mine : rows.filter fun row => key row = k with
  | [] =>
      rw [mine] at own
      rw [own.nil_eq]
  | [row] =>
      rw [mine] at own
      rw [List.singleton_perm.mp own]
  | _ :: _ :: _ =>
      rw [mine, List.length_cons, List.length_cons] at single
      omega

end Sorting

end LastBy
