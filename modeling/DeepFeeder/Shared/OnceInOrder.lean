import Mathlib.Data.List.Dedup
import Mathlib.Data.List.Sort

set_option autoImplicit false

universe u v

variable {Item : Type u} {Key : Type v} [LinearOrder Key] {key : Item → Key}

structure OnceInOrder (key : Item → Key) (ordered items : List Item) : Prop where
  mem_iff : ∀ item, item ∈ ordered ↔ item ∈ items
  nodup : ordered.Nodup
  ascending : ordered.Pairwise fun a b => key a ≤ key b

def onceInOrder [DecidableEq Item] (key : Item → Key) (items : List Item) : List Item :=
  items.dedup.insertionSort fun a b => key a ≤ key b

namespace OnceInOrder

variable {ordered items : List Item} {item : Item}

theorem of_items [DecidableEq Item] (key : Item → Key) (items : List Item) :
    OnceInOrder key (onceInOrder key items) items where
  mem_iff item := by
    unfold onceInOrder
    rw [(List.perm_insertionSort _ _).mem_iff, List.mem_dedup]
  nodup := (List.perm_insertionSort _ _).nodup_iff.mpr (List.nodup_dedup items)
  ascending := by
    have total : Std.Total fun a b => key a ≤ key b := ⟨fun a b => le_total (key a) (key b)⟩
    have trans : IsTrans Item fun a b => key a ≤ key b := ⟨fun _ _ _ => le_trans⟩
    exact List.pairwise_insertionSort _ _

theorem filter (once : OnceInOrder key ordered items) (p : Item → Bool) :
    OnceInOrder key (ordered.filter p) (items.filter p) where
  mem_iff item := by rw [List.mem_filter, List.mem_filter, once.mem_iff]
  nodup := once.nodup.filter p
  ascending := once.ascending.filter p

theorem subperm (once : OnceInOrder key ordered items) : ordered.Subperm items :=
  List.subperm_of_subset once.nodup fun item => (once.mem_iff item).mp

theorem perm (once : OnceInOrder key ordered items) (distinct : items.Nodup) :
    ordered.Perm items :=
  (List.perm_ext_iff_of_nodup once.nodup distinct).mpr once.mem_iff

theorem length_eq_iff (once : OnceInOrder key ordered items) :
    ordered.length = items.length ↔ items.Nodup := by
  constructor
  · intro same
    exact (once.subperm.perm_of_length_le same.ge).nodup_iff.mp once.nodup
  · exact fun distinct => (once.perm distinct).length_eq

theorem eq_nil_iff (once : OnceInOrder key ordered items) : ordered = [] ↔ items = [] := by
  simp only [List.eq_nil_iff_forall_not_mem, once.mem_iff]

theorem head?_lowest (once : OnceInOrder key ordered items) (first : ordered.head? = some item) :
    item ∈ items ∧ ∀ other ∈ items, key item ≤ key other := by
  obtain ⟨rest, rfl⟩ := List.head?_eq_some_iff.mp first
  refine ⟨(once.mem_iff item).mp List.mem_cons_self, ?_⟩
  intro other member
  rcases List.mem_cons.mp ((once.mem_iff other).mpr member) with rfl | later
  · exact le_refl _
  · exact (List.pairwise_cons.mp once.ascending).1 other later

theorem getLast?_greatest (once : OnceInOrder key ordered items)
    (last : ordered.getLast? = some item) :
    item ∈ items ∧ ∀ other ∈ items, key other ≤ key item := by
  obtain ⟨before, rfl⟩ := List.getLast?_eq_some_iff.mp last
  refine ⟨(once.mem_iff item).mp (by simp), ?_⟩
  intro other member
  rcases List.mem_append.mp ((once.mem_iff other).mpr member) with earlier | same
  · exact (List.pairwise_append.mp once.ascending).2.2 other earlier item List.mem_cons_self
  · rw [List.mem_singleton.mp same]

end OnceInOrder
