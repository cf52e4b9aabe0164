import Mathlib.Algebra.BigOperators.Group.List.Basic
import Mathlib.Algebra.GroupWithZero.Nat
import DeepFeeder.Shared.Grouping

set_option autoImplicit false

namespace NestedGroups

universe u v w

variable {Item : Type u} {Key : Type v} {Coarse : Type w}

section FirstAppearance

variable [DecidableEq Key] {keys : List Key} {k : Key}

def firstSeen (keys : List Key) : List Key := keys.eraseDups

@[simp]
theorem mem_firstSeen : k ∈ firstSeen keys ↔ k ∈ keys := List.mem_eraseDups

theorem firstSeen_cons (k : Key) (keys : List Key) :
    firstSeen (k :: keys) = k :: firstSeen (keys.filter fun other => !other == k) :=
  List.eraseDups_cons

theorem firstSeen_of_same (same : ∀ other ∈ keys, other = k) (some : keys ≠ []) :
    firstSeen keys = [k] := by
  cases keys with
  | nil => exact absurd rfl some
  | cons first rest =>
      obtain ⟨rfl, later⟩ := List.forall_mem_cons.mp same
      have none : (rest.filter fun other => !other == first) = [] :=
        List.filter_eq_nil_iff.mpr fun other member => by simp [later other member]
      rw [firstSeen_cons, none]
      rfl

theorem firstSeen_concat (keys : List Key) (k : Key) :
    firstSeen (keys ++ [k]) = firstSeen keys ++ if k ∈ keys then [] else [k] := by
  unfold firstSeen
  rw [List.eraseDups_append]
  congr 1
  by_cases seen : k ∈ keys
  next => simp [List.removeAll, seen]
  next => simp [List.removeAll, seen, List.eraseDups_cons]

theorem firstSeen_nodup (keys : List Key) : (firstSeen keys).Nodup := by
  induction keys using List.reverseRecOn with
  | nil => exact .nil
  | append_singleton keys k ih =>
      rw [firstSeen_concat]
      split
      next => rwa [List.append_nil]
      next unseen =>
          refine List.nodup_append.mpr ⟨ih, List.nodup_singleton k, fun a before b last same => ?_⟩
          rw [same, List.mem_singleton.mp last] at before
          exact unseen (mem_firstSeen.mp before)

theorem firstSeen_filter (keys : List Key) (p : Key → Bool) :
    firstSeen (keys.filter p) = (firstSeen keys).filter p := by
  induction keys using List.reverseRecOn with
  | nil => rfl
  | append_singleton keys k ih =>
      rw [List.filter_append, firstSeen_concat, List.filter_append, ← ih]
      by_cases kept : p k
      next =>
          have same : k ∈ keys.filter p ↔ k ∈ keys := by simp [kept]
          rw [List.filter_cons_of_pos kept, List.filter_nil, firstSeen_concat]
          simp only [same]
          split
          next => rfl
          next => simp [kept]
      next =>
          rw [List.filter_cons_of_neg kept, List.filter_nil, List.append_nil]
          split
          next => simp
          next => simp [kept]

theorem firstSeen_map_firstSeen [DecidableEq Coarse] (keys : List Key) (g : Key → Coarse) :
    firstSeen ((firstSeen keys).map g) = firstSeen (keys.map g) := by
  induction keys using List.reverseRecOn with
  | nil => rfl
  | append_singleton keys k ih =>
      rw [firstSeen_concat, List.map_append, List.map_append, List.map_singleton,
        firstSeen_concat (keys.map g), ← ih]
      split
      next seen =>
          rw [if_pos (List.mem_map_of_mem seen), List.map_nil, List.append_nil, List.append_nil]
      next =>
          have same : g k ∈ (firstSeen keys).map g ↔ g k ∈ keys.map g := by simp
          rw [List.map_singleton, firstSeen_concat]
          simp only [same]

theorem getLast?_firstSeen {le : Key → Key → Prop} (antisymm : ∀ a b, le a b → le b a → a = b)
    (sorted : keys.Pairwise le) : (firstSeen keys).getLast? = keys.getLast? := by
  induction keys using List.reverseRecOn with
  | nil => rfl
  | append_singleton keys k ih =>
      obtain ⟨before, _, below⟩ := List.pairwise_append.mp sorted
      rw [firstSeen_concat, List.getLast?_concat]
      split
      next seen =>
          rw [List.append_nil, ih before]
          rcases List.eq_nil_or_concat keys with empty | ⟨front, last, ends⟩
          next =>
              rw [empty] at seen
              cases seen
          next =>
              rw [ends, List.concat_eq_append] at before below seen ⊢
              rw [List.getLast?_concat]
              have low : le last k := below last (by simp) k (List.mem_singleton_self k)
              rcases List.mem_append.mp seen with earlier | same
              next =>
                  have high := (List.pairwise_append.mp before).2.2 k earlier last (by simp)
                  rw [antisymm last k low high]
              next => rw [List.mem_singleton.mp same]
      next => rw [List.getLast?_concat]

end FirstAppearance

section Groups

variable [DecidableEq Key] {key : Item → Key} {items : List Item}

theorem keys_groupBy (key : Item → Key) (items : List Item) :
    (Dict.groupBy key items).keys = firstSeen (items.map key) := by
  induction items using List.reverseRecOn with
  | nil => rfl
  | append_singleton items item ih =>
      rw [Dict.groupBy_concat, List.map_append, List.map_singleton, firstSeen_concat, ← ih]
      unfold Dict.append Dict.set
      have known : key item ∈ Dict.groupBy key items ↔ key item ∈ items.map key := by
        rw [AList.mem_keys, Dict.mem_keys_groupBy]
      split
      next seen => rw [if_pos (known.mp seen), List.append_nil, AList.keys_replace]
      next unseen =>
          rw [if_neg fun seen => unseen (known.mpr seen)]
          exact Dict.keys_append_entry _ _ _

theorem entries_groupBy (key : Item → Key) (items : List Item) :
    (Dict.groupBy key items).entries = (firstSeen (items.map key)).map fun k =>
      Dict.entry k (items.filter fun item => key item = k) := by
  have own : ∀ e ∈ (Dict.groupBy key items).entries,
      e = Dict.entry e.1 (items.filter fun item => key item = e.1) := by
    intro e member
    have group := (@Dict.mem_entries_groupBy _ _ _ _ _ e.1 e.2 member).2
    exact Sigma.ext rfl (heq_of_eq group)
  calc (Dict.groupBy key items).entries
      = (Dict.groupBy key items).entries.map fun e =>
          Dict.entry e.1 (items.filter fun item => key item = e.1) :=
        (List.map_congr_left own ▸ List.map_id' _).symm
    _ = (Dict.groupBy key items).keys.map fun k =>
          Dict.entry k (items.filter fun item => key item = k) := by
        rw [AList.keys, List.keys, List.map_map]
        rfl
    _ = _ := by rw [keys_groupBy]

theorem groups_perm_filter {keys : List Key} (distinct : keys.Nodup) (key : Item → Key)
    (items : List Item) :
    (keys.map fun k => items.filter fun item => key item = k).flatten.Perm
      (items.filter fun item => key item ∈ keys) := by
  induction keys with
  | nil => simp
  | cons k keys ih =>
      obtain ⟨absent, distinct⟩ := List.nodup_cons.mp distinct
      have first : ((items.filter fun item => key item ∈ k :: keys).filter fun item =>
          key item = k) = items.filter fun item => key item = k := by
        rw [List.filter_filter]
        refine List.filter_congr fun item _ => ?_
        by_cases same : key item = k <;> simp [same]
      have others : ((items.filter fun item => key item ∈ k :: keys).filter fun item =>
          !decide (key item = k)) = items.filter fun item => key item ∈ keys := by
        rw [List.filter_filter]
        refine List.filter_congr fun item _ => ?_
        by_cases same : key item = k <;> simp [same, absent]
      have split := List.filter_append_perm (fun item => decide (key item = k))
        (items.filter fun item => key item ∈ k :: keys)
      rw [first, others] at split
      rw [List.map_cons, List.flatten_cons]
      exact ((ih distinct).append_left _).trans split

theorem groups_perm (key : Item → Key) (items : List Item) :
    ((firstSeen (items.map key)).map fun k => items.filter fun item => key item = k).flatten.Perm
      items := by
  have all : (items.filter fun item => key item ∈ firstSeen (items.map key)) = items := by
    refine List.filter_eq_self.mpr fun item member => decide_eq_true ?_
    exact mem_firstSeen.mpr (List.mem_map_of_mem member)
  have perm := groups_perm_filter (firstSeen_nodup (items.map key)) key items
  rwa [all] at perm

theorem sum_groups {M : Type w} [AddCommMonoid M] (key : Item → Key) (items : List Item)
    (f : Item → M) :
    ((firstSeen (items.map key)).map fun k =>
      ((items.filter fun item => key item = k).map f).sum).sum = (items.map f).sum := by
  have flat := ((groups_perm key items).map f).sum_eq
  rw [List.map_flatten, List.sum_flatten, List.map_map, List.map_map] at flat
  exact flat

theorem sum_some_groups {M : Type w} [AddCommMonoid M] (key : Item → Key) (p : Key → Bool)
    (items : List Item) (f : Item → M) :
    (((firstSeen (items.map key)).filter p).map fun k =>
      ((items.filter fun item => key item = k).map f).sum).sum =
        ((items.filter fun item => p (key item)).map f).sum := by
  have keys : (firstSeen (items.map key)).filter p =
      firstSeen ((items.filter fun item => p (key item)).map key) := by
    rw [← firstSeen_filter, List.filter_map]
    rfl
  rw [keys, ← sum_groups key]
  refine congrArg List.sum (List.map_congr_left fun k member => ?_)
  obtain ⟨first, inside, rfl⟩ := List.mem_map.mp (mem_firstSeen.mp member)
  have own : p (key first) = true := by simpa using (List.mem_filter.mp inside).2
  rw [List.filter_filter]
  refine congrArg (fun group => (group.map f).sum) (List.filter_congr fun item _ => ?_)
  by_cases same : key item = key first
  · simp [same, own]
  · simp [same]

theorem length_groups (key : Item → Key) (items : List Item) :
    ((firstSeen (items.map key)).map fun k =>
      (items.filter fun item => key item = k).length).sum = items.length := by
  have flat := (groups_perm key items).length_eq
  rw [List.length_flatten, List.map_map] at flat
  exact flat

theorem extreme_groups {M : Type w} {le : M → M → Prop} (trans : ∀ a b c, le a b → le b c → le a c)
    {extreme : List M → Option M}
    (spec : ∀ values m, extreme values = some m ↔ m ∈ values ∧ ∀ other ∈ values, le other m)
    (found : ∀ values, values ≠ [] → (extreme values).isSome) (key : Item → Key)
    (items : List Item) (f : Item → M) :
    extreme ((firstSeen (items.map key)).filterMap fun k =>
      extreme ((items.filter fun item => key item = k).map f)) = extreme (items.map f) := by
  have group {item : Item} (member : item ∈ items) :
      f item ∈ (items.filter fun other => key other = key item).map f :=
    List.mem_map_of_mem (List.mem_filter.mpr ⟨member, decide_eq_true rfl⟩)
  have above {item : Item} (member : item ∈ items) : ∃ top,
      extreme ((items.filter fun other => key other = key item).map f) = some top ∧
        le (f item) top := by
    obtain ⟨top, isTop⟩ := Option.isSome_iff_exists.mp (found _ (List.ne_nil_of_mem (group member)))
    exact ⟨top, isTop, ((spec _ _).mp isTop).2 _ (group member)⟩
  apply Option.ext
  intro m
  rw [spec, spec]
  simp only [List.mem_filterMap, mem_firstSeen, List.mem_map, exists_exists_and_eq_and]
  constructor
  next =>
      rintro ⟨⟨item, member, isTop⟩, most⟩
      obtain ⟨own, _⟩ := (spec _ _).mp isTop
      obtain ⟨other, inside, rfl⟩ := List.mem_map.mp own
      refine ⟨⟨other, List.mem_of_mem_filter inside, rfl⟩, ?_⟩
      rintro _ ⟨third, thirdIn, rfl⟩
      obtain ⟨top, topOf, below⟩ := above thirdIn
      exact trans _ _ _ below (most top ⟨third, thirdIn, topOf⟩)
  next =>
      rintro ⟨⟨item, member, rfl⟩, most⟩
      have bounded : ∀ third ∈ items, ∀ value ∈ (items.filter fun other => key other = key third).map f,
          le value (f item) := by
        intro third _ value valueIn
        obtain ⟨other, inside, rfl⟩ := List.mem_map.mp valueIn
        exact most _ ⟨other, List.mem_of_mem_filter inside, rfl⟩
      refine ⟨⟨item, member, (spec _ _).mpr ⟨group member, bounded item member⟩⟩, ?_⟩
      rintro top ⟨third, thirdIn, isTop⟩
      exact bounded third thirdIn top ((spec _ _).mp isTop).1

end Groups

section Nested

variable [DecidableEq Key] [DecidableEq Coarse]

-- What the groups are made into, taken by a coarser key: the keys, and for each the finer groups of its
-- own items.
theorem groupBy_groupBy {Bar : Type u} (key : Item → Key) (coarse : Key → Coarse)
    (make : Key → List Item → Bar) (again : Bar → Coarse)
    (made : ∀ k group, again (make k group) = coarse k) (items : List Item) :
    (Dict.groupBy again ((Dict.groupBy key items).entries.map fun e => make e.1 e.2)).entries =
      (firstSeen (items.map fun item => coarse (key item))).map fun c =>
        let own := items.filter fun item => coarse (key item) = c
        Dict.entry c ((firstSeen (own.map key)).map fun k =>
          make k (own.filter fun item => key item = k)) := by
  have bars : ((Dict.groupBy key items).entries.map fun e => make e.1 e.2) =
      (firstSeen (items.map key)).map fun k => make k (items.filter fun item => key item = k) := by
    rw [entries_groupBy, List.map_map]
    rfl
  have keys : firstSeen (((firstSeen (items.map key)).map fun k =>
      make k (items.filter fun item => key item = k)).map again) =
        firstSeen (items.map fun item => coarse (key item)) := by
    rw [List.map_map]
    have same : (again ∘ fun k => make k (items.filter fun item => key item = k)) = coarse :=
      funext fun k => made k _
    rw [same, firstSeen_map_firstSeen, List.map_map]
    rfl
  rw [bars, entries_groupBy, keys]
  refine List.map_congr_left fun c _ => ?_
  simp only
  have coarser : ((firstSeen (items.map key)).filter fun k =>
      again (make k (items.filter fun item => key item = k)) = c) =
        firstSeen ((items.filter fun item => coarse (key item) = c).map key) := by
    simp only [made]
    rw [← firstSeen_filter, List.filter_map]
    rfl
  rw [List.filter_map]
  change Dict.entry c (((firstSeen (items.map key)).filter fun k =>
    again (make k (items.filter fun item => key item = k)) = c).map _) = _
  rw [coarser]
  refine congrArg (Dict.entry c) (List.map_congr_left fun k member => ?_)
  obtain ⟨item, inside, rfl⟩ := List.mem_map.mp (mem_firstSeen.mp member)
  have here : coarse (key item) = c := of_decide_eq_true (List.mem_filter.mp inside).2
  congr 1
  rw [List.filter_filter]
  refine List.filter_congr fun other _ => ?_
  by_cases same : key other = key item
  next => simp [same, here]
  next => simp [same]

end Nested

end NestedGroups
