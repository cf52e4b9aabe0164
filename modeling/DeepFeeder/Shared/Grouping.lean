import Mathlib.Data.List.Induction
import DeepFeeder.Shared.Dict

set_option autoImplicit false

namespace Dict

universe u v

variable {Key : Type u} {Item : Type v} [DecidableEq Key]

def append (d : Dict Key (List Item)) (k : Key) (item : Item) : Dict Key (List Item) :=
  d.set k ((d.lookup k).getD [] ++ [item])

def groupBy (key : Item → Key) (items : List Item) : Dict Key (List Item) :=
  items.foldl (fun d item => d.append (key item) item) ∅

variable {key : Item → Key} {items : List Item} {k : Key}

theorem groupBy_concat (key : Item → Key) (items : List Item) (item : Item) :
    groupBy key (items ++ [item]) = (groupBy key items).append (key item) item := by
  unfold groupBy
  rw [List.foldl_append]
  rfl

theorem lookup_groupBy (key : Item → Key) (items : List Item) (k : Key) :
    (groupBy key items).lookup k =
      if k ∈ items.map key then some (items.filter fun item => key item = k) else none := by
  induction items using List.reverseRecOn with
  | nil => rfl
  | append_singleton items item ih =>
      rw [groupBy_concat, append, lookup_set]
      by_cases same : k = key item
      · subst same
        have last : key item ∈ (items ++ [item]).map key := by
          rw [List.map_append]
          exact List.mem_append_right _ List.mem_cons_self
        rw [if_pos rfl, ih, if_pos last, List.filter_append]
        by_cases present : key item ∈ items.map key
        · rw [if_pos present]
          simp
        · have unseen : (items.filter fun other => key other = key item) = [] := by
            rw [List.filter_eq_nil_iff]
            intro other member equal
            exact present (List.mem_map.mpr ⟨other, member, of_decide_eq_true equal⟩)
          rw [if_neg present, unseen]
          simp
      · have different : ¬ key item = k := fun equal => same equal.symm
        rw [if_neg same, ih, List.filter_append]
        simp [same, different]

theorem mem_entries_groupBy {group : List Item} (member : entry k group ∈ (groupBy key items).entries) :
    k ∈ items.map key ∧ group = items.filter fun item => key item = k := by
  have found : (groupBy key items).lookup k = some group := AList.mem_lookup_iff.mpr member
  rw [lookup_groupBy] at found
  split at found
  next present => exact ⟨present, (Option.some.inj found).symm⟩
  next => cases found

theorem mem_keys_groupBy : k ∈ (groupBy key items).keys ↔ k ∈ items.map key := by
  rw [AList.mem_keys.symm, ← AList.lookup_isSome, lookup_groupBy]
  split
  next present => simpa using present
  next absent => simpa using absent

end Dict
