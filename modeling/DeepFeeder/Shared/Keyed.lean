import Mathlib.Data.List.Basic
import Mathlib.Data.List.Nodup

set_option autoImplicit false

namespace Keyed

universe u v w

variable {Row : Type u} {Other : Type w} {Key : Type v} [DecidableEq Key] {key : Row → Key}
  {otherKey : Other → Key} {rows : List Row} {r : Row} {k : Key}

def lookup (key : Row → Key) (rows : List Row) (k : Key) : Option Row :=
  rows.find? fun r => decide (key r = k)

theorem mem_of_lookup (found : lookup key rows k = some r) : r ∈ rows := List.mem_of_find?_eq_some found

theorem key_of_lookup (found : lookup key rows k = some r) : key r = k := by
  simpa using List.find?_some found

theorem lookup_eq_none_iff : lookup key rows k = none ↔ k ∉ rows.map key := by
  simp [lookup, List.find?_eq_none]

theorem lookup_eq_some_iff (unique : (rows.map key).Nodup) :
    lookup key rows k = some r ↔ r ∈ rows ∧ key r = k := by
  constructor
  · intro found
    exact ⟨mem_of_lookup found, key_of_lookup found⟩
  · rintro ⟨member, rfl⟩
    cases found : lookup key rows (key r) with
    | none => exact absurd (List.mem_map_of_mem member) (lookup_eq_none_iff.mp found)
    | some other =>
        have same := List.inj_on_of_nodup_map unique (mem_of_lookup found) member (key_of_lookup found)
        rw [same]

theorem lookup_append (first second : List Row) :
    lookup key (first ++ second) k = (lookup key first k).or (lookup key second k) :=
  List.find?_append

theorem lookup_map {write : Row → Other} (keeps : ∀ r, otherKey (write r) = key r) :
    lookup otherKey (rows.map write) k = (lookup key rows k).map write := by
  unfold lookup
  rw [List.find?_map]
  simp only [Function.comp_def, keeps]

theorem lookup_filter (chosen : Key → Bool) :
    lookup key (rows.filter fun r => chosen (key r)) k =
      if chosen k then lookup key rows k else none := by
  induction rows with
  | nil => simp [lookup]
  | cons first rest ih =>
      unfold lookup at ih ⊢
      by_cases here : key first = k
      · cases chose : chosen k with
        | true => simp [here, chose]
        | false => simpa [here, chose] using ih
      · cases chose : chosen (key first) with
        | true => simpa [here, chose] using ih
        | false => simpa [here, chose] using ih

end Keyed
