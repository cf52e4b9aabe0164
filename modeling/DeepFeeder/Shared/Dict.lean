import Mathlib.Data.List.AList

set_option autoImplicit false

universe u v

abbrev Dict (Key : Type u) (Item : Type v) := AList fun _ : Key => Item

namespace Dict

variable {Key : Type u} {Item : Type v}

abbrev entry (k : Key) (item : Item) : Sigma fun _ : Key => Item := ⟨k, item⟩

theorem keys_append_entry (d : Dict Key Item) (k : Key) (item : Item) :
    (d.entries ++ [entry k item]).keys = d.keys ++ [k] := by
  simp [List.keys, AList.keys]

variable [DecidableEq Key] {d : Dict Key Item} {k other : Key} {item : Item}

def set (d : Dict Key Item) (k : Key) (item : Item) : Dict Key Item :=
  if inside : k ∈ d then d.replace k item
  else
    { entries := d.entries ++ [entry k item]
      nodupKeys := by
        unfold List.NodupKeys
        rw [keys_append_entry, List.nodup_append]
        refine ⟨d.keys_nodup, by simp, ?_⟩
        rintro a member b single rfl
        rw [List.mem_singleton.mp single] at member
        exact inside (AList.mem_keys.mpr member) }

theorem entries_set_of_notMem (absent : k ∉ d) (item : Item) :
    (d.set k item).entries = d.entries ++ [entry k item] := by
  unfold set
  rw [dif_neg absent]

theorem dlookup_kreplace (entries : List (Sigma fun _ : Key => Item)) (member : k ∈ entries.keys) :
    (entries.kreplace k item).dlookup other =
      if other = k then some item else entries.dlookup other := by
  induction entries with
  | nil => cases member
  | cons first rest ih =>
      obtain ⟨key, old⟩ := first
      unfold List.kreplace
      rw [List.lookmap_cons]
      by_cases here : k = key
      · subst here
        by_cases same : other = k
        · subst same
          simp
        · simp [same, List.dlookup_cons_ne]
      · have later : k ∈ rest.keys := by simpa [here] using member
        have rest_ := ih later
        unfold List.kreplace at rest_
        simp only [here, if_false]
        by_cases same : other = key
        · have different : other ≠ k := fun equal => here (equal ▸ same)
          subst same
          simp [different]
        · rw [List.dlookup_cons_ne _ _ same, List.dlookup_cons_ne _ _ same, rest_]

theorem lookup_set : (d.set k item).lookup other = if other = k then some item else d.lookup other := by
  unfold set
  split
  next inside => exact dlookup_kreplace d.entries inside
  next absent =>
    unfold AList.lookup
    rw [List.dlookup_append]
    by_cases same : other = k
    · subst same
      have none : d.entries.dlookup other = none := AList.lookup_eq_none.mpr absent
      simp [none]
    · simp [same, List.dlookup_cons_ne]

theorem mem_set : other ∈ d.set k item ↔ other = k ∨ other ∈ d := by
  rw [← AList.lookup_isSome, lookup_set, ← AList.lookup_isSome]
  split
  next same => simp [same]
  next different => simp [different]

theorem lookup_erase : (d.erase k).lookup other = if other = k then none else d.lookup other := by
  by_cases same : other = k
  · rw [if_pos same, same, AList.lookup_erase]
  · rw [if_neg same, AList.lookup_erase_ne same]

theorem perm_of_lookup (found : d.lookup k = some item) :
    d.entries.Perm (entry k item :: (d.erase k).entries) := by
  have member : entry k item ∈ d.entries := AList.mem_lookup_iff.mp found
  obtain ⟨old, front, rest, _, all, erased⟩ := List.exists_of_kerase (List.mem_keys_of_mem member)
  have same : old = item := by
    have there : entry k old ∈ d.entries := by
      rw [all]
      exact List.mem_append_right _ List.mem_cons_self
    have known : d.lookup k = some old := AList.mem_lookup_iff.mpr there
    rw [found, Option.some.injEq] at known
    exact known.symm
  change d.entries.Perm (entry k item :: d.entries.kerase k)
  rw [erased, all, same]
  exact List.perm_middle

theorem perm_of_lookup_eq {d e : Dict Key Item} (same : ∀ k, d.lookup k = e.lookup k) :
    d.entries.Perm e.entries := by
  apply List.lookup_ext d.nodupKeys e.nodupKeys
  intro k item
  change item ∈ d.lookup k ↔ item ∈ e.lookup k
  rw [same]

theorem perm_set : (d.set k item).entries.Perm (entry k item :: (d.erase k).entries) := by
  have assigned : (d.set k item).lookup k = some item := by rw [lookup_set, if_pos rfl]
  have others : ((d.set k item).erase k).entries.Perm (d.erase k).entries := by
    apply perm_of_lookup_eq
    intro other
    rw [lookup_erase, lookup_erase, lookup_set]
    split
    · rfl
    · rfl
  exact (perm_of_lookup assigned).trans (others.cons _)

theorem erase_of_notMem (absent : k ∉ d) : d.erase k = d :=
  AList.ext (List.kerase_of_notMem_keys fun inside => absent (AList.mem_keys.mpr inside))

end Dict
