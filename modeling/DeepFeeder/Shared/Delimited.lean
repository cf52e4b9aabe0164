import Mathlib.Data.List.Basic

set_option autoImplicit false

universe u

namespace Delimited

variable {Letter : Type u} {d : Letter}

def MovedInto (d : Letter) (a b a' b' : List Letter) : Prop := ∃ x, a' = a ++ d :: x ∧ b = x ++ d :: b'

def suffix (d : Letter) : Option (List Letter) → List Letter
  | none => []
  | some b => d :: b

def SuffixInto (d : Letter) (a : List Letter) (s : Option (List Letter)) (a' : List Letter)
    (s' : Option (List Letter)) : Prop := ∃ x, a' = a ++ d :: x ∧ s = some (x ++ suffix d s')

variable {a b a' b' : List Letter} {s s' : Option (List Letter)}

theorem MovedInto.joined (moved : MovedInto d a b a' b') : a ++ d :: b = a' ++ d :: b' := by
  obtain ⟨x, rfl, rfl⟩ := moved
  simp

theorem MovedInto.mem (moved : MovedInto d a b a' b') : d ∈ a' ∧ d ∈ b := by
  obtain ⟨x, rfl, rfl⟩ := moved
  simp

theorem MovedInto.ne (moved : MovedInto d a b a' b') : a ≠ a' := by
  obtain ⟨x, rfl, _⟩ := moved
  simp

theorem SuffixInto.joined (moved : SuffixInto d a s a' s') : a ++ suffix d s = a' ++ suffix d s' := by
  obtain ⟨x, rfl, rfl⟩ := moved
  simp [suffix]

theorem SuffixInto.mem (moved : SuffixInto d a s a' s') : d ∈ a' := by
  obtain ⟨x, rfl, _⟩ := moved
  simp

theorem SuffixInto.ne (moved : SuffixInto d a s a' s') : a ≠ a' := by
  obtain ⟨x, rfl, _⟩ := moved
  simp

/-- Two texts of two fields are the same when their fields are, or when the delimiter of one is inside
a field of the other. -/
theorem joined_eq_iff : a ++ d :: b = a' ++ d :: b' ↔
    (a = a' ∧ b = b') ∨ MovedInto d a b a' b' ∨ MovedInto d a' b' a b := by
  constructor
  next =>
      intro same
      rcases List.append_eq_append_iff.mp same with ⟨x, first, second⟩ | ⟨x, first, second⟩
      next =>
          cases x with
          | nil =>
              rw [List.append_nil] at first
              exact .inl ⟨first.symm, (List.cons.inj second).2⟩
          | cons c x =>
              obtain ⟨here, later⟩ := List.cons.inj second
              exact .inr (.inl ⟨x, here ▸ first, later⟩)
      next =>
          cases x with
          | nil =>
              rw [List.append_nil] at first
              exact .inl ⟨first, (List.cons.inj second).2.symm⟩
          | cons c x =>
              obtain ⟨here, later⟩ := List.cons.inj second
              exact .inr (.inr ⟨x, here ▸ first, later⟩)
  next =>
      rintro (⟨rfl, rfl⟩ | moved | moved)
      next => rfl
      next => exact moved.joined
      next => exact moved.joined.symm

theorem suffixed_eq_iff : a ++ suffix d s = a' ++ suffix d s' ↔
    (a = a' ∧ s = s') ∨ SuffixInto d a s a' s' ∨ SuffixInto d a' s' a s := by
  constructor
  next =>
      cases s with
      | none =>
          cases s' with
          | none =>
              intro same
              exact .inl ⟨by simpa [suffix] using same, rfl⟩
          | some b' =>
              intro same
              exact .inr (.inr ⟨b', by simpa [suffix] using same, by simp [suffix]⟩)
      | some b =>
          cases s' with
          | none =>
              intro same
              exact .inr (.inl ⟨b, by simpa [suffix] using same.symm, by simp [suffix]⟩)
          | some b' =>
              intro same
              rcases joined_eq_iff.mp same with ⟨first, second⟩ | ⟨x, first, second⟩ | ⟨x, first, second⟩
              next => exact .inl ⟨first, congrArg some second⟩
              next => exact .inr (.inl ⟨x, first, congrArg some second⟩)
              next => exact .inr (.inr ⟨x, first, congrArg some second⟩)
  next =>
      rintro (⟨rfl, rfl⟩ | moved | moved)
      next => rfl
      next => exact moved.joined
      next => exact moved.joined.symm

section Fields

variable [DecidableEq Letter] {fields : List (List Letter)}

theorem notMem_splitOn {d : Letter} {text field : List Letter} (member : field ∈ text.splitOn d) :
    d ∉ field := by
  induction text generalizing field with
  | nil =>
      rw [List.splitOn_nil, List.mem_singleton] at member
      rw [member]
      exact List.not_mem_nil
  | cons letter rest ih =>
      rw [List.splitOn_cons_eq_if_modifyHead] at member
      split at member
      next =>
        rcases List.mem_cons.mp member with rfl | later
        next => exact List.not_mem_nil
        next => exact ih later
      next other =>
        cases parts : rest.splitOn d with
        | nil => exact absurd parts (List.splitOn_ne_nil d rest)
        | cons first others =>
            rw [parts] at member ih
            rcases List.mem_cons.mp member with rfl | later
            next =>
              rw [List.mem_cons, not_or]
              exact ⟨fun same => other (by simp [same]), ih List.mem_cons_self⟩
            next => exact ih (List.mem_cons_of_mem _ later)

/-- Joined, split and each cleaned, a list of fields comes back when no field has the delimiter in it
and every field is clean. -/
theorem split_join_iff (d : Letter) {clean : List Letter → List Letter}
    (keeps : ∀ field, d ∉ field → d ∉ clean field) (some : fields ≠ []) :
    (([d].intercalate fields).splitOn d).map clean = fields ↔
      ∀ field ∈ fields, d ∉ field ∧ clean field = field := by
  constructor
  next =>
    intro same
    have plain : ∀ field ∈ fields, d ∉ field := by
      intro field member
      rw [← same] at member
      obtain ⟨part, inside, rfl⟩ := List.mem_map.mp member
      exact keeps part (notMem_splitOn inside)
    rw [List.splitOn_intercalate d plain some] at same
    intro field member
    exact ⟨plain field member, List.map_inj_left.mp (same.trans (List.map_id' _).symm) field member⟩
  next =>
    intro kept
    rw [List.splitOn_intercalate d (fun field member => (kept field member).1) some]
    exact (List.map_congr_left fun field member => (kept field member).2).trans (List.map_id' _)

omit [DecidableEq Letter] in
theorem join_eq_nil_iff (d : Letter) (some : fields ≠ []) :
    [d].intercalate fields = [] ↔ fields = [[]] := by
  cases fields with
  | nil => exact absurd rfl some
  | cons first rest =>
      cases rest with
      | nil => simp
      | cons second others => simp [List.intercalate_cons_cons]

end Fields

end Delimited
