import Mathlib.Data.List.Forall2

set_option autoImplicit false

namespace Fallible

universe u v

variable {α : Type u} {β γ : Type v}

theorem mapM_cons_map (f : α → Option β) (a : α) (rest : List α) :
    (a :: rest).mapM f = (f a).bind fun b => (rest.mapM f).map fun bs => b :: bs := by
  rw [List.mapM_cons]
  cases f a with
  | none => rfl
  | some b => cases rest.mapM f <;> rfl

theorem mapM_map (f : α → Option β) (g : β → γ) (items : List α) :
    (items.mapM fun a => (f a).map g) = (items.mapM f).map fun bs => bs.map g := by
  induction items with
  | nil => rfl
  | cons a rest ih =>
      rw [mapM_cons_map, mapM_cons_map, ih]
      cases f a with
      | none => rfl
      | some b => cases rest.mapM f <;> rfl

theorem mapM_bind {δ : Type v} (f : α → Option β) (g : β → Option δ) (items : List α) :
    (items.mapM f).bind (fun made => made.mapM g) = items.mapM fun a => (f a).bind g := by
  induction items with
  | nil => rfl
  | cons a rest ih =>
      rw [mapM_cons_map, mapM_cons_map, ← ih]
      cases f a with
      | none => rfl
      | some b =>
          cases rest.mapM f with
          | none =>
              simp only [Option.bind_some]
              cases g b <;> rfl
          | some made => exact mapM_cons_map g b made

theorem mapM_zipWith (f : α → Option β) (g : α → Option (List β)) (items : List α) :
    (items.mapM fun a => (f a).bind fun b => (g a).map fun bs => b :: bs) =
      (items.mapM f).bind fun col =>
        (items.mapM g).map fun rows => List.zipWith (fun b bs => b :: bs) col rows := by
  induction items with
  | nil => rfl
  | cons a rest ih =>
      rw [mapM_cons_map, mapM_cons_map, mapM_cons_map, ih]
      cases f a with
      | none => rfl
      | some b =>
          cases g a with
          | none => cases rest.mapM f <;> rfl
          | some bs =>
              cases rest.mapM f with
              | none => rfl
              | some col => cases rest.mapM g <;> rfl

theorem mapM_eq_some_iff {f : α → Option β} {items : List α} {made : List β} :
    items.mapM f = some made ↔ List.Forall₂ (fun a b => f a = some b) items made := by
  induction items generalizing made with
  | nil =>
      rw [List.mapM_nil, List.forall₂_nil_left_iff]
      exact Option.some_inj.trans eq_comm
  | cons a rest ih =>
      rw [mapM_cons_map, List.forall₂_cons_left_iff, Option.bind_eq_some_iff]
      constructor
      · rintro ⟨b, first, all⟩
        obtain ⟨bs, later, rfl⟩ := Option.map_eq_some_iff.mp all
        exact ⟨b, bs, first, ih.mp later, rfl⟩
      · rintro ⟨b, bs, first, later, rfl⟩
        exact ⟨b, first, Option.map_eq_some_iff.mpr ⟨bs, ih.mpr later, rfl⟩⟩

theorem mapM_forall₂_iff {f : α → Option β} {related : α → β → Prop} {items : List α} :
    (∃ made, items.mapM f = some made ∧ List.Forall₂ related items made) ↔
      ∀ a ∈ items, ∃ b, f a = some b ∧ related a b := by
  induction items with
  | nil => simp
  | cons a rest ih =>
      rw [List.forall_mem_cons, ← ih]
      constructor
      · rintro ⟨made, all, pairs⟩
        rw [mapM_cons_map, Option.bind_eq_some_iff] at all
        obtain ⟨b, first, later⟩ := all
        obtain ⟨bs, done, rfl⟩ := Option.map_eq_some_iff.mp later
        obtain ⟨here, there⟩ := List.forall₂_cons.mp pairs
        exact ⟨⟨b, first, here⟩, bs, done, there⟩
      · rintro ⟨⟨b, first, here⟩, bs, done, there⟩
        refine ⟨b :: bs, ?_, .cons here there⟩
        rw [mapM_cons_map, first, done]
        rfl

theorem map_of_mapM {f : α → Option β} {g : β → γ} {h : α → γ} {items : List α} {made : List β}
    (all : items.mapM f = some made) (each : ∀ a ∈ items, ∀ b, f a = some b → g b = h a) :
    made.map g = items.map h := by
  have pairs := mapM_eq_some_iff.mp all
  clear all
  induction pairs with
  | nil => rfl
  | cons first _ ih =>
      rw [List.map_cons, List.map_cons, each _ List.mem_cons_self _ first,
        ih fun a member => each a (List.mem_cons_of_mem _ member)]

theorem map_some_of_mapM {f : α → Option β} {items : List α} {made : List β}
    (all : items.mapM f = some made) : made.map some = items.map f :=
  map_of_mapM all fun _ _ _ first => first.symm

end Fallible
