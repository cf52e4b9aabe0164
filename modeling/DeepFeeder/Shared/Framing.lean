import Mathlib.Data.List.Basic

set_option autoImplicit false

namespace Framing

variable {α β : Type}

section Split

variable [DecidableEq α]

def splitOnce (separator : List α) : List α → Option (List α × List α)
  | [] => if separator = [] then some ([], []) else none
  | c :: rest =>
      if separator.isPrefixOf (c :: rest) then some ([], (c :: rest).drop separator.length)
      else (splitOnce separator rest).map fun parts => (c :: parts.1, parts.2)

theorem splitOnce_sound {separator text before after : List α}
    (found : splitOnce separator text = some (before, after)) :
    text = before ++ separator ++ after := by
  induction text generalizing before with
  | nil =>
      rw [splitOnce] at found
      split at found
      next blank =>
          cases found
          rw [blank, List.append_nil, List.append_nil]
      next => cases found
  | cons c rest ih =>
      rw [splitOnce] at found
      split at found
      next start =>
          obtain ⟨tail, joined⟩ := List.isPrefixOf_iff_prefix.mp start
          cases found
          rw [← joined, List.drop_left, List.nil_append]
      next =>
          obtain ⟨parts, later, equal⟩ := Option.map_eq_some_iff.mp found
          cases equal
          rw [List.cons_append, List.cons_append, ← ih later]

theorem splitOnce_behind {c : α} {before : List α} (absent : c ∉ before) (mark after : List α) :
    splitOnce (c :: mark) (before ++ (c :: mark) ++ after) = some (before, after) := by
  induction before with
  | nil =>
      have start : (c :: mark).isPrefixOf (c :: (mark ++ after)) = true :=
        List.isPrefixOf_iff_prefix.mpr ⟨after, List.cons_append⟩
      rw [List.nil_append, List.cons_append, splitOnce, if_pos start, ← List.cons_append,
        List.drop_left]
  | cons d rest ih =>
      have other : ¬ (c :: mark).isPrefixOf (d :: (rest ++ (c :: mark) ++ after)) = true := by
        intro start
        obtain ⟨tail, joined⟩ := List.isPrefixOf_iff_prefix.mp start
        exact absent (List.mem_cons.mpr (.inl (List.cons.inj joined).1))
      rw [List.cons_append, List.cons_append, splitOnce, if_neg other,
        ih fun inside => absent (List.mem_cons_of_mem d inside), Option.map_some]

end Split

-- Where `text[:n]` ends and `text[n:]` starts; a negative n counts from the end.
def cut (n : Int) (text : List α) : Nat := if 0 ≤ n then n.toNat else text.length - (-n).toNat

def sliceTo (n : Int) (text : List α) : List α := text.take (cut n text)

def sliceFrom (n : Int) (text : List α) : List α := text.drop (cut n text)

theorem sliceTo_append_sliceFrom (n : Int) (text : List α) :
    sliceTo n text ++ sliceFrom n text = text :=
  List.take_append_drop (cut n text) text

theorem slices_length (front back : List α) :
    sliceTo front.length (front ++ back) = front ∧
      sliceFrom front.length (front ++ back) = back := by
  have here : cut front.length (front ++ back) = front.length := by
    rw [cut, if_pos (Int.natCast_nonneg front.length), Int.toNat_natCast]
  exact ⟨by rw [sliceTo, here, List.take_left], by rw [sliceFrom, here, List.drop_left]⟩

inductive Within : List (List α) → List α → Prop
  | nil (text : List α) : Within [] text
  | cons (gap part : List α) {parts : List (List α)} {rest : List α} :
      Within parts rest → Within (part :: parts) (gap ++ part ++ rest)

section Drain

-- Read parts until none can be read; none where the passes do not suffice.
def drain (next : List α → Option (β × List α)) : Nat → List α → Option (List β)
  | 0, _ => none
  | passes + 1, text =>
      match next text with
      | none => some []
      | some (part, rest) => (drain next passes rest).map (part :: ·)

variable {next : List α → Option (β × List α)} {passes : Nat} {text rest : List α} {part : β}

theorem drain_stop (stopped : next text = none) : drain next (passes + 1) text = some [] := by
  rw [drain, stopped]

theorem drain_part (read : next text = some (part, rest)) :
    drain next (passes + 1) text = (drain next passes rest).map (part :: ·) := by
  rw [drain, read]

-- Each part shortens the text, so as many passes as it has letters and one more suffice.
theorem drain_enough
    (shrinks : ∀ text part rest, next text = some (part, rest) → rest.length < text.length) :
    ∃ parts, ∀ passes, text.length < passes → drain next passes text = some parts := by
  induction size : text.length using Nat.strongRecOn generalizing text with
  | ind length ih =>
      cases read : next text with
      | none =>
          refine ⟨[], fun passes many => ?_⟩
          obtain ⟨fewer, rfl⟩ := Nat.exists_eq_succ_of_ne_zero (Nat.ne_of_gt (Nat.zero_lt_of_lt many))
          exact drain_stop read
      | some found =>
          have shorter := shrinks text found.1 found.2 read
          obtain ⟨parts, later⟩ := ih found.2.length (size ▸ shorter) rfl
          refine ⟨found.1 :: parts, fun passes many => ?_⟩
          obtain ⟨fewer, rfl⟩ := Nat.exists_eq_succ_of_ne_zero (Nat.ne_of_gt (Nat.zero_lt_of_lt many))
          rw [drain_part read, later fewer (by omega), Option.map_some]

theorem drain_encoded {encode : β → List α} (stops : next [] = none)
    (reads : ∀ item rest, next (encode item ++ rest) = some (item, rest)) {items : List β}
    (many : items.length < passes) : drain next passes (items.flatMap encode) = some items := by
  induction items generalizing passes with
  | nil =>
      obtain ⟨fewer, rfl⟩ := Nat.exists_eq_succ_of_ne_zero (Nat.ne_of_gt many)
      exact drain_stop stops
  | cons item items ih =>
      obtain ⟨fewer, rfl⟩ := Nat.exists_eq_succ_of_ne_zero (Nat.ne_of_gt (Nat.zero_lt_of_lt many))
      rw [List.flatMap_cons, drain_part (reads item _), ih (Nat.lt_of_succ_lt_succ many),
        Option.map_some]

theorem drain_within {letters : β → List α} {parts : List β}
    (stands : ∀ text part rest, next text = some (part, rest) →
      ∃ gap, text = gap ++ letters part ++ rest)
    (drained : drain next passes text = some parts) : Within (parts.map letters) text := by
  induction passes generalizing text parts with
  | zero => cases drained
  | succ passes ih =>
      cases read : next text with
      | none =>
          rw [drain_stop read] at drained
          cases drained
          exact .nil text
      | some found =>
          rw [drain_part read] at drained
          obtain ⟨later, inner, rfl⟩ := Option.map_eq_some_iff.mp drained
          obtain ⟨gap, joined⟩ := stands text found.1 found.2 read
          rw [joined, List.map_cons]
          exact .cons gap (letters found.1) (ih inner)

end Drain

end Framing
