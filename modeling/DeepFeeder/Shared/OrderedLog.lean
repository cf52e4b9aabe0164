import Mathlib.Order.Basic
import Mathlib.Order.Lattice
import Mathlib.Data.List.Sort

set_option autoImplicit false

namespace OrderedLog

universe u

variable {Key : Type u} [LinearOrder Key]

-- After `pos` the source is in order, and up to its own newest entry it lacks nothing of the log but
-- what is `done`.
structure Covers (log : List Key) (pos : Key) (done : Key → Prop) (source : List Key) : Prop where
  ascending : (source.filter (pos < ·)).Pairwise (· < ·)
  gapFree : ∀ j ∈ source, ∀ i ∈ log, pos < i → i < j → i ∈ source ∨ done i

structure Next (log : List Key) (pos : Key) (done : Key → Prop) (taken : List Key) : Prop where
  ascending : taken.Pairwise (· < ·)
  logged : ∀ i ∈ taken, i ∈ log
  above : ∀ i ∈ taken, pos < i
  gapFree : ∀ j ∈ taken, ∀ i ∈ log, pos < i → i < j → i ∈ taken ∨ done i

structure Handled (log : List Key) (start pos : Key) (handled : List Key) : Prop where
  ascending : handled.Pairwise (· < ·)
  upto : ∀ i ∈ handled, i ≤ pos
  complete : ∀ i ∈ log, start < i → i ≤ pos → i ∈ handled

theorem mem_take_of_lt {entries : List Key} (ascending : entries.Pairwise (· < ·)) (n : Nat)
    {i j : Key} (member : i ∈ entries) (taken : j ∈ entries.take n) (less : i < j) :
    i ∈ entries.take n := by
  rw [← List.take_append_drop n entries] at member ascending
  rcases List.mem_append.mp member with inside | later
  · exact inside
  · have order := (List.pairwise_append.mp ascending).2.2 j taken i later
    exact absurd order (lt_asymm less)

namespace Covers

variable {log source : List Key} {pos : Key} {done : Key → Prop}

instance [DecidablePred done] : Decidable (Covers log pos done source) :=
  decidable_of_iff ((source.filter (pos < ·)).Pairwise (· < ·) ∧
      ∀ j ∈ source, ∀ i ∈ log, pos < i → i < j → i ∈ source ∨ done i)
    ⟨fun ⟨ascending, gapFree⟩ => ⟨ascending, gapFree⟩,
      fun covers => ⟨covers.ascending, covers.gapFree⟩⟩

theorem next (covers : Covers log pos done source) (logged : ∀ i ∈ source, i ∈ log) (n : Nat) :
    Next log pos done ((source.filter (pos < ·)).take n) where
  ascending := covers.ascending.sublist (List.take_sublist n _)
  logged i taken := logged i (List.mem_filter.mp (List.mem_of_mem_take taken)).1
  above i taken := by simpa using (List.mem_filter.mp (List.mem_of_mem_take taken)).2
  gapFree := by
    intro j taken i member above less
    have inside := (List.mem_filter.mp (List.mem_of_mem_take taken)).1
    rcases covers.gapFree j inside i member above less with held | finished
    · refine .inl (mem_take_of_lt covers.ascending n ?_ taken less)
      exact List.mem_filter.mpr ⟨held, by simpa using above⟩
    · exact .inr finished

theorem of_complete (ascending : source.Pairwise (· < ·))
    (complete : ∀ i ∈ log, pos < i → i ∈ source ∨ done i) : Covers log pos done source where
  ascending := ascending.filter _
  gapFree _ _ i member above _ := complete i member above

end Covers

namespace Next

variable {log rest : List Key} {pos entry : Key} {done : Key → Prop}

theorem nil : Next log pos done [] where
  ascending := List.Pairwise.nil
  logged := by simp
  above := by simp
  gapFree := by simp

theorem weaken {taken : List Key} (next : Next log pos done taken) {more : Key → Prop}
    (implied : ∀ i, done i → more i) : Next log pos more taken where
  ascending := next.ascending
  logged := next.logged
  above := next.above
  gapFree j inside i member above less :=
    (next.gapFree j inside i member above less).imp_right (implied i)

theorem append_log {taken : List Key} (next : Next log pos done taken) {new : Key}
    (newest : ∀ i ∈ log, i < new) : Next (log ++ [new]) pos done taken where
  ascending := next.ascending
  logged i inside := List.mem_append_left _ (next.logged i inside)
  above := next.above
  gapFree := by
    intro j inside i member above less
    rcases List.mem_append.mp member with old | last
    · exact next.gapFree j inside i old above less
    · rw [List.mem_singleton] at last
      subst i
      have order := newest j (next.logged j inside)
      exact absurd order (lt_asymm less)

theorem before_head (next : Next log pos done (entry :: rest)) {i : Key} (member : i ∈ log)
    (above : pos < i) (less : i < entry) : done i := by
  rcases next.gapFree entry (by simp) i member above less with inside | finished
  · have order := List.pairwise_cons.mp next.ascending
    rcases List.mem_cons.mp inside with same | later
    · exact absurd less (same ▸ lt_irrefl i)
    · exact absurd less (lt_asymm (order.1 i later))
  · exact finished

theorem tail (next : Next log pos done (entry :: rest)) : Next log entry done rest where
  ascending := (List.pairwise_cons.mp next.ascending).2
  logged i later := next.logged i (List.mem_cons_of_mem _ later)
  above := (List.pairwise_cons.mp next.ascending).1
  gapFree := by
    intro j later i member above less
    have start := next.above entry (by simp)
    rcases next.gapFree j (List.mem_cons_of_mem _ later) i member (lt_trans start above) less with
      inside | finished
    · rcases List.mem_cons.mp inside with same | held
      · exact absurd above (same ▸ lt_irrefl i)
      · exact .inl held
    · exact .inr finished

theorem skip (next : Next log pos done (entry :: rest)) (finished : done entry) :
    Next log pos done rest where
  ascending := (List.pairwise_cons.mp next.ascending).2
  logged i later := next.logged i (List.mem_cons_of_mem _ later)
  above i later := next.above i (List.mem_cons_of_mem _ later)
  gapFree := by
    intro j later i member above less
    rcases next.gapFree j (List.mem_cons_of_mem _ later) i member above less with inside | earlier
    · rcases List.mem_cons.mp inside with same | held
      · exact .inr (same ▸ finished)
      · exact .inl held
    · exact .inr earlier

end Next

namespace Handled

variable {log handled : List Key} {start pos : Key}

theorem append_log (h : Handled log start pos handled) {new : Key}
    (newest : new ≤ start ∨ pos < new) : Handled (log ++ [new]) start pos handled where
  ascending := h.ascending
  upto := h.upto
  complete := by
    intro i member above le
    rcases List.mem_append.mp member with old | last
    · exact h.complete i old above le
    · rw [List.mem_singleton] at last
      subst i
      rcases newest with early | late
      · exact absurd above (not_lt_of_ge early)
      · exact absurd le (not_le_of_gt late)

theorem advance (h : Handled log start pos handled) {entry : Key} {rest : List Key}
    (next : Next log pos (fun _ => False) (entry :: rest)) :
    Handled log start entry (handled ++ [entry]) where
  ascending := by
    rw [List.pairwise_append]
    refine ⟨h.ascending, by simp, ?_⟩
    intro i old last inserted
    rw [List.mem_singleton] at inserted
    subst last
    exact lt_of_le_of_lt (h.upto i old) (next.above _ (by simp))
  upto := by
    intro i member
    rcases List.mem_append.mp member with old | last
    · exact le_trans (h.upto i old) (le_of_lt (next.above _ (by simp)))
    · rw [List.mem_singleton] at last
      exact le_of_eq last
  complete := by
    intro i member above le
    rcases lt_or_eq_of_le le with less | same
    · rcases le_or_gt i pos with behind | ahead
      · exact List.mem_append_left _ (h.complete i member above behind)
      · exact (next.before_head member ahead less).elim
    · exact List.mem_append_right _ (by simp [same])

end Handled

def behind (log : List Key) (pos key : Key) : Nat := log.countP fun i => pos < i ∧ i ≤ key

section Behind

variable {log : List Key} {pos key : Key}

theorem behind_append_log (member : key ∈ log) {new : Key} (newest : ∀ i ∈ log, i < new) :
    behind (log ++ [new]) pos key = behind log pos key := by
  have later : ¬ (pos < new ∧ new ≤ key) := fun between =>
    absurd (newest key member) (not_lt_of_ge between.2)
  rw [behind, List.countP_append, List.countP_singleton, if_neg (by simpa using later)]
  rfl

theorem behind_lt {entry : Key} (member : entry ∈ log) (above : pos < entry) (le : entry ≤ key) :
    behind log entry key < behind log pos key := by
  obtain ⟨before, after, rfl⟩ := List.append_of_mem member
  have fewer (part : List Key) : behind part entry key ≤ behind part pos key := by
    apply List.countP_mono_left
    intro i _ between
    rw [decide_eq_true_eq] at between ⊢
    exact ⟨lt_trans above between.1, between.2⟩
  have first := fewer before
  have second := fewer after
  unfold behind at first second ⊢
  rw [List.countP_append, List.countP_append, List.countP_cons, List.countP_cons,
    if_neg (by simp), if_pos (by simpa using ⟨above, le⟩)]
  omega

end Behind

end OrderedLog
