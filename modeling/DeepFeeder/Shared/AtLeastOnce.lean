import Mathlib.Data.Finset.Card
import Mathlib.Order.Basic

set_option autoImplicit false

namespace AtLeastOnce

universe u

variable {Key : Type u} [LinearOrder Key]

def ahead (journal : List Key) (pos : Key) (current : Option Key) : Finset Key :=
  journal.toFinset.filter fun key => pos < key ∧ current ≠ some key

-- Every repetition so far, and every one that may still come, has its interruption.
def Repeats (journal : List Key) (pos : Key) (current : Option Key) (interruptions : Nat) : Prop :=
  journal.length + (ahead journal pos current).card ≤ journal.toFinset.card + interruptions

variable {journal : List Key} {pos key : Key} {current : Option Key} {interruptions : Nat}

theorem Repeats.start (pos : Key) : Repeats [] pos none 0 := by
  simp [Repeats, ahead]

theorem Repeats.length_le (repeats : Repeats journal pos current interruptions) :
    journal.length ≤ journal.toFinset.card + interruptions := by
  unfold Repeats at repeats
  omega

theorem Repeats.mono {more : Nat} (repeats : Repeats journal pos current interruptions)
    (le : interruptions ≤ more) : Repeats journal pos current more :=
  le_trans repeats (Nat.add_le_add_left le _)

theorem toFinset_concat (journal : List Key) (key : Key) :
    (journal ++ [key]).toFinset = insert key journal.toFinset := by
  ext other
  simp

theorem Repeats.append (repeats : Repeats journal pos none interruptions) (later : pos < key) :
    Repeats (journal ++ [key]) pos (some key) interruptions := by
  have left : ahead (journal ++ [key]) pos (some key) = (ahead journal pos none).erase key := by
    ext other
    simp only [ahead, toFinset_concat, Finset.mem_filter, Finset.mem_insert, Finset.mem_erase, ne_eq,
      Option.some.injEq, reduceCtorEq, not_false_eq_true, and_true]
    constructor
    next =>
      rintro ⟨inside, after, other⟩
      exact ⟨Ne.symm other, inside.resolve_left (Ne.symm other), after⟩
    next =>
      rintro ⟨other, inside, after⟩
      exact ⟨.inr inside, after, Ne.symm other⟩
  unfold Repeats at repeats ⊢
  rw [left, toFinset_concat, List.length_append, List.length_singleton]
  by_cases again : key ∈ journal
  next =>
    have member : key ∈ ahead journal pos none := by
      simp [ahead, again, later]
    have some := Finset.card_pos.mpr ⟨key, member⟩
    rw [Finset.card_erase_of_mem member, Finset.insert_eq_of_mem (List.mem_toFinset.mpr again)]
    omega
  next =>
    have less := Finset.card_erase_le (s := ahead journal pos none) (a := key)
    rw [Finset.card_insert_of_notMem (by simpa using again)]
    omega

theorem Repeats.commit (repeats : Repeats journal pos (some key) interruptions)
    (later : pos < key) : Repeats journal key none interruptions := by
  have fewer : (ahead journal key none).card ≤ (ahead journal pos (some key)).card := by
    apply Finset.card_le_card
    intro other member
    simp only [ahead, Finset.mem_filter] at member ⊢
    refine ⟨member.1, lt_trans later member.2.1, ?_⟩
    intro same
    exact absurd member.2.1 (Option.some.inj same ▸ lt_irrefl _)
  unfold Repeats at repeats ⊢
  omega

theorem Repeats.interrupt {pos' : Key} (repeats : Repeats journal pos current interruptions)
    (later : pos ≤ pos') : Repeats journal pos' none (interruptions + 1) := by
  have fewer : (ahead journal pos' none).card ≤ (ahead journal pos current).card + 1 := by
    cases current with
    | none =>
        refine le_trans (Finset.card_le_card ?_) (Nat.le_succ _)
        intro other member
        simp only [ahead, Finset.mem_filter] at member ⊢
        exact ⟨member.1, lt_of_le_of_lt later member.2.1, by simp⟩
    | some key =>
        refine le_trans (Finset.card_le_card ?_) (Finset.card_insert_le key _)
        intro other member
        simp only [ahead, Finset.mem_filter, Finset.mem_insert] at member ⊢
        by_cases same : other = key
        next => exact .inl same
        next =>
          refine .inr ⟨member.1, lt_of_le_of_lt later member.2.1, ?_⟩
          intro here
          exact same (Option.some.inj here).symm
  unfold Repeats at repeats ⊢
  omega

end AtLeastOnce
