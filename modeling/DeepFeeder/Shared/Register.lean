import Mathlib.Data.List.Basic

set_option autoImplicit false

namespace Register

universe u

variable {Value : Type u} (beats : Value → Value → Bool)

def put (old : Option Value) (new : Value) : Option Value :=
  match old with
  | none => some new
  | some current => if beats new current then some new else some current

def puts (old : Option Value) (news : List Value) : Option Value := news.foldl (put beats) old

variable {beats} {old : Option Value} {new current top : Value} {news : List Value}

theorem put_of_beats (wins : ∀ c ∈ old, beats new c = true) : put beats old new = some new := by
  cases old with
  | none => rfl
  | some c => simp [put, wins c rfl]

theorem put_of_blocked (blocked : beats new current = false) :
    put beats (some current) new = some current := by
  simp [put, blocked]

theorem put_cases (beats : Value → Value → Bool) (old : Option Value) (new : Value) :
    (put beats old new = some new ∧ ∀ c ∈ old, beats new c = true) ∨
      ∃ c, old = some c ∧ beats new c = false ∧ put beats old new = some c := by
  cases old with
  | none => exact .inl ⟨rfl, by simp⟩
  | some c =>
      cases wins : beats new c with
      | true => exact .inl ⟨by simp [put, wins], by simpa using wins⟩
      | false => exact .inr ⟨c, rfl, wins, put_of_blocked wins⟩

theorem put_twice (beats : Value → Value → Bool) (old : Option Value) (new : Value) :
    put beats (put beats old new) new = put beats old new := by
  rcases put_cases beats old new with ⟨written, _⟩ | ⟨c, _, blocked, kept⟩
  · rw [written]
    by_cases again : beats new new = true
    · simp [put, again]
    · simp [put, again]
  · rw [kept]
    exact put_of_blocked blocked

theorem puts_append (beats : Value → Value → Bool) (old : Option Value) (first second : List Value) :
    puts beats old (first ++ second) = puts beats (puts beats old first) second :=
  List.foldl_append

theorem puts_cons (beats : Value → Value → Bool) (old : Option Value) (new : Value)
    (news : List Value) : puts beats old (new :: news) = puts beats (put beats old new) news := rfl

theorem puts_blocked (blocked : ∀ v ∈ news, beats v current = false) :
    puts beats (some current) news = some current := by
  induction news with
  | nil => rfl
  | cons v rest ih =>
      rw [puts_cons, put_of_blocked (blocked v (by simp))]
      exact ih fun w later => blocked w (List.mem_cons_of_mem _ later)

theorem mem_or_eq_of_puts {value : Value} (held : puts beats old news = some value) :
    value ∈ news ∨ old = some value := by
  induction news generalizing old with
  | nil => exact .inr held
  | cons v rest ih =>
      rw [puts_cons] at held
      rcases ih held with later | here
      · exact .inl (List.mem_cons_of_mem _ later)
      · rcases put_cases beats old v with ⟨written, _⟩ | ⟨c, kept, _, same⟩
        · rw [written, Option.some.injEq] at here
          exact .inl (here ▸ List.mem_cons_self)
        · rw [same] at here
          exact .inr (kept.trans here)

theorem mem_of_puts_won {value : Value} (won : ∃ v ∈ news, beats v current = true)
    (held : puts beats (some current) news = some value) : value ∈ news := by
  induction news with
  | nil => simp at won
  | cons v rest ih =>
      rw [puts_cons] at held
      cases first : beats v current with
      | true =>
          rw [put_of_beats (by simpa using first)] at held
          rcases mem_or_eq_of_puts held with later | here
          · exact List.mem_cons_of_mem _ later
          · exact Option.some.inj here ▸ List.mem_cons_self
      | false =>
          rw [put_of_blocked first] at held
          obtain ⟨w, member, wins⟩ := won
          rcases List.mem_cons.mp member with rfl | later
          · rw [first] at wins
            cases wins
          · exact List.mem_cons_of_mem _ (ih ⟨w, later, wins⟩ held)

-- A value that wins against all others is what the register ends with exactly when it is itself the
-- last of those that win against it.
theorem puts_eq_top_iff (member : top ∈ news) (dominates : ∀ v ∈ news, beats top v = true)
    (wins : ∀ c ∈ old, beats top c = true) :
    puts beats old news = some top ↔ (news.filter fun v => beats v top).getLast? = some top := by
  have inside : top ∈ news.filter fun v => beats v top :=
    List.mem_filter.mpr ⟨member, dominates top member⟩
  obtain ⟨last, isLast⟩ : ∃ last, (news.filter fun v => beats v top).getLast? = some last :=
    ⟨_, List.getLast?_eq_some_getLast (List.ne_nil_of_mem inside)⟩
  -- After `last` nothing wins against `top` any more.
  obtain ⟨before, after, rfl, strong, weak⟩ : ∃ before after, news = before ++ last :: after ∧
      beats last top = true ∧ ∀ v ∈ after, beats v top = false := by
    obtain ⟨front, split⟩ := List.getLast?_eq_some_iff.mp isLast
    obtain ⟨head, tail, rfl, _, tailSplit⟩ := List.filter_eq_append_iff.mp split
    obtain ⟨skipped, after, rfl, _, strong, none⟩ := List.filter_eq_cons_iff.mp tailSplit
    refine ⟨head ++ skipped, after, by simp, strong, ?_⟩
    intro v later
    simpa using List.filter_eq_nil_iff.mp none v later
  have state : ∀ c ∈ puts beats old before, beats top c = true := by
    intro c held
    rcases mem_or_eq_of_puts held with early | start
    · exact dominates c (List.mem_append_left _ early)
    · exact wins c start
  rw [isLast, Option.some.injEq, puts_append, puts_cons]
  constructor
  · intro ends
    rcases mem_or_eq_of_puts ends with later | here
    · have self := dominates top member
      rw [weak top later] at self
      cases self
    · rcases put_cases beats (puts beats old before) last with ⟨written, _⟩ | ⟨c, held, blocked, same⟩
      · exact Option.some.inj (written.symm.trans here)
      · have isTop : c = top := Option.some.inj (same.symm.trans here)
        rw [isTop, strong] at blocked
        cases blocked
  · rintro rfl
    rw [put_of_beats state]
    exact puts_blocked weak

end Register
