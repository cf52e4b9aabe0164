import DeepFeeder.Shared.Keyset

set_option autoImplicit false

namespace Keyset

universe u v

variable {Row : Type u} {Key : Type v} [LinearOrder Key] {key : Row → Key}

def Ascending (key : Row → Key) (rows : List Row) : Prop := rows.Pairwise fun a b => key a < key b

theorem Ascending.nodup {rows : List Row} (ascending : Ascending key rows) : rows.Nodup :=
  ascending.imp fun less same => absurd (same ▸ less) (lt_irrefl _)

theorem ascending_append {page later : List Row} {bound : Key} (ofPage : Ascending key page)
    (ofLater : Ascending key later) (upTo : ∀ r ∈ page, key r ≤ bound)
    (above : ∀ r ∈ later, bound < key r) : Ascending key (page ++ later) := by
  refine List.pairwise_append.mpr ⟨ofPage, ofLater, ?_⟩
  intro a inPage b inLater
  exact lt_of_le_of_lt (upTo a inPage) (above b inLater)

theorem ascending_insertionSort {rows : List Row} (distinct : (rows.map key).Nodup) :
    Ascending key (rows.insertionSort (before key)) := by
  have sorted := List.pairwise_insertionSort (before key) rows
  have keys : ((rows.insertionSort (before key)).map key).Nodup :=
    ((List.perm_insertionSort (before key) rows).map key).nodup_iff.mpr distinct
  rw [List.Nodup, List.pairwise_map] at keys
  exact (sorted.and keys).imp fun both => lt_of_le_of_ne both.1 both.2

variable {rows : List Row} {pageRows : Nat} {cursor : Key}

theorem fetch_ascending (ascending : Ascending key rows) :
    Ascending key (fetch key rows pageRows cursor) :=
  (ascending.filter _).sublist (List.take_sublist _ _)

theorem mem_of_fetch {r : Row} (member : r ∈ fetch key rows pageRows cursor) :
    r ∈ rows ∧ cursor < key r := by
  have kept := List.mem_filter.mp (List.mem_of_mem_take member)
  exact ⟨kept.1, of_decide_eq_true kept.2⟩

theorem le_last_of_fetch {r last : Row} (ascending : Ascending key rows)
    (ends : (fetch key rows pageRows cursor).getLast? = some last)
    (member : r ∈ fetch key rows pageRows cursor) : key r ≤ key last := by
  obtain ⟨front, split⟩ := List.getLast?_eq_some_iff.mp ends
  have page : Ascending key (fetch key rows pageRows cursor) := fetch_ascending ascending
  rw [split] at page member
  rcases List.mem_append.mp member with early | isLast
  · exact le_of_lt ((List.pairwise_append.mp page).2.2 r early last (List.mem_singleton_self last))
  · exact le_of_eq (by rw [List.mem_singleton.mp isLast])

theorem fetch_or_later {r last : Row} (ascending : Ascending key rows)
    (ends : (fetch key rows pageRows cursor).getLast? = some last) (member : r ∈ rows)
    (above : cursor < key r) : r ∈ fetch key rows pageRows cursor ∨ key last < key r := by
  have kept : r ∈ rows.filter fun r => cursor < key r :=
    List.mem_filter.mpr ⟨member, decide_eq_true above⟩
  have selected : Ascending key (rows.filter fun r => cursor < key r) := ascending.filter _
  rw [← List.take_append_drop pageRows (rows.filter fun r => cursor < key r)] at kept selected
  rcases List.mem_append.mp kept with inPage | dropped
  · exact .inl inPage
  · have across := (List.pairwise_append.mp selected).2.2
    exact .inr (across last (List.mem_of_getLast? ends) r dropped)

theorem fetch_eq_nil (positive : 0 < pageRows)
    (ends : (fetch key rows pageRows cursor).getLast? = none) {r : Row} (member : r ∈ rows) :
    ¬ cursor < key r := by
  intro above
  rw [List.getLast?_eq_none_iff, fetch, List.take_eq_nil_iff] at ends
  rcases ends with zero | none
  · omega
  · have kept : r ∈ rows.filter fun r => cursor < key r :=
      List.mem_filter.mpr ⟨member, decide_eq_true above⟩
    rw [none] at kept
    cases kept

variable (key)

def growingPages (tables : Nat → List Row) (pageRows : Nat) :
    Nat → Nat → Key → Option (List (List Row))
  | 0, _, _ => none
  | fuel + 1, n, cursor =>
      match (fetch key (tables n) pageRows cursor).getLast? with
      | none => some []
      | some last =>
          (growingPages tables pageRows fuel (n + 1) (key last)).map fun later =>
            fetch key (tables n) pageRows cursor :: later

structure Grows (tables : Nat → List Row) : Prop where
  ascending : ∀ n, Ascending key (tables n)
  kept : ∀ n, tables n ⊆ tables (n + 1)
  settled : ∃ settledAt, ∀ n, settledAt ≤ n → tables n = tables settledAt

structure ReadsOnce (tables : Nat → List Row) (n : Nat) (cursor : Key) (read : List Row) : Prop where
  ascending : Ascending key read
  sound : ∀ r ∈ read, cursor < key r ∧ ∃ m, n ≤ m ∧ r ∈ tables m
  complete : ∀ r ∈ tables n, cursor < key r → r ∈ read

variable {key} {tables : Nat → List Row}

theorem ReadsOnce.cons {n : Nat} {last : Row} {later : List Row} (grows : Grows key tables)
    (ends : (fetch key (tables n) pageRows cursor).getLast? = some last)
    (rest : ReadsOnce key tables (n + 1) (key last) later) :
    ReadsOnce key tables n cursor (fetch key (tables n) pageRows cursor ++ later) := by
  have ascending := grows.ascending n
  have lastAbove := (mem_of_fetch (List.mem_of_getLast? ends)).2
  constructor
  next =>
    exact ascending_append (fetch_ascending ascending) rest.ascending
      (fun r member => le_last_of_fetch ascending ends member) fun r member => (rest.sound r member).1
  next =>
    intro r member
    rcases List.mem_append.mp member with inPage | inLater
    · obtain ⟨stored, above⟩ := mem_of_fetch inPage
      exact ⟨above, n, le_refl n, stored⟩
    · obtain ⟨above, m, after, stored⟩ := rest.sound r inLater
      exact ⟨lt_trans lastAbove above, m, by omega, stored⟩
  next =>
    intro r stored above
    rcases fetch_or_later ascending ends stored above with inPage | beyond
    · exact List.mem_append_left _ inPage
    · exact List.mem_append_right _ (rest.complete r (grows.kept n stored) beyond)

theorem growingPages_reads (grows : Grows key tables) (positive : 0 < pageRows) {fuel n : Nat}
    {read : List (List Row)} (result : growingPages key tables pageRows fuel n cursor = some read) :
    ReadsOnce key tables n cursor read.flatten := by
  induction fuel generalizing n cursor read with
  | zero => cases result
  | succ fuel ih =>
      unfold growingPages at result
      split at result
      next ends =>
        cases result
        refine ⟨.nil, by simp, ?_⟩
        intro r stored above
        exact absurd above (fetch_eq_nil positive ends stored)
      next last ends =>
        obtain ⟨later, found, rfl⟩ := Option.map_eq_some_iff.mp result
        rw [List.flatten_cons]
        exact (ih found).cons grows ends

theorem countP_lt_of_mem {p q : Row → Bool} {rows : List Row} {r : Row}
    (weaker : ∀ a, p a = true → q a = true) (member : r ∈ rows) (dropped : ¬ p r = true)
    (counted : q r = true) : rows.countP p < rows.countP q := by
  induction rows with
  | nil => cases member
  | cons head tail ih =>
      have rest : tail.countP p ≤ tail.countP q := List.countP_mono_left fun a _ => weaker a
      rcases List.mem_cons.mp member with rfl | inTail
      · rw [List.countP_cons_of_neg dropped, List.countP_cons_of_pos counted]
        omega
      · have fewer := ih inTail
        by_cases chosen : p head = true
        · rw [List.countP_cons_of_pos chosen, List.countP_cons_of_pos (weaker head chosen)]
          omega
        · rw [List.countP_cons_of_neg chosen, List.countP_cons]
          omega

theorem growingPages_settled {settledAt : Nat}
    (settled : ∀ n, settledAt ≤ n → tables n = tables settledAt) {n : Nat} (late : settledAt ≤ n)
    (cursor : Key) : ∃ fuel read, growingPages key tables pageRows fuel n cursor = some read := by
  induction left : ((tables settledAt).countP fun r => cursor < key r) using Nat.strong_induction_on
    generalizing n cursor with
  | _ count ih =>
      cases ends : (fetch key (tables n) pageRows cursor).getLast? with
      | none => exact ⟨1, [], by simp [growingPages, ends]⟩
      | some last =>
          obtain ⟨stored, above⟩ := mem_of_fetch (List.mem_of_getLast? ends)
          rw [settled n late] at stored
          have fewer : ((tables settledAt).countP fun r => key last < key r) < count := by
            rw [← left]
            refine countP_lt_of_mem ?_ stored (by simp) (by simpa using above)
            intro r beyond
            exact decide_eq_true (lt_trans above (of_decide_eq_true beyond))
          obtain ⟨fuel, read, found⟩ := ih _ fewer (by omega : settledAt ≤ n + 1) (key last) rfl
          exact ⟨fuel + 1, fetch key (tables n) pageRows cursor :: read, by
            simp [growingPages, ends, found]⟩

theorem growingPages_ends (grows : Grows key tables) (n : Nat) (cursor : Key) :
    ∃ fuel read, growingPages key tables pageRows fuel n cursor = some read := by
  obtain ⟨settledAt, settled⟩ := grows.settled
  induction wait : settledAt - n generalizing n cursor with
  | zero => exact growingPages_settled settled (by omega) cursor
  | succ wait ih =>
      cases ends : (fetch key (tables n) pageRows cursor).getLast? with
      | none => exact ⟨1, [], by simp [growingPages, ends]⟩
      | some last =>
          obtain ⟨fuel, read, found⟩ := ih (n + 1) (key last) (by omega)
          exact ⟨fuel + 1, fetch key (tables n) pageRows cursor :: read, by
            simp [growingPages, ends, found]⟩

end Keyset
