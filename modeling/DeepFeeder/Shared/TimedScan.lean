import Mathlib.Data.List.Sort
import Mathlib.Data.Prod.Lex
import DeepFeeder.Shared.SeqScan

set_option autoImplicit false

namespace SeqScan

universe u

variable {Row : Type u} {time : Row → Int} {number : Row → Option Int} {seen : Int → Prop}
  {rows read : List Row}

/-- Whenever a row with a smaller number `v`, new to the scan, need not be read before one with a
greater number, something else keeps a gap from opening around `v`: a row that is read before both
has reached `v`, or the row with the greater number is the first of all. -/
def Separated (time : Row → Int) (number : Row → Option Int) (seen : Int → Prop)
    (rows : List Row) : Prop :=
  ∀ x ∈ rows, ∀ y ∈ rows, ∀ u v, number x = some u → number y = some v → v < u →
    (∀ l, seen l → l < v) → time x ≤ time y →
      (∃ z ∈ rows, ∃ w, number z = some w ∧ v ≤ w ∧ time z < time x) ∨
        ((∀ l, ¬ seen l) ∧ ∀ z ∈ rows, ∀ w, number z = some w → w < v → time x < time z)

theorem clean_of_separated (separated : Separated time number seen rows) (perm : read.Perm rows)
    (ordered : read.Pairwise fun a b => time a ≤ time b) :
    Clean seen (read.filterMap number) := by
  rintro v scanned ⟨before, u, after, split, less, old, early, some⟩
  obtain ⟨front, back, rfl, rfl, backSplit⟩ := List.filterMap_eq_append_iff.mp split
  obtain ⟨skipped, x, later, rfl, silent, xNumber, rfl⟩ := List.filterMap_eq_cons_iff.mp backSplit
  obtain ⟨y, yRead, yNumber⟩ := List.mem_filterMap.mp scanned
  have inRows (r : Row) : r ∈ rows ↔ r ∈ front ++ (skipped ++ x :: later) := perm.mem_iff.symm
  rw [List.pairwise_append, List.pairwise_append, List.pairwise_cons] at ordered
  obtain ⟨_, ⟨_, ⟨xFirst, _⟩, skippedFirst⟩, frontFirst⟩ := ordered
  -- `y` is read after `x`: everything before `x` is less than `v`.
  have yLater : y ∈ later := by
    rcases List.mem_append.mp yRead with inFront | inBack
    · have := early v (List.mem_filterMap.mpr ⟨y, inFront, yNumber⟩)
      omega
    · rcases List.mem_append.mp inBack with inSkipped | inRest
      · rw [silent y inSkipped] at yNumber
        cases yNumber
      · rcases List.mem_cons.mp inRest with rfl | inLater
        · rw [xNumber, Option.some.injEq] at yNumber
          omega
        · exact inLater
  have xRow : x ∈ rows := (inRows x).mpr (by simp)
  have yRow : y ∈ rows := (inRows y).mpr yRead
  rcases separated x xRow y yRow u v xNumber yNumber less old (xFirst y yLater) with
    ⟨z, zRow, w, zNumber, reached, sooner⟩ | ⟨unseen, apart⟩
  · rcases List.mem_append.mp ((inRows z).mp zRow) with inFront | inBack
    · have := early w (List.mem_filterMap.mpr ⟨z, inFront, zNumber⟩)
      omega
    · rcases List.mem_append.mp inBack with inSkipped | inRest
      · rw [silent z inSkipped] at zNumber
        cases zNumber
      · rcases List.mem_cons.mp inRest with rfl | inLater
        · omega
        · have := xFirst z inLater
          omega
  · obtain ⟨w, wBefore⟩ := List.exists_mem_of_ne_nil _ (some unseen)
    obtain ⟨z, inFront, zNumber⟩ := List.mem_filterMap.mp wBefore
    have := apart z ((inRows z).mpr (List.mem_append_left _ inFront)) w zNumber (early w wBefore)
    have := frontFirst z inFront x (by simp)
    omega

def adverseRank (number : Row → Option Int) (v : Int) (r : Row) : Nat :=
  match number r with
  | none => 0
  | some w => if w < v then 0 else if w = v then 2 else 1

def adverseKey (time : Row → Int) (number : Row → Option Int) (v : Int) (r : Row) : Int ×ₗ Nat :=
  toLex (time r, adverseRank number v r)

def adverseOrder (time : Row → Int) (number : Row → Option Int) (v : Int) (rows : List Row) :
    List Row :=
  rows.insertionSort fun a b => adverseKey time number v a ≤ adverseKey time number v b

theorem adverseOrder_pairwise (time : Row → Int) (number : Row → Option Int) (v : Int)
    (rows : List Row) :
    (adverseOrder time number v rows).Pairwise fun a b =>
      adverseKey time number v a ≤ adverseKey time number v b := by
  have total : Std.Total fun a b : Row =>
      adverseKey time number v a ≤ adverseKey time number v b := ⟨fun _ _ => le_total _ _⟩
  have trans : IsTrans Row fun a b =>
      adverseKey time number v a ≤ adverseKey time number v b := ⟨fun _ _ _ => le_trans⟩
  exact List.pairwise_insertionSort _ rows

theorem adverseKey_le {v : Int} {a b : Row}
    (le : adverseKey time number v a ≤ adverseKey time number v b) :
    time a < time b ∨ time a = time b ∧ adverseRank number v a ≤ adverseRank number v b :=
  Prod.Lex.toLex_le_toLex.mp le

theorem adverseRank_below {v w : Int} {r : Row} (known : number r = some w) (less : w < v) :
    adverseRank number v r = 0 := by
  simp [adverseRank, known, less]

theorem adverseRank_above {v w : Int} {r : Row} (known : number r = some w) (more : v < w) :
    adverseRank number v r = 1 := by
  simp [adverseRank, known, not_lt.mpr (le_of_lt more), ne_of_gt more]

theorem adverseRank_same {v : Int} {r : Row} (known : number r = some v) :
    adverseRank number v r = 2 := by
  simp [adverseRank, known]

theorem mem_front_of_rank {v : Int} {front back : List Row} {top r : Row}
    (keyed : (front ++ top :: back).Pairwise fun a b =>
      adverseKey time number v a ≤ adverseKey time number v b)
    (member : r ∈ front ++ top :: back) (notLater : time r ≤ time top)
    (lower : adverseRank number v r < adverseRank number v top) : r ∈ front := by
  rw [List.pairwise_append, List.pairwise_cons] at keyed
  obtain ⟨_, ⟨topFirst, _⟩, _⟩ := keyed
  rcases List.mem_append.mp member with inFront | inRest
  · exact inFront
  · rcases List.mem_cons.mp inRest with rfl | inBack
    · omega
    · rcases adverseKey_le (topFirst r inBack) with later | ⟨_, rank⟩
      · omega
      · omega

theorem exists_first_reaching {v : Int}
    (reached : ∃ r ∈ read, ∃ w, number r = some w ∧ v ≤ w) :
    ∃ front top back t, read = front ++ top :: back ∧ number top = some t ∧ v ≤ t ∧
      ∀ w ∈ front.filterMap number, w < v := by
  induction read with
  | nil => simp at reached
  | cons first rest ih =>
      by_cases here : ∃ w, number first = some w ∧ v ≤ w
      · obtain ⟨w, known, le⟩ := here
        exact ⟨[], first, rest, w, rfl, known, le, by simp⟩
      · have later : ∃ r ∈ rest, ∃ w, number r = some w ∧ v ≤ w := by
          obtain ⟨r, member, reaches⟩ := reached
          rcases List.mem_cons.mp member with rfl | inRest
          · exact absurd reaches here
          · exact ⟨r, inRest, reaches⟩
        obtain ⟨front, top, back, t, split, known, le, below⟩ := ih later
        refine ⟨first :: front, top, back, t, by rw [split, List.cons_append], known, le, ?_⟩
        intro w member
        obtain ⟨r, inFront, number_⟩ := List.mem_filterMap.mp member
        rcases List.mem_cons.mp inFront with rfl | inFront
        · by_contra notBelow
          exact here ⟨w, number_, by omega⟩
        · exact below w (List.mem_filterMap.mpr ⟨r, inFront, number_⟩)

theorem separated_of_clean
    (clean : ∀ read : List Row, read.Perm rows → (read.Pairwise fun a b => time a ≤ time b) →
      Clean seen (read.filterMap number)) : Separated time number seen rows := by
  intro x xRow y yRow u v xNumber yNumber less old sooner
  by_contra unsettled
  rw [not_or] at unsettled
  obtain ⟨noneReached, notApart⟩ := unsettled
  let read := adverseOrder time number v rows
  have perm : read.Perm rows := List.perm_insertionSort _ rows
  have keyed : read.Pairwise fun a b => adverseKey time number v a ≤ adverseKey time number v b :=
    adverseOrder_pairwise time number v rows
  have ordered : read.Pairwise fun a b => time a ≤ time b := by
    refine keyed.imp fun le => ?_
    rcases adverseKey_le le with less | ⟨same, _⟩
    · exact le_of_lt less
    · exact le_of_eq same
  obtain ⟨front, top, back, t, split, topNumber, reached, below⟩ :
      ∃ front top back t, read = front ++ top :: back ∧ number top = some t ∧ v ≤ t ∧
        ∀ w ∈ front.filterMap number, w < v :=
    exists_first_reaching ⟨x, perm.mem_iff.mpr xRow, u, xNumber, le_of_lt less⟩
  have inRead (r : Row) : r ∈ front ++ top :: back ↔ r ∈ rows := split ▸ perm.mem_iff
  rw [split] at keyed
  have notSooner : time x ≤ time top := by
    by_contra later
    exact noneReached ⟨top, (inRead top).mp (by simp), t, topNumber, reached, by omega⟩
  -- At the time of `v` itself `x` would have been read before it.
  have above : v < t := by
    rcases lt_or_eq_of_le reached with more | rfl
    · exact more
    · have lower : adverseRank number v x < adverseRank number v top := by
        rw [adverseRank_above xNumber less, adverseRank_same topNumber]
        omega
      have inFront := mem_front_of_rank keyed ((inRead x).mpr xRow) notSooner lower
      have := below u (List.mem_filterMap.mpr ⟨x, inFront, xNumber⟩)
      omega
  have some : (∀ l, ¬ seen l) → front.filterMap number ≠ [] := by
    intro unseen
    obtain ⟨z, zRow, w, zNumber, small, notLater⟩ :
        ∃ z ∈ rows, ∃ w, number z = some w ∧ w < v ∧ time z ≤ time x := by
      by_contra none
      refine notApart ⟨unseen, fun z zRow w zNumber small => ?_⟩
      by_contra late
      exact none ⟨z, zRow, w, zNumber, small, by omega⟩
    have lower : adverseRank number v z < adverseRank number v top := by
      rw [adverseRank_below zNumber small, adverseRank_above topNumber above]
      omega
    have inFront := mem_front_of_rank keyed ((inRead z).mpr zRow) (notLater.trans notSooner) lower
    exact List.ne_nil_of_mem (List.mem_filterMap.mpr ⟨z, inFront, zNumber⟩)
  have scanned : v ∈ read.filterMap number :=
    List.mem_filterMap.mpr ⟨y, perm.mem_iff.mpr yRow, yNumber⟩
  have numbers : read.filterMap number =
      front.filterMap number ++ t :: back.filterMap number := by
    rw [split, List.filterMap_append, List.filterMap_cons_some topNumber]
  exact clean read perm ordered v scanned ⟨_, t, _, numbers, above, old, below, some⟩

end SeqScan
