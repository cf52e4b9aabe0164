import Mathlib.Data.List.Induction
import Mathlib.Data.Int.Order.Basic

set_option autoImplicit false

namespace SeqScan

structure Scan where
  last : Option Int
  gaps : List (Int × Int)
  raised : List Int

def start (last : Option Int) : Scan := { last, gaps := [], raised := [] }

def gapTo (last seq : Int) : List (Int × Int) :=
  if last + 1 < seq then [(last + 1, seq - 1)] else []

def see (s : Scan) (seq : Int) : Scan :=
  match s.last with
  | none => { s with last := some seq, raised := s.raised ++ [seq] }
  | some last =>
      if last < seq then
        { last := some seq, gaps := s.gaps ++ gapTo last seq, raised := s.raised ++ [seq] }
      else s

def scan (s : Scan) (seqs : List Int) : Scan := seqs.foldl see s

abbrev Inside (gap : Int × Int) (i : Int) : Prop := gap.1 ≤ i ∧ i ≤ gap.2

structure Partition (low final : Int) (gaps : List (Int × Int)) (raised : List Int) : Prop where
  nonempty : ∀ g ∈ gaps, g.1 ≤ g.2
  disjoint : gaps.Pairwise fun g h => g.2 < h.1
  ascending : raised.Pairwise (· < ·)
  apart : ∀ g ∈ gaps, ∀ i ∈ raised, ¬ Inside g i
  covered : ∀ i, (low < i ∧ i ≤ final) ↔ i ∈ raised ∨ ∃ g ∈ gaps, Inside g i

def lowOf (base : Option Int) (seqs : List Int) : Option Int :=
  base.or (seqs.head?.map (· - 1))

variable {s : Scan} {seq last low final : Int} {gaps : List (Int × Int)} {raised seqs : List Int}

theorem scan_nil (s : Scan) : scan s [] = s := rfl

theorem scan_cons (s : Scan) (seq : Int) (seqs : List Int) :
    scan s (seq :: seqs) = scan (see s seq) seqs := rfl

theorem scan_append (s : Scan) (first second : List Int) :
    scan s (first ++ second) = scan (scan s first) second := List.foldl_append

theorem see_first (unseen : s.last = none) :
    see s seq = { s with last := some seq, raised := s.raised ++ [seq] } := by
  unfold see
  rw [unseen]

theorem see_raise (seen : s.last = some last) (above : last < seq) :
    see s seq =
      { last := some seq, gaps := s.gaps ++ gapTo last seq, raised := s.raised ++ [seq] } := by
  unfold see
  rw [seen]
  exact if_pos above

theorem see_late (seen : s.last = some last) (late : seq ≤ last) : see s seq = s := by
  unfold see
  rw [seen]
  exact if_neg (not_lt.mpr late)

theorem see_cases (s : Scan) (seq : Int) :
    (s.last = none ∧ see s seq = { s with last := some seq, raised := s.raised ++ [seq] }) ∨
    (∃ last, s.last = some last ∧ last < seq ∧ see s seq =
      { last := some seq, gaps := s.gaps ++ gapTo last seq, raised := s.raised ++ [seq] }) ∨
    (∃ last, s.last = some last ∧ seq ≤ last ∧ see s seq = s) := by
  cases seen : s.last with
  | none => exact .inl ⟨rfl, see_first seen⟩
  | some last =>
      rcases lt_or_ge last seq with above | late
      · exact .inr (.inl ⟨last, rfl, above, see_raise seen above⟩)
      · exact .inr (.inr ⟨last, rfl, late, see_late seen late⟩)

theorem mem_gapTo {g : Int × Int} :
    g ∈ gapTo last seq ↔ last + 1 < seq ∧ g = (last + 1, seq - 1) := by
  unfold gapTo
  split
  next wide => simp [wide]
  next narrow => simp [narrow]

theorem Partition.empty (low : Int) : Partition low low [] [] where
  nonempty := by simp
  disjoint := by simp
  ascending := by simp
  apart := by simp
  covered := by
    intro i
    simp

theorem inside_gapTo {i : Int} :
    (∃ g ∈ gapTo last seq, Inside g i) ↔ last < i ∧ i < seq := by
  simp only [mem_gapTo]
  constructor
  · rintro ⟨_, ⟨_, rfl⟩, held⟩
    exact ⟨by omega, by omega⟩
  · intro between
    exact ⟨_, ⟨by omega, rfl⟩, by omega, by omega⟩

theorem Partition.raise (before : Partition low last gaps raised) (start : low ≤ last)
    (above : last < seq) : Partition low seq (gaps ++ gapTo last seq) (raised ++ [seq]) := by
  have gapBelow : ∀ g ∈ gaps, g.2 ≤ last := by
    intro g member
    have width := before.nonempty g member
    exact ((before.covered g.2).mpr (.inr ⟨g, member, width, le_refl _⟩)).2
  have raisedBelow : ∀ i ∈ raised, i ≤ last :=
    fun i member => ((before.covered i).mpr (.inl member)).2
  constructor
  next =>
    intro g member
    rcases List.mem_append.mp member with old | new
    · exact before.nonempty g old
    · obtain ⟨wide, rfl⟩ := mem_gapTo.mp new
      change last + 1 ≤ seq - 1
      omega
  next =>
    rw [List.pairwise_append]
    refine ⟨before.disjoint, ?_, ?_⟩
    · unfold gapTo
      split
      · simp
      · simp
    · intro g old h new
      obtain ⟨_, rfl⟩ := mem_gapTo.mp new
      have := gapBelow g old
      change g.2 < last + 1
      omega
  next =>
    rw [List.pairwise_append]
    refine ⟨before.ascending, by simp, ?_⟩
    intro i old j new
    have := raisedBelow i old
    rw [List.mem_singleton] at new
    omega
  next =>
    intro g inGaps i inRaised held
    rcases List.mem_append.mp inGaps with old | new
    · rcases List.mem_append.mp inRaised with early | here
      · exact before.apart g old i early held
      · have := gapBelow g old
        rw [List.mem_singleton] at here
        omega
    · obtain ⟨_, rfl⟩ := mem_gapTo.mp new
      rcases List.mem_append.mp inRaised with early | here
      · have := raisedBelow i early
        omega
      · rw [List.mem_singleton] at here
        omega
  next =>
    intro i
    simp only [List.mem_append, List.mem_singleton, or_and_right, exists_or]
    have old := before.covered i
    rw [inside_gapTo]
    constructor
    · intro between
      by_cases early : i ≤ last
      · rcases old.mp ⟨between.1, early⟩ with member | gap
        · exact .inl (.inl member)
        · exact .inr (.inl gap)
      · rcases lt_or_eq_of_le between.2 with less | same
        · exact .inr (.inr ⟨by omega, less⟩)
        · exact .inl (.inr same)
    · rintro ((member | rfl) | (gap | between))
      · have := old.mpr (.inl member)
        omega
      · omega
      · have := old.mpr (.inr gap)
        omega
      · omega

def Seen (low : Int) (s : Scan) : Prop :=
  ∃ final, s.last = some final ∧ low ≤ final ∧ (final = low ∨ final ∈ s.raised) ∧
    Partition low final s.gaps s.raised

theorem Seen.see (seen : Seen low s) (seq : Int) : Seen low (see s seq) := by
  obtain ⟨final, last, start, raised, partition⟩ := seen
  rcases see_cases s seq with ⟨unseen, _⟩ | ⟨other, same, above, result⟩ | ⟨_, _, _, result⟩
  · rw [last] at unseen
    cases unseen
  · rw [last, Option.some.injEq] at same
    subst same
    rw [result]
    exact ⟨seq, rfl, by omega, .inr (by simp), partition.raise start above⟩
  · rw [result]
    exact ⟨final, last, start, raised, partition⟩

theorem Seen.scan (seen : Seen low s) (seqs : List Int) : Seen low (scan s seqs) := by
  induction seqs generalizing s with
  | nil => exact seen
  | cons seq rest ih => exact ih (seen.see seq)

theorem start_some_seen (base : Int) : Seen base (start (some base)) :=
  ⟨base, rfl, le_refl _, .inl rfl, .empty base⟩

theorem start_none_seen (seq : Int) : Seen (seq - 1) (see (start none) seq) := by
  refine ⟨seq, rfl, by omega, .inr ?_, ?_⟩
  next =>
    rw [see_first rfl]
    exact List.mem_append_right _ (List.mem_singleton_self seq)
  have first := (Partition.empty (seq - 1)).raise (le_refl _) (show seq - 1 < seq by omega)
  rw [see_first rfl]
  simpa [gapTo, start] using first

theorem scan_seen {base : Option Int} (lowest : lowOf base seqs = some low) :
    Seen low (scan (start base) seqs) := by
  cases base with
  | some base =>
      obtain rfl : base = low := by simpa [lowOf] using lowest
      exact (start_some_seen base).scan seqs
  | none =>
      cases seqs with
      | nil => simp [lowOf] at lowest
      | cons seq rest =>
          obtain rfl : seq - 1 = low := by simpa [lowOf] using lowest
          exact (start_none_seen seq).scan rest

theorem scan_unseen {base : Option Int} (nothing : lowOf base seqs = none) :
    scan (start base) seqs = start none := by
  cases base with
  | some base => simp [lowOf] at nothing
  | none =>
      cases seqs with
      | nil => rfl
      | cons seq rest => simp [lowOf] at nothing

theorem mem_raised_scan {i : Int} (member : i ∈ (scan s seqs).raised) : i ∈ s.raised ∨ i ∈ seqs := by
  induction seqs generalizing s with
  | nil => exact .inl member
  | cons seq rest ih =>
      have seen : i ∈ (see s seq).raised → i ∈ s.raised ∨ i = seq := by
        rcases see_cases s seq with ⟨_, result⟩ | ⟨_, _, _, result⟩ | ⟨_, _, _, result⟩
        · simp [result]
        · simp [result]
        · simpa [result] using fun old => .inl old
      rcases ih member with early | later
      · rcases seen early with old | here
        · exact .inl old
        · exact .inr (here ▸ List.mem_cons_self)
      · exact .inr (List.mem_cons_of_mem _ later)

theorem see_last_ne_none (s : Scan) (seq : Int) : (see s seq).last ≠ none := by
  rcases see_cases s seq with ⟨_, result⟩ | ⟨_, _, _, result⟩ | ⟨_, seen, _, result⟩
  · simp [result]
  · simp [result]
  · simp [result, seen]

theorem scan_last_none_iff : (scan s seqs).last = none ↔ s.last = none ∧ seqs = [] := by
  induction seqs generalizing s with
  | nil => simp [scan_nil]
  | cons seq rest ih =>
      rw [scan_cons, ih]
      simp [see_last_ne_none]

theorem see_last_below (v : Int) :
    (∀ l ∈ (see s seq).last, l < v) ↔ (∀ l ∈ s.last, l < v) ∧ seq < v := by
  rcases see_cases s seq with ⟨unseen, result⟩ | ⟨l, seen, above, result⟩ | ⟨l, seen, late, result⟩
  · simp [result, unseen]
  · simp only [result, seen, Option.mem_some_iff, forall_eq']
    omega
  · simp only [result, seen, Option.mem_some_iff, forall_eq']
    omega

theorem scan_last_below (v : Int) :
    (∀ l ∈ (scan s seqs).last, l < v) ↔ (∀ l ∈ s.last, l < v) ∧ ∀ seq ∈ seqs, seq < v := by
  induction seqs generalizing s with
  | nil => simp [scan_nil]
  | cons seq rest ih =>
      rw [scan_cons, ih, see_last_below]
      simp [and_assoc]

theorem mem_gaps_see {g : Int × Int} :
    g ∈ (see s seq).gaps ↔
      g ∈ s.gaps ∨ ∃ last, s.last = some last ∧ last + 1 < seq ∧ g = (last + 1, seq - 1) := by
  rcases see_cases s seq with ⟨unseen, result⟩ | ⟨l, seen, above, result⟩ | ⟨l, seen, late, result⟩
  · simp [result, unseen]
  · simp [result, seen, mem_gapTo]
  · simp only [result, seen, Option.some.injEq, exists_eq_left']
    constructor
    · exact .inl
    · rintro (old | ⟨wide, _⟩)
      · exact old
      · omega

theorem scan_last_greatest {base : Option Int} (last : (scan (start base) seqs).last = some final) :
    ∀ seq ∈ seqs, seq ≤ final := by
  have below : ∀ l ∈ (scan (start base) seqs).last, l < final + 1 := by
    rw [last]
    rintro l ⟨⟩
    exact Int.lt_succ _
  intro seq member
  exact Int.le_of_lt_add_one (((scan_last_below _).mp below).2 seq member)

theorem mem_gaps_scan {g : Int × Int} :
    g ∈ (scan s seqs).gaps ↔
      g ∈ s.gaps ∨ ∃ before seq after last, seqs = before ++ seq :: after ∧
        (scan s before).last = some last ∧ last + 1 < seq ∧ g = (last + 1, seq - 1) := by
  induction seqs using List.reverseRecOn with
  | nil => simp [scan_nil]
  | append_singleton seqs seq ih =>
      rw [scan_append, scan_cons, scan_nil, mem_gaps_see, ih]
      constructor
      · rintro ((old | ⟨before, at_, after, last, rfl, rest⟩) | ⟨last, rest⟩)
        · exact .inl old
        · exact .inr ⟨before, at_, after ++ [seq], last, by simp, rest⟩
        · exact .inr ⟨seqs, seq, [], last, rfl, rest⟩
      · rintro (old | ⟨before, at_, after, last, split, rest⟩)
        · exact .inl (.inl old)
        · rcases List.eq_nil_or_concat after with rfl | ⟨front, final, rfl⟩
          · obtain ⟨rfl, same⟩ := List.append_inj' split rfl
            obtain rfl : seq = at_ := by simpa using same
            exact .inr ⟨last, rest⟩
          · rw [List.concat_eq_append, ← List.cons_append, ← List.append_assoc] at split
            obtain ⟨rfl, _⟩ := List.append_inj' split rfl
            exact .inl (.inr ⟨before, at_, front, last, rfl, rest⟩)

def opened (s : Scan) (seqs : List Int) : List (Int × Int) := (scan { s with gaps := [] } seqs).gaps

theorem scan_opened (s : Scan) (seqs : List Int) :
    (scan s seqs).last = (scan { s with gaps := [] } seqs).last ∧
      (scan s seqs).raised = (scan { s with gaps := [] } seqs).raised ∧
      (scan s seqs).gaps = s.gaps ++ opened s seqs := by
  unfold opened
  induction seqs using List.reverseRecOn with
  | nil => simp [scan_nil]
  | append_singleton seqs seq ih =>
      obtain ⟨sameLast, sameRaised, gaps⟩ := ih
      simp only [scan_append, scan_cons, scan_nil]
      rcases see_cases (scan s seqs) seq with
        ⟨unseen, result⟩ | ⟨l, seen, above, result⟩ | ⟨l, seen, late, result⟩
      · rw [result, see_first (sameLast ▸ unseen)]
        exact ⟨rfl, congrArg (· ++ [seq]) sameRaised, gaps⟩
      · rw [result, see_raise (sameLast ▸ seen) above]
        exact ⟨rfl, congrArg (· ++ [seq]) sameRaised, by rw [gaps, List.append_assoc]⟩
      · rw [result, see_late (sameLast ▸ seen) late]
        exact ⟨sameLast, sameRaised, gaps⟩

structure SawAll (s : Scan) (seen : Int → Prop) : Prop where
  below_iff : ∀ v, (∀ l ∈ s.last, l < v) ↔ ∀ l, seen l → l < v
  none_iff : s.last = none ↔ ∀ l, ¬ seen l

/-- No number scanned is passed over: none is exceeded before anything has reached it, unless the
number that exceeds it is the first of all. -/
def Clean (seen : Int → Prop) (seqs : List Int) : Prop :=
  ∀ v ∈ seqs, ¬ ∃ before seq after, seqs = before ++ seq :: after ∧ v < seq ∧
    (∀ l, seen l → l < v) ∧ (∀ earlier ∈ before, earlier < v) ∧
      ((∀ l, ¬ seen l) → before ≠ [])

theorem SawAll.start (base : Option Int) : SawAll (start base) (base = some ·) where
  below_iff := by
    intro v
    rfl
  none_iff := Option.eq_none_iff_forall_ne_some

theorem SawAll.scan {seen : Int → Prop} (saw : SawAll s seen) (seqs : List Int) :
    SawAll (scan s seqs) fun v => seen v ∨ v ∈ seqs where
  below_iff := by
    intro v
    rw [scan_last_below, saw.below_iff]
    simp only [or_imp, forall_and]
  none_iff := by
    rw [scan_last_none_iff, saw.none_iff, List.eq_nil_iff_forall_not_mem]
    simp only [not_or, forall_and]

theorem SawAll.congr {seen other : Int → Prop} (saw : SawAll s seen)
    (same : ∀ v, seen v ↔ other v) : SawAll s other :=
  (funext fun v => propext (same v) : seen = other) ▸ saw

theorem opened_around_iff {seen : Int → Prop} (saw : SawAll s seen) (v : Int) :
    (∃ g ∈ opened s seqs, Inside g v) ↔
      ∃ before seq after, seqs = before ++ seq :: after ∧ v < seq ∧
        (∀ l, seen l → l < v) ∧ (∀ earlier ∈ before, earlier < v) ∧
          ((∀ l, ¬ seen l) → before ≠ []) := by
  unfold opened
  simp only [mem_gaps_scan, List.not_mem_nil, false_or, ← saw.below_iff, ← saw.none_iff]
  constructor
  · rintro ⟨_, ⟨before, seq, after, last, split, seen, _, rfl⟩, held⟩
    have below : ∀ l ∈ (SeqScan.scan { s with gaps := [] } before).last, l < v := by
      rw [seen]
      rintro l ⟨⟩
      omega
    obtain ⟨old, early⟩ := (scan_last_below v).mp below
    refine ⟨before, seq, after, split, by omega, old, early, ?_⟩
    rintro unseen rfl
    rw [scan_nil, unseen] at seen
    cases seen
  · rintro ⟨before, seq, after, split, less, old, early, some⟩
    have below := (scan_last_below (s := { s with gaps := [] }) v).mpr ⟨old, early⟩
    cases seen : (SeqScan.scan { s with gaps := [] } before).last with
    | none =>
        obtain ⟨unseen, empty⟩ := scan_last_none_iff.mp seen
        exact absurd empty (some unseen)
    | some last =>
        have := below last seen
        exact ⟨_, ⟨before, seq, after, last, split, seen, by omega, rfl⟩, by omega, by omega⟩

theorem clean_iff {seen : Int → Prop} (saw : SawAll s seen) :
    Clean seen seqs ↔ ∀ v ∈ seqs, ∀ g ∈ opened s seqs, ¬ Inside g v := by
  unfold Clean
  simp only [← opened_around_iff saw, not_exists, not_and]

theorem not_inside_of_seen {seen : Int → Prop} (saw : SawAll s seen) {v : Int} (old : seen v)
    {g : Int × Int} (opens : g ∈ opened s seqs) : ¬ Inside g v := by
  intro held
  obtain ⟨_, _, _, _, _, below, _⟩ := (opened_around_iff saw v).mp ⟨g, opens, held⟩
  exact absurd (below v old) (lt_irrefl v)

end SeqScan
