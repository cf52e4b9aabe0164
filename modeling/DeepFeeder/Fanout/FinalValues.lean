import Mathlib.Data.List.Induction
import Mathlib.Data.Int.Order.Basic
import DeepFeeder.Fanout.Listener

set_option autoImplicit false

namespace DeepFeeder.FinalValues

open SymListener

def lastAt (rows : List Row) (time : Int) : Option Row :=
  (rows.filter fun row => row.time = time).getLast?

theorem lastAt_append (first second : List Row) (time : Int) :
    lastAt (first ++ second) time = (lastAt second time).or (lastAt first time) := by
  rw [lastAt, List.filter_append, List.getLast?_append]
  rfl

theorem lastAt_singleton (row : Row) : lastAt [row] row.time = some row := by
  simp [lastAt]

theorem lastAt_eq_none {rows : List Row} {time : Int} (other : ∀ row ∈ rows, row.time ≠ time) :
    lastAt rows time = none := by
  rw [lastAt, List.getLast?_eq_none_iff, List.filter_eq_nil_iff]
  simpa using other

def delivered (update : TableUpdate) : List Row := update.added ++ update.modified

def lookedAt (update : TableUpdate) : List Row := update.added ++ update.modified.getLast?.toList

def Notes (spec : SchemaSpec) (row kept : Row) : Prop :=
  kept = row ∨ row.isPlaceholder = true ∧ kept = minimalBar spec row

def Latest (spec : SchemaSpec) (seen : List Row) (bar : Row) : Prop :=
  ∃ row, lastAt seen bar.time = some row ∧ Notes spec row bar

variable {spec : SchemaSpec} {seen : List Row}

theorem Latest.append_other {bar : Row} (latest : Latest spec seen bar) {more : List Row}
    (other : ∀ row ∈ more, row.time ≠ bar.time) : Latest spec (seen ++ more) bar := by
  obtain ⟨row, last, notes⟩ := latest
  refine ⟨row, ?_, notes⟩
  rw [lastAt_append, lastAt_eq_none other, last]
  rfl

theorem Latest.append_same (seen : List Row) {row bar : Row} (notes : Notes spec row bar)
    (time : bar.time = row.time) : Latest spec (seen ++ [row]) bar := by
  refine ⟨row, ?_, notes⟩
  rw [lastAt_append, time, lastAt_singleton]
  rfl

theorem addRow_notes (spec : SchemaSpec) (s : Adding) (row : Row) :
    ∃ bar, (addRow spec s row).curr = some bar ∧ Notes spec row bar ∧ bar.time = row.time := by
  unfold addRow
  split_ifs with placeholder
  · exact ⟨minimalBar spec row, rfl, .inr ⟨placeholder, rfl⟩, rfl⟩
  · exact ⟨row, rfl, .inl rfl, rfl⟩

theorem addRows_latest (rows : List Row) (s : Adding)
    (latest : ∀ bar ∈ s.curr, Latest spec seen bar) :
    ∀ bar ∈ (rows.foldl (addRow spec) s).curr, Latest spec (seen ++ rows) bar := by
  induction rows generalizing s seen with
  | nil => simpa using latest
  | cons row rest ih =>
      obtain ⟨kept, current, notes, time⟩ := addRow_notes spec s row
      have next : ∀ bar ∈ (addRow spec s row).curr, Latest spec (seen ++ [row]) bar := by
        intro bar member
        rw [current, Option.mem_some_iff] at member
        exact member ▸ Latest.append_same seen notes time
      have later := ih (addRow spec s row) next
      rwa [List.append_assoc, List.singleton_append] at later

theorem modifyBar_latest (modified : List Row) {curr : Option Row}
    (latest : ∀ bar ∈ curr, Latest spec seen bar) :
    ∀ bar ∈ modifyBar curr modified, Latest spec (seen ++ modified.getLast?.toList) bar := by
  intro bar member
  unfold modifyBar at member
  cases last : modified.getLast? with
  | none =>
      rw [last] at member
      simpa using latest bar member
  | some row =>
      rw [last] at member
      cases curr with
      | none =>
          rw [Option.mem_some_iff] at member
          exact member ▸ Latest.append_same seen (.inl rfl) rfl
      | some old =>
          simp only at member
          split_ifs at member with newer
          · rw [Option.mem_some_iff] at member
            exact member ▸ Latest.append_same seen (.inl rfl) rfl
          · rw [Option.mem_some_iff] at member
            subst member
            apply (latest old rfl).append_other
            intro other only
            rw [Option.toList_some, List.mem_singleton] at only
            rw [only]
            exact ne_of_lt (not_le.mp newer)

def after (spec : SchemaSpec) (bufMaxlen : Nat) (before : List (TableUpdate × Int)) : SymListener :=
  before.foldl (fun l a => (l.onUpdate a.1 a.2).2) (.init spec bufMaxlen)

theorem after_latest (isBar : spec.isBar = true) (bufMaxlen : Nat)
    (before : List (TableUpdate × Int)) :
    (after spec bufMaxlen before).spec = spec ∧
      ∀ bar ∈ (after spec bufMaxlen before).curr,
        Latest spec (before.flatMap fun a => lookedAt a.1) bar := by
  induction before using List.reverseRecOn with
  | nil => exact ⟨rfl, fun bar member => by cases member⟩
  | append_singleton before a ih =>
      obtain ⟨same, latest⟩ := ih
      have step : after spec bufMaxlen (before ++ [a]) =
          ((after spec bufMaxlen before).onUpdate a.1 a.2).2 := by
        simp [after]
      obtain ⟨_, curr, specKept⟩ := onUpdate_bar (same.symm ▸ isBar) a.1 a.2
      rw [step]
      refine ⟨specKept.trans same, ?_⟩
      rw [curr, List.flatMap_append, List.flatMap_singleton, lookedAt, ← List.append_assoc]
      apply modifyBar_latest
      have added := addRows_latest a.1.added ⟨(after spec bufMaxlen before).curr, [], true⟩ latest
      simpa [addRows, same] using added

theorem addRows_completed (rows : List Row) (s : Adding)
    (latest : ∀ bar ∈ s.curr, Latest spec seen bar)
    (completed : ∀ bar ∈ s.completedRows, Latest spec seen bar ∧ ∀ row ∈ rows, bar.time < row.time)
    (inOrder : (rows.map Row.time).Pairwise (· ≤ ·)) :
    ∀ bar ∈ (rows.foldl (addRow spec) s).completedRows, Latest spec (seen ++ rows) bar := by
  induction rows generalizing s seen with
  | nil =>
      intro bar member
      simpa using (completed bar member).1
  | cons row rest ih =>
      obtain ⟨notBefore, ascending⟩ := List.pairwise_cons.mp inOrder
      have next := addRows_latest [row] s latest
      have kept : ∀ bar ∈ (addRow spec s row).completedRows,
          Latest spec (seen ++ [row]) bar ∧ ∀ later ∈ rest, bar.time < later.time := by
        intro bar member
        have older : Latest spec seen bar ∧ bar.time < row.time := by
          rw [addRow_completed] at member
          rcases List.mem_append.mp member with old | rolled
          · obtain ⟨before, less⟩ := completed bar old
            exact ⟨before, less row (by simp)⟩
          · obtain ⟨current, less⟩ := List.mem_filter.mp rolled
            exact ⟨latest bar (Option.mem_toList.mp current), by simpa using less⟩
        refine ⟨older.1.append_other ?_, ?_⟩
        · intro other only
          rw [List.mem_singleton.mp only]
          exact ne_of_gt older.2
        · intro later member
          exact lt_of_lt_of_le older.2 (notBefore later.time (List.mem_map_of_mem member))
      have last := ih (addRow spec s row) next kept ascending
      rwa [List.append_assoc, List.singleton_append] at last

-- The modified row that is looked at is of that time if any modified row is.
def SnapshotLast (time : Int) (update : TableUpdate) : Prop :=
  (∃ row ∈ update.modified, row.time = time) → ∃ last ∈ update.modified.getLast?, last.time = time

theorem lastAt_delivered {time : Int} {update : TableUpdate} (snapshot : SnapshotLast time update) :
    lastAt (delivered update) time = lastAt (lookedAt update) time := by
  rw [delivered, lookedAt, lastAt_append, lastAt_append]
  congr 1
  cases last : update.modified.getLast? with
  | none =>
      rw [List.getLast?_eq_none_iff.mp last]
      rfl
  | some row =>
      obtain ⟨front, split⟩ := List.getLast?_eq_some_iff.mp last
      rw [split, lastAt_append, Option.toList_some]
      by_cases same : row.time = time
      · subst same
        rw [lastAt_singleton]
        rfl
      · have none : lastAt front time = none := by
          apply lastAt_eq_none
          intro other member sameTime
          obtain ⟨last', isLast, its⟩ := snapshot ⟨other, by simp [split, member], sameTime⟩
          rw [last, Option.mem_some_iff] at isLast
          exact same (isLast ▸ its)
        rw [none, Option.or_none]

theorem lastAt_before {time : Int} (before : List (TableUpdate × Int))
    (snapshot : ∀ a ∈ before, SnapshotLast time a.1) :
    lastAt (before.flatMap fun a => delivered a.1) time =
      lastAt (before.flatMap fun a => lookedAt a.1) time := by
  induction before with
  | nil => rfl
  | cons a rest ih =>
      rw [List.flatMap_cons, List.flatMap_cons, lastAt_append, lastAt_append,
        ih fun b member => snapshot b (List.mem_cons_of_mem _ member),
        lastAt_delivered (snapshot a (by simp))]

-- The completed row has the values of the last row of its bar, in each column that it has, and it is
-- that row when the first bar that the update completes has the same columns.
def Carries (completedRows : List Row) (row emitted : Row) : Prop :=
  (∀ name ∈ emitted.names, emitted.get name = row.get name) ∧
    ((∀ first ∈ completedRows.head?, first.names = row.names) → emitted = row)

theorem carries_of_mem {completedRows : List Row} {emitted : Row}
    (member : emitted ∈ fromPylist completedRows) :
    ∃ bar ∈ completedRows, bar.time = emitted.time ∧ Carries completedRows bar emitted := by
  cases completedRows with
  | nil => cases member
  | cons first rest =>
      obtain ⟨bar, inside, rfl⟩ := List.mem_map.mp member
      refine ⟨bar, inside, rfl, ?_, ?_⟩
      · intro name column
        rw [Row.project_names] at column
        exact Row.project_get bar first column
      · intro same
        exact Row.project_eq_self (same first rfl)

theorem completed_carries_last {spec : SchemaSpec} (isBar : spec.isBar = true) (bufMaxlen : Nat)
    (before : List (TableUpdate × Int)) (update : TableUpdate) (nowNs : Int)
    (inOrder : (update.added.map Row.time).Pairwise (· ≤ ·)) {emitted : Row}
    (completed : emitted ∈
      (((after spec bufMaxlen before).onUpdate update nowNs).1.completed.getD []))
    (snapshot : ∀ a ∈ before, SnapshotLast emitted.time a.1) :
    ∃ row, lastAt ((before.flatMap fun a => delivered a.1) ++ update.added) emitted.time = some row ∧
      (row.isPlaceholder = false →
        Carries ((after spec bufMaxlen before).addRows update.added).completedRows row emitted) := by
  obtain ⟨same, latest⟩ := after_latest isBar bufMaxlen before
  rw [(onUpdate_bar (same.symm ▸ isBar) update nowNs).1] at completed
  obtain ⟨bar, member, time, carries⟩ := carries_of_mem completed
  have noted : Latest spec ((before.flatMap fun a => lookedAt a.1) ++ update.added) bar := by
    apply addRows_completed update.added ⟨(after spec bufMaxlen before).curr, [], true⟩ latest
      (by simp) inOrder
    simpa [addRows, same] using member
  obtain ⟨row, last, notes⟩ := noted
  refine ⟨row, ?_, ?_⟩
  · rw [lastAt_append, lastAt_before before snapshot, ← lastAt_append, ← time]
    exact last
  · intro real
    rcases notes with rfl | ⟨placeholder, _⟩
    · exact carries
    · rw [real] at placeholder
      cases placeholder

def bar (time close : Int) : Row := { time, cells := [("Close", .int close)], distinct := by simp }

theorem completed_carries_last_refined :
    (((after tradingviewOhlcv1m 256 [(⟨[bar 10 1], [bar 10 2]⟩, 1)]).onUpdate
        ⟨[bar 20 3], []⟩ 2).1.completed.getD []) = [bar 10 2] ∧
      ∃ row, lastAt [bar 10 1, bar 10 2, bar 20 3] 10 = some row ∧
        (row.isPlaceholder = false → Carries [bar 10 2] row (bar 10 2)) := by
  have completed : (((after tradingviewOhlcv1m 256 [(⟨[bar 10 1], [bar 10 2]⟩, 1)]).onUpdate
      ⟨[bar 20 3], []⟩ 2).1.completed.getD []) = [bar 10 2] := by
    rfl
  refine ⟨completed, ?_⟩
  exact completed_carries_last (by decide) 256 [(⟨[bar 10 1], [bar 10 2]⟩, 1)] ⟨[bar 20 3], []⟩ 2
    (by decide) (completed ▸ List.mem_singleton.mpr rfl)
    (fun a member => by
      rw [List.mem_singleton.mp member]
      exact fun _ => ⟨bar 10 2, rfl, rfl⟩)

-- In the first run the update with the next bar brings the last modification of bar 10; in the second
-- the last modification of bar 10 is not the last modified row of its update.
theorem completed_misses_modification :
    ((((after tradingviewOhlcv1m 256 [(⟨[bar 10 1], []⟩, 1)]).onUpdate
          ⟨[bar 20 3], [bar 10 2]⟩ 2).1.completed.getD []) = [bar 10 1] ∧
        lastAt (delivered ⟨[bar 10 1], []⟩ ++ delivered ⟨[bar 20 3], [bar 10 2]⟩) 10 ≠
          some (bar 10 1)) ∧
      (((after tradingviewOhlcv1m 256
          [(⟨[bar 5 0, bar 10 1], []⟩, 1), (⟨[], [bar 10 2, bar 5 0]⟩, 2)]).onUpdate
            ⟨[bar 20 3], []⟩ 3).1.completed.getD []) = [bar 10 1] ∧
        lastAt (delivered ⟨[bar 5 0, bar 10 1], []⟩ ++ delivered ⟨[], [bar 10 2, bar 5 0]⟩ ++
          delivered ⟨[bar 20 3], []⟩) 10 ≠ some (bar 10 1) := by
  have different : some (bar 10 2) ≠ some (bar 10 1) := by simp [bar]
  exact ⟨⟨rfl, different⟩, rfl, different⟩

end DeepFeeder.FinalValues
