import Mathlib.Data.List.Basic
import Mathlib.Data.List.Nodup
import Mathlib.Order.Basic
import Mathlib.Data.Int.Order.Basic
import DeepFeeder.Shared.Transition
import DeepFeeder.Fanout.Listener

set_option autoImplicit false

namespace DeepFeeder.BarCompletion

open Transition SymListener

-- A listener, and the times of all rows added to its view and of all bars it has completed.
structure BarRun where
  listener : SymListener
  added : List Int
  completed : List Int

def BarRun.start (spec : SchemaSpec) (bufMaxlen : Nat) : BarRun :=
  { listener := .init spec bufMaxlen, added := [], completed := [] }

def step (s : BarRun) (a : TableUpdate × Int) : Option BarRun :=
  let emitted := s.listener.onUpdate a.1 a.2
  some { listener := emitted.2
         added := s.added ++ a.1.added.map Row.time
         completed := s.completed ++ (emitted.1.completed.getD []).map Row.time }

-- Completed times increase, and a bar that was the newest when it was added is completed exactly once
-- when a newer one has been added.
def CompletesInOrder (s : BarRun) : Prop :=
  s.completed.Pairwise (· < ·) ∧
    ∀ before bar after, s.added = before ++ bar :: after → (∀ t ∈ before, t < bar) →
      (∃ t ∈ after, bar < t) → s.completed.count bar = 1

def addedAfter (s : BarRun) (update : TableUpdate) : List Int :=
  (s.listener.curr.map Row.time).toList ++ update.added.map Row.time

-- No added row is older than the bar that is current when it comes, and the modification that is
-- looked at is not newer than the bar current then.
def UpdateInOrder (s : BarRun) (a : TableUpdate × Int) : Prop :=
  (addedAfter s a.1).Pairwise (· ≤ ·) ∧
    ∀ newest ∈ (addedAfter s a.1).getLast?, ∀ last ∈ a.1.modified.getLast?, last.time ≤ newest

instance (s : BarRun) (a : TableUpdate × Int) : Decidable (UpdateInOrder s a) :=
  inferInstanceAs (Decidable ((addedAfter s a.1).Pairwise (· ≤ ·) ∧
    ∀ newest ∈ (addedAfter s a.1).getLast?, ∀ last ∈ a.1.modified.getLast?, last.time ≤ newest))

structure Rolled (curr : Option Int) (added completed : List Int) : Prop where
  ascending : completed.Pairwise (· < ·)
  older : ∀ t ∈ completed, ∃ c ∈ curr, t < c
  seen : ∀ t ∈ added, ∃ c ∈ curr, t ≤ c ∧ (t < c → t ∈ completed)

variable {curr : Option Int} {added completed : List Int}

theorem Rolled.nothing (rolled : Rolled none added completed) : added = [] ∧ completed = [] := by
  constructor
  · apply List.eq_nil_iff_forall_not_mem.mpr
    intro other member
    obtain ⟨_, never, _⟩ := rolled.seen other member
    cases never
  · apply List.eq_nil_iff_forall_not_mem.mpr
    intro other member
    obtain ⟨_, never, _⟩ := rolled.older other member
    cases never

theorem Rolled.rollover {c t : Int} (rolled : Rolled (some c) added completed) (newer : c < t) :
    Rolled (some t) (added ++ [t]) (completed ++ [c]) := by
  have older : ∀ other ∈ completed, other < c := by
    intro other member
    simpa using rolled.older other member
  have seen : ∀ other ∈ added, other ≤ c ∧ (other < c → other ∈ completed) := by
    intro other member
    simpa using rolled.seen other member
  refine ⟨?_, ?_, ?_⟩
  · rw [List.pairwise_append]
    refine ⟨rolled.ascending, by simp, ?_⟩
    intro other member last inserted
    rw [List.mem_singleton.mp inserted]
    exact older other member
  · intro other member
    refine ⟨t, rfl, ?_⟩
    rcases List.mem_append.mp member with old | last
    · exact lt_trans (older other old) newer
    · rwa [List.mem_singleton.mp last]
  · intro other member
    refine ⟨t, rfl, ?_⟩
    rcases List.mem_append.mp member with old | last
    · obtain ⟨before, done⟩ := seen other old
      refine ⟨le_trans before newer.le, ?_⟩
      intro _
      rcases lt_or_eq_of_le before with less | same
      · exact List.mem_append_left _ (done less)
      · exact List.mem_append_right _ (List.mem_singleton.mpr same)
    · rw [List.mem_singleton.mp last]
      exact ⟨le_refl t, fun less => absurd less (lt_irrefl t)⟩

theorem Rolled.again {c : Int} (rolled : Rolled (some c) added completed) :
    Rolled (some c) (added ++ [c]) completed := by
  refine ⟨rolled.ascending, rolled.older, ?_⟩
  intro other member
  rcases List.mem_append.mp member with old | last
  · exact rolled.seen other old
  · rw [List.mem_singleton.mp last]
    exact ⟨c, rfl, le_refl c, fun less => absurd less (lt_irrefl c)⟩

theorem Rolled.add (rolled : Rolled curr added completed) {t : Int} (inOrder : ∀ c ∈ curr, c ≤ t) :
    Rolled (some t) (added ++ [t]) (completed ++ curr.toList.filter fun c => c < t) := by
  cases curr with
  | none =>
      obtain ⟨rfl, rfl⟩ := rolled.nothing
      exact ⟨List.Pairwise.nil, by simp, by simp⟩
  | some c =>
      have le : c ≤ t := inOrder c rfl
      by_cases newer : c < t
      · have filtered : (some c).toList.filter (fun c => c < t) = [c] := by simp [newer]
        rw [filtered]
        exact rolled.rollover newer
      · have same : c = t := le_antisymm le (not_lt.mp newer)
        subst same
        have filtered : (some c).toList.filter (fun other => other < c) = [] := by simp
        rw [filtered, List.append_nil]
        exact rolled.again

theorem addRows_time (spec : SchemaSpec) (rows : List Row) (s : Adding) :
    (rows.foldl (addRow spec) s).curr.map Row.time =
      ((s.curr.map Row.time).toList ++ rows.map Row.time).getLast? := by
  induction rows generalizing s with
  | nil => cases current : s.curr <;> simp [current]
  | cons row rest ih =>
      rw [List.foldl_cons, ih, addRow_time]
      simp [List.getLast?_append, List.getLast?_cons]

theorem addRows_rolled (spec : SchemaSpec) (rows : List Row) (s : Adding)
    (rolled : Rolled (s.curr.map Row.time) added (completed ++ s.completedRows.map Row.time))
    (inOrder : ((s.curr.map Row.time).toList ++ rows.map Row.time).Pairwise (· ≤ ·)) :
    Rolled ((rows.foldl (addRow spec) s).curr.map Row.time) (added ++ rows.map Row.time)
      (completed ++ (rows.foldl (addRow spec) s).completedRows.map Row.time) := by
  induction rows generalizing s added with
  | nil => simpa using rolled
  | cons row rest ih =>
      have notOlder : ∀ c ∈ s.curr.map Row.time, c ≤ row.time := by
        intro c current
        rw [List.pairwise_append] at inOrder
        exact inOrder.2.2 c (Option.mem_toList.mpr current) row.time (by simp)
      have next := rolled.add notOlder
      rw [← addRow_time spec s row, List.append_assoc] at next
      have completedTimes : s.completedRows.map Row.time ++
          (s.curr.map Row.time).toList.filter (fun c => c < row.time) =
            (addRow spec s row).completedRows.map Row.time := by
        rw [addRow_completed]
        cases s.curr with
        | none => simp
        | some bar => by_cases newer : bar.time < row.time <;> simp [newer]
      rw [completedTimes] at next
      have later := ih (addRow spec s row) next (by
        rw [addRow_time]
        rw [List.map_cons, List.pairwise_append] at inOrder
        exact inOrder.2.1)
      rw [List.foldl_cons, List.map_cons, ← List.singleton_append, ← List.append_assoc]
      exact later

theorem modifyBar_rolled {bar : Option Row} (modified : List Row)
    (rolled : Rolled (bar.map Row.time) added completed)
    (inOrder : ∀ newest ∈ bar.map Row.time, ∀ last ∈ modified.getLast?, last.time ≤ newest) :
    Rolled ((modifyBar bar modified).map Row.time) added completed := by
  unfold modifyBar
  cases last : modified.getLast? with
  | none => exact rolled
  | some row =>
      cases bar with
      | none =>
          refine ⟨rolled.ascending, ?_, ?_⟩
          · intro t member
            obtain ⟨_, never, _⟩ := rolled.older t member
            cases never
          · intro t member
            obtain ⟨_, never, _⟩ := rolled.seen t member
            cases never
      | some bar =>
          simp only
          split_ifs with le
          · have same : row.time = bar.time := le_antisymm (inOrder bar.time rfl row last) le
            rw [Option.map_some, same]
            exact rolled
          · exact rolled

def Invariant (s : BarRun) : Prop :=
  s.listener.spec.isBar = true ∧ Rolled (s.listener.curr.map Row.time) s.added s.completed

theorem step_invariant {s s' : BarRun} {a : TableUpdate × Int} (inv : Invariant s)
    (inOrder : UpdateInOrder s a) (taken : step s a = some s') : Invariant s' := by
  obtain ⟨bar, rolled⟩ := inv
  obtain ⟨ascending, notNewer⟩ := inOrder
  obtain ⟨batch, curr, spec⟩ := onUpdate_bar bar a.1 a.2
  simp only [step, Option.some.injEq] at taken
  subst taken
  refine ⟨spec ▸ bar, ?_⟩
  simp only [batch, curr, fromPylist_times]
  apply modifyBar_rolled
  · exact addRows_rolled s.listener.spec a.1.added ⟨s.listener.curr, [], true⟩ (by simpa using rolled)
      ascending
  · rw [show (s.listener.addRows a.1.added).curr.map Row.time = (addedAfter s a.1).getLast? from
      addRows_time s.listener.spec a.1.added ⟨s.listener.curr, [], true⟩]
    exact notNewer

theorem completes_in_order {spec : SchemaSpec} (bar : spec.isBar = true) {bufMaxlen : Nat}
    {s : BarRun} (reached : Reaches step UpdateInOrder (.start spec bufMaxlen) s) :
    CompletesInOrder s := by
  have initial : Invariant (.start spec bufMaxlen) :=
    ⟨bar, List.Pairwise.nil, by simp [BarRun.start], by simp [BarRun.start]⟩
  have ⟨_, rolled⟩ : Invariant s := reached.invariant Invariant initial
    fun _ _ _ inv inOrder taken => step_invariant inv inOrder taken
  refine ⟨rolled.ascending, ?_⟩
  rintro before newest after split _ ⟨t, later, less⟩
  obtain ⟨c, current, le, _⟩ := rolled.seen t (by simp [split, later])
  obtain ⟨c', current', _, done⟩ := rolled.seen newest (by simp [split])
  have same : c = c' := Option.some.inj (current.symm.trans current')
  have member : newest ∈ s.completed := done (lt_of_lt_of_le less (same ▸ le))
  exact List.count_eq_one_of_mem (rolled.ascending.imp fun less => ne_of_lt less) member

def bar (time : Int) : Row := { time, cells := [], distinct := List.Pairwise.nil }

theorem completes_in_order_refined :
    ∃ s, Reaches step UpdateInOrder (.start tradingviewOhlcv1m 256) s ∧ s.completed = [10, 20] ∧
      CompletesInOrder s := by
  obtain ⟨s, reached, last⟩ := reaches_allowed_of_check step UpdateInOrder (.start tradingviewOhlcv1m 256)
    [(⟨[bar 10], []⟩, 1), (⟨[], [bar 10]⟩, 2), (⟨[bar 20, bar 30], [bar 20, bar 30]⟩, 3)]
    (fun s => s.completed = [10, 20]) (by decide) (by decide)
  exact ⟨s, reached, of_decide_eq_true last, completes_in_order (by decide) reached⟩

-- Bar 5 comes late and takes the place of bar 20, which is then never completed.
theorem late_bar_breaks_order :
    ∃ s, Reaches step anyStep (.start tradingviewOhlcv1m 256) s ∧ s.added = [10, 20, 5, 15, 30] ∧
      s.completed = [10, 5, 15] ∧ ¬ CompletesInOrder s := by
  obtain ⟨s, reached, last⟩ := reaches_of_check step (.start tradingviewOhlcv1m 256)
    [(⟨[bar 10], []⟩, 1), (⟨[bar 20], []⟩, 2), (⟨[bar 5], []⟩, 3), (⟨[bar 15], []⟩, 4),
      (⟨[bar 30], []⟩, 5)]
    (fun s => s.added = [10, 20, 5, 15, 30] ∧ s.completed = [10, 5, 15]) (by decide)
  obtain ⟨added, completed⟩ := of_decide_eq_true last
  refine ⟨s, reached, added, completed, ?_⟩
  rintro ⟨ascending, _⟩
  rw [completed] at ascending
  exact absurd ascending (by decide)

end DeepFeeder.BarCompletion
