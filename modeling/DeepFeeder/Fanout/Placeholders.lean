import Mathlib.Data.List.Chain
import Mathlib.Data.Int.Order.Basic
import DeepFeeder.Shared.Transition
import DeepFeeder.Fanout.Schemas

set_option autoImplicit false

namespace DeepFeeder.Placeholders

open Transition SymListener

structure Run where
  listener : SymListener
  received : List Row
  added : List Row
  completed : List Row

def Run.start (spec : SchemaSpec) (bufMaxlen : Nat) : Run :=
  { listener := .init spec bufMaxlen, received := [], added := [], completed := [] }

def step (s : Run) (a : TableUpdate × Int) : Option Run :=
  let emitted := s.listener.onUpdate a.1 a.2
  some { listener := emitted.2
         received := s.received ++ (a.1.added ++ a.1.modified)
         added := s.added ++ emitted.1.added.getD []
         completed := s.completed ++ emitted.1.completed.getD [] }

def GotReal (rows : List Row) (time : Int) : Prop :=
  ∃ row ∈ rows, row.time = time ∧ row.isPlaceholder = false

instance (rows : List Row) (time : Int) : Decidable (GotReal rows time) :=
  inferInstanceAs (Decidable (∃ row ∈ rows, row.time = time ∧ row.isPlaceholder = false))

/-- No placeholder was emitted as added, and only periods with a real row were completed. -/
def NoneEmitted (s : Run) : Prop :=
  (∀ row ∈ s.added, row.isPlaceholder = false) ∧ ∀ bar ∈ s.completed, GotReal s.received bar.time

def barTimes (s : Run) (update : TableUpdate) : List Int :=
  (s.listener.curr.map Row.time).toList ++ update.added.map Row.time

def Unmixed (rows : List Row) : Prop :=
  (∀ row ∈ rows, row.isPlaceholder = true) ∨ ∀ row ∈ rows, row.isPlaceholder = false

-- The update adds placeholders or real rows, not both, and by the time that a newer row is added each
-- current bar's period has got a real row.
def RealPeriods (s : Run) (a : TableUpdate × Int) : Prop :=
  Unmixed a.1.added ∧
    (barTimes s a.1).IsChain fun time next =>
      time < next → GotReal (s.received ++ (a.1.added ++ a.1.modified)) time

instance (s : Run) (a : TableUpdate × Int) : Decidable (RealPeriods s a) :=
  inferInstanceAs (Decidable (((∀ row ∈ a.1.added, row.isPlaceholder = true) ∨
      ∀ row ∈ a.1.added, row.isPlaceholder = false) ∧
    (barTimes s a.1).IsChain fun time next =>
      time < next → GotReal (s.received ++ (a.1.added ++ a.1.modified)) time))

variable {s s' : Run} {a : TableUpdate × Int}

theorem addRows_placeholderOnly (spec : SchemaSpec) (rows : List Row) (s : Adding) :
    (rows.foldl (addRow spec) s).placeholderOnly =
      (s.placeholderOnly && rows.all Row.isPlaceholder) := by
  induction rows generalizing s with
  | nil => simp
  | cons row rest ih =>
      have here : (addRow spec s row).placeholderOnly =
          (s.placeholderOnly && row.isPlaceholder) := by
        unfold addRow
        split_ifs with placeholder
        · simp [placeholder]
        · simp [placeholder]
      rw [List.foldl_cons, ih, here, List.all_cons, Bool.and_assoc]

theorem addRows_completed_iff (spec : SchemaSpec) (P : Int → Prop) (rows : List Row) (s : Adding) :
    (∀ bar ∈ (rows.foldl (addRow spec) s).completedRows, P bar.time) ↔
      (∀ bar ∈ s.completedRows, P bar.time) ∧
        ((s.curr.map Row.time).toList ++ rows.map Row.time).IsChain fun time next =>
          time < next → P time := by
  induction rows generalizing s with
  | nil => cases s.curr <;> simp
  | cons row rest ih =>
      rw [List.foldl_cons, ih, addRow_completed, addRow_time]
      cases s.curr with
      | none => simp
      | some bar =>
          by_cases newer : bar.time < row.time
          · simp [newer, or_imp, forall_and, and_assoc]
          · simp [newer]

theorem onUpdate_added (l : SymListener) (bar : l.spec.isBar = true) (update : TableUpdate)
    (nowNs : Int) :
    (∀ row ∈ (l.onUpdate update nowNs).1.added.getD [], row.isPlaceholder = false) ↔
      Unmixed update.added := by
  have emitted : (l.onUpdate update nowNs).1.added.getD [] =
      if update.added.all Row.isPlaceholder then [] else update.added := by
    unfold onUpdate
    rw [if_pos bar]
    simp only [addRows, addRows_placeholderOnly, Bool.true_and]
    split
    · rfl
    · exact nonEmpty_getD _
  rw [emitted]
  unfold Unmixed
  split
  next all =>
    rw [List.all_eq_true] at all
    exact ⟨fun _ => .inl all, fun _ _ member => nomatch member⟩
  next some_ =>
    rw [List.all_eq_true] at some_
    exact ⟨.inr, fun unmixed => unmixed.resolve_left some_⟩

theorem onUpdate_completed (l : SymListener) (bar : l.spec.isBar = true) (update : TableUpdate)
    (nowNs : Int) (P : Int → Prop) :
    (∀ row ∈ (l.onUpdate update nowNs).1.completed.getD [], P row.time) ↔
      ((l.curr.map Row.time).toList ++ update.added.map Row.time).IsChain fun time next =>
        time < next → P time := by
  have times (rows : List Row) :
      (∀ row ∈ fromPylist rows, P row.time) ↔ ∀ row ∈ rows, P row.time := by
    rw [← List.forall_mem_map (f := Row.time) (P := P), fromPylist_times, List.forall_mem_map]
  rw [(onUpdate_bar bar update nowNs).1, times, addRows, addRows_completed_iff]
  simp

-- A step keeps placeholders from the subscribers exactly on the condition.
theorem step_noneEmitted_iff (bar : s.listener.spec.isBar = true) (none_ : NoneEmitted s)
    (taken : step s a = some s') : NoneEmitted s' ↔ RealPeriods s a := by
  simp only [step, Option.some.injEq] at taken
  subst taken
  have kept : ∀ row ∈ s.completed, GotReal (s.received ++ (a.1.added ++ a.1.modified)) row.time := by
    intro row member
    obtain ⟨real, inside, got⟩ := none_.2 row member
    exact ⟨real, List.mem_append_left _ inside, got⟩
  unfold NoneEmitted RealPeriods
  rw [List.forall_mem_append, List.forall_mem_append, onUpdate_added s.listener bar,
    onUpdate_completed s.listener bar a.1 a.2
      (GotReal (s.received ++ (a.1.added ++ a.1.modified)))]
  exact and_congr (and_iff_right none_.1) (and_iff_right kept)

theorem isBar_of_isEmpty {provider dataSchema : String} {spec : SchemaSpec}
    (registered : schemas provider dataSchema = some spec) (filled : "IsEmpty" ∈ spec.cols) :
    spec.isBar = true := by
  have all : ∀ item ∈ schemaItems, "IsEmpty" ∈ item.2.2.cols → item.2.2.isBar = true := by decide
  exact all _ (mem_schemaItems registered) filled

/-- Of a schema with placeholders none is emitted in any run whose steps meet the condition, and the
first step that does not meet it emits one. -/
theorem no_placeholders_emitted {provider dataSchema : String} {spec : SchemaSpec}
    (registered : schemas provider dataSchema = some spec) (filled : "IsEmpty" ∈ spec.cols)
    {bufMaxlen : Nat} (reached : Reaches step RealPeriods (.start spec bufMaxlen) s) :
    NoneEmitted s ∧
      ∀ a s', step s a = some s' → (NoneEmitted s' ↔ RealPeriods s a) := by
  have both : s.listener.spec.isBar = true ∧ NoneEmitted s := by
    apply reached.invariant fun s => s.listener.spec.isBar = true ∧ NoneEmitted s
    · exact ⟨isBar_of_isEmpty registered filled, by simp [NoneEmitted, Run.start]⟩
    · rintro s a s' ⟨bar, none_⟩ real taken
      refine ⟨?_, (step_noneEmitted_iff bar none_ taken).mpr real⟩
      simp only [step, Option.some.injEq] at taken
      subst taken
      exact (onUpdate_bar bar a.1 a.2).2.2 ▸ bar
  exact ⟨both.2, fun _ _ taken => step_noneEmitted_iff both.1 both.2 taken⟩

def barRow (time : Int) (isEmpty : Bool) : Row where
  time
  cells := [("Symbol", .str "BTCUSDT"), ("IsEmpty", .bool isEmpty)]
  distinct := by simp

-- A placeholder completes the bar before it, and gets a trade in its own time.
theorem placeholder_advances_clock :
    ∃ s, Reaches step RealPeriods (.start binanceOhlcv1m 256) s ∧ s.added.map Row.time = [60] ∧
      s.completed.map Row.time = [60, 120] ∧ NoneEmitted s := by
  obtain ⟨s, reached, last⟩ := reaches_allowed_of_check step RealPeriods (.start binanceOhlcv1m 256)
    [(⟨[barRow 60 false], []⟩, 1), (⟨[barRow 120 true], []⟩, 2), (⟨[], [barRow 120 false]⟩, 3),
      (⟨[barRow 180 true], []⟩, 4)]
    (fun s => s.added.map Row.time = [60] ∧ s.completed.map Row.time = [60, 120])
    (by decide) (by decide)
  obtain ⟨added, completed⟩ := of_decide_eq_true last
  exact ⟨s, reached, added, completed,
    (no_placeholders_emitted (show schemas "binance" "ohlcv_1m" = _ from rfl) (by decide)
      reached).1⟩

-- The second of two empty periods completes the first; a placeholder is added with a real row.
theorem placeholders_emitted :
    ∃ s, Reaches step anyStep (.start binanceOhlcv1m 256) s ∧
      (s.completed.map Row.time = [60, 120, 180] ∧ ¬ GotReal s.received 60 ∧
        ¬ GotReal s.received 120 ∧
        s.added.map (fun row => (row.time, row.isPlaceholder)) = [(180, false), (240, true)]) ∧
      ¬ NoneEmitted s := by
  obtain ⟨s, reached, last⟩ := reaches_of_check step (.start binanceOhlcv1m 256)
    [(⟨[barRow 60 true], []⟩, 1), (⟨[barRow 120 true], []⟩, 2),
      (⟨[barRow 180 false, barRow 240 true], []⟩, 3)]
    (fun s => s.completed.map Row.time = [60, 120, 180] ∧ ¬ GotReal s.received 60 ∧
      ¬ GotReal s.received 120 ∧
      s.added.map (fun row => (row.time, row.isPlaceholder)) = [(180, false), (240, true)])
    (by decide)
  have emitted := of_decide_eq_true last
  refine ⟨s, reached, emitted, ?_⟩
  intro none_
  obtain ⟨_, _, _, added⟩ := emitted
  have placeholder : (240, true) ∈ s.added.map fun row => (row.time, row.isPlaceholder) := by
    rw [added]
    simp
  obtain ⟨row, member, same⟩ := List.mem_map.mp placeholder
  have real := none_.1 row member
  rw [(Prod.mk.inj same).2] at real
  cases real

end DeepFeeder.Placeholders
