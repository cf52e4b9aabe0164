import Mathlib.Data.List.Flatten
import DeepFeeder.Client.DropOldest
import DeepFeeder.Client.Models

set_option autoImplicit false

namespace DeepFeeder.Client

open Transition

namespace Envelope

def isSnapshot (env : Envelope) : Bool := env.phase.isStr "snapshot"

def isBoundary (env : Envelope) : Bool := env.phase.isStr "snapshot_boundary"

def isBar (env : Envelope) : Bool := env.rowType.isStr "bar"

def isTrade (env : Envelope) : Bool := env.rowType.isStr "trade"

end Envelope

inductive HookCall where
  | onSnapshot (env : Envelope)
  | onSnapshotBoundary
  | onBar (row : TypedRow)
  | onTrade (row : TypedRow)
  | onEvent (env : Envelope)

def HookCall.row : HookCall → Option TypedRow
  | .onBar row | .onTrade row => some row
  | .onSnapshot _ | .onSnapshotBoundary | .onEvent _ => none

def dispatchCalls (env : Envelope) : List HookCall :=
  if env.isSnapshot then [.onSnapshot env]
  else
    (if env.isBoundary then [.onSnapshotBoundary] else []) ++
      if env.isBar && !env.rows.isEmpty then env.rows.map .onBar
      else if env.isTrade && !env.rows.isEmpty then env.rows.map .onTrade
      else if !env.rows.isEmpty then [.onEvent env]
      else []

/-- The calls that are made, from the given number on, and whether the last one raised: none is made
behind it. A missing hook raises an AttributeError. -/
def madeCalls (raises : Nat → Bool) : Nat → List HookCall → List HookCall × Bool
  | _, [] => ([], false)
  | n, call :: rest =>
      if raises n then ([call], true)
      else
        let later := madeCalls raises (n + 1) rest
        (call :: later.1, later.2)

structure Heard where
  env : Envelope
  calls : List HookCall
  raised : Bool

variable {raises : Nat → Bool}

theorem madeCalls_prefix (n : Nat) (calls : List HookCall) :
    (madeCalls raises n calls).1 <+: calls := by
  induction calls generalizing n with
  | nil => exact List.prefix_rfl
  | cons call rest ih =>
      rw [madeCalls]
      split
      next => exact List.prefix_append [call] rest
      next => exact (List.prefix_cons_inj call).mpr (ih (n + 1))

theorem madeCalls_whole (n : Nat) (calls : List HookCall)
    (quiet : (madeCalls raises n calls).2 = false) : (madeCalls raises n calls).1 = calls := by
  induction calls generalizing n with
  | nil => rfl
  | cons call rest ih =>
      rw [madeCalls] at quiet ⊢
      split
      next raised => rw [if_pos raised] at quiet; cases quiet
      next silent =>
        rw [if_neg silent] at quiet
        exact congrArg (call :: ·) (ih (n + 1) quiet)

theorem madeCalls_quiet (n : Nat) (calls : List HookCall) :
    ∀ i, i + 1 < (madeCalls raises n calls).1.length → raises (n + i) = false := by
  induction calls generalizing n with
  | nil => exact fun i inside => absurd inside (Nat.not_lt_zero _)
  | cons call rest ih =>
      rw [madeCalls]
      intro i inside
      split at inside
      next => exact absurd inside (by simp)
      next silent =>
        cases i with
        | zero => exact eq_false_of_ne_true silent
        | succ j =>
            have later := ih (n + 1) j (Nat.succ_lt_succ_iff.mp inside)
            rwa [Nat.add_right_comm, Nat.add_assoc] at later

theorem madeCalls_raised (n : Nat) (calls : List HookCall) :
    (madeCalls raises n calls).2 = true ↔
      ∃ i, i + 1 = (madeCalls raises n calls).1.length ∧ raises (n + i) = true := by
  induction calls generalizing n with
  | nil => simp [madeCalls]
  | cons call rest ih =>
      rw [madeCalls]
      split
      next raised => simpa using raised
      next silent =>
        rw [ih (n + 1)]
        constructor
        · rintro ⟨j, last, raised⟩
          refine ⟨j + 1, congrArg (· + 1) last, ?_⟩
          rwa [Nat.add_right_comm, Nat.add_assoc] at raised
        · rintro ⟨i, last, raised⟩
          cases i with
          | zero => exact absurd raised silent
          | succ j =>
              refine ⟨j, Nat.succ.inj last, ?_⟩
              rwa [Nat.add_right_comm, Nat.add_assoc]

theorem filterMap_row_map {hook : TypedRow → HookCall} (rows : List TypedRow)
    (given : ∀ row, (hook row).row = some row) : (rows.map hook).filterMap HookCall.row = rows := by
  have same : HookCall.row ∘ hook = some := funext given
  rw [List.filterMap_map, same, List.filterMap_some]

theorem dispatchCalls_rows (env : Envelope) :
    (dispatchCalls env).filterMap HookCall.row = env.rows ∨
      (dispatchCalls env).filterMap HookCall.row = [] := by
  unfold dispatchCalls
  split
  next => exact .inr rfl
  next =>
    have boundary : (if env.isBoundary then [HookCall.onSnapshotBoundary] else []).filterMap
        HookCall.row = [] := by
      split <;> rfl
    rw [List.filterMap_append, boundary, List.nil_append]
    split
    next => exact .inl (filterMap_row_map env.rows fun _ => rfl)
    next =>
      split
      next => exact .inl (filterMap_row_map env.rows fun _ => rfl)
      next => split <;> exact .inr rfl

structure Heard.Sound (raises : Nat → Bool) (n : Nat) (h : Heard) : Prop where
  calls : h.calls <+: dispatchCalls h.env
  whole : h.raised = false → h.calls = dispatchCalls h.env
  quiet : ∀ i, i + 1 < h.calls.length → raises (n + i) = false
  raised : h.raised = true ↔ ∃ i, i + 1 = h.calls.length ∧ raises (n + i) = true

theorem Heard.Sound.rows {h : Heard} {n : Nat} (sound : h.Sound raises n) :
    (h.calls.filterMap HookCall.row).Sublist h.env.rows := by
  have part := sound.calls.sublist.filterMap HookCall.row
  rcases dispatchCalls_rows h.env with rows | none
  next => rwa [rows] at part
  next =>
    rw [none] at part
    exact part.trans (List.nil_sublist _)

/-- A bot with a strategy, and what the strategy heard of each envelope that was dispatched. -/
structure Trading where
  handoff : Handoff Envelope
  heard : List Heard := []

namespace Trading

def calls (w : Trading) : List HookCall := w.heard.flatMap Heard.calls

def hear (raises : Nat → Bool) (w : Trading) (env : Envelope) : Heard :=
  let made := madeCalls raises w.calls.length (dispatchCalls env)
  { env, calls := made.1, raised := made.2 }

def note (raises : Nat → Bool) (w : Trading) : BotAction Envelope → Trading
  | .dispatch =>
      match w.handoff.bot.pc with
      | .passed env => { w with heard := w.heard ++ [w.hear raises env] }
      | _ => w
  | _ => w

def step (raises : Nat → Bool) (w : Trading) (a : BotAction Envelope) : Option Trading :=
  (w.handoff.step a).map fun handoff => { w.note raises a with handoff }

variable {w w' : Trading} {a : BotAction Envelope} {client : Nat}

theorem hear_sound (w : Trading) (env : Envelope) :
    (w.hear raises env).Sound raises w.calls.length where
  calls := madeCalls_prefix _ _
  whole := madeCalls_whole _ _
  quiet := madeCalls_quiet _ _
  raised := madeCalls_raised _ _

def Sounds (raises : Nat → Bool) (heard : List Heard) : Prop :=
  ∀ before h after, heard = before ++ h :: after →
    h.Sound raises (before.flatMap Heard.calls).length

structure Hears (raises : Nat → Bool) (w : Trading) (client : Nat) : Prop where
  handed : w.handoff.Handed client
  dispatched : w.heard.map Heard.env = w.handoff.dispatched
  sound : Sounds raises w.heard

theorem Sounds.append {heard : List Heard} {last : Heard} (sounds : Sounds raises heard)
    (sound : last.Sound raises (heard.flatMap Heard.calls).length) :
    Sounds raises (heard ++ [last]) := by
  intro before h after split
  rcases List.eq_nil_or_concat after with rfl | ⟨front, final, rfl⟩
  next =>
    obtain ⟨rfl, same⟩ := List.append_inj' split rfl
    exact List.singleton_inj.mp same ▸ sound
  next =>
    rw [List.concat_eq_append, ← List.cons_append, ← List.append_assoc] at split
    exact sounds before h front (List.append_inj' split rfl).1

theorem note_cases (a : BotAction Envelope) (stepped : w.handoff.bot.step a ≠ none) :
    (∃ env, (w.note raises a).heard = w.heard ++ [w.hear raises env] ∧
        (w.handoff.note a).dispatched = w.handoff.dispatched ++ [env]) ∨
      (w.note raises a).heard = w.heard ∧
        (w.handoff.note a).dispatched = w.handoff.dispatched := by
  cases a with
  | dispatch =>
      cases pc : w.handoff.bot.pc with
      | passed env => exact .inl ⟨env, by simp [note, pc], by simp [Handoff.note, pc]⟩
      | _ => simp [Bot.step, Bot.dispatch, pc] at stepped
  | dropOldest | get => simp only [Handoff.note]; split <;> exact .inr ⟨rfl, rfl⟩
  | putAgain =>
      simp only [Handoff.note]
      split
      next => split <;> exact .inr ⟨rfl, rfl⟩
      next => exact .inr ⟨rfl, rfl⟩
  | _ => exact .inr ⟨rfl, rfl⟩

theorem Hears.step (hears : Hears raises w client) (own : Handoff.ofClient client a = true)
    (taken : w.step raises a = some w') : Hears raises w' client := by
  obtain ⟨handoff, stepped, rfl⟩ := Option.map_eq_some_iff.mp taken
  have handed := Handoff.step_handed hears.handed own stepped
  obtain ⟨bot, moved, rfl⟩ := Handoff.step_eq stepped
  have noted : (∃ env, (w.note raises a).heard = w.heard ++ [w.hear raises env] ∧
      (w.handoff.note a).dispatched = w.handoff.dispatched ++ [env]) ∨
    (w.note raises a).heard = w.heard ∧
      (w.handoff.note a).dispatched = w.handoff.dispatched :=
    note_cases a (by rw [moved]; simp)
  refine { handed, dispatched := ?_, sound := ?_ }
  all_goals
    rcases noted with ⟨env, heard, sent⟩ | ⟨heard, sent⟩
  next =>
    change (w.note raises a).heard.map Heard.env = (w.handoff.note a).dispatched
    rw [heard, sent, List.map_append, hears.dispatched]
    rfl
  next =>
    change (w.note raises a).heard.map Heard.env = (w.handoff.note a).dispatched
    rw [heard, sent, hears.dispatched]
  next =>
    change Sounds raises (w.note raises a).heard
    rw [heard]
    exact hears.sound.append (w.hear_sound env)
  next =>
    change Sounds raises (w.note raises a).heard
    rw [heard]
    exact hears.sound

theorem dispatched_sublist {v : Handoff Envelope} (handed : v.Handed client) :
    v.dispatched.Sublist v.received := by
  obtain ⟨before, received, sub, -⟩ := handed.arrived
  have got : ((v.removed.filter Prod.snd).map Prod.fst).Sublist (v.removed.map Prod.fst) :=
    List.filter_sublist.map _
  rw [handed.taken] at got
  have removed : (v.removed.map Prod.fst).Sublist v.enqueued := by
    rw [handed.oldest]
    exact List.sublist_append_left _ _
  rw [received]
  exact (((List.sublist_append_left _ _).trans got).trans removed).trans
    (sub.trans (List.sublist_append_left _ _))

theorem rows_sublist {heard : List Heard} (sounds : Sounds raises heard) :
    ((heard.flatMap Heard.calls).filterMap HookCall.row).Sublist
      ((heard.map Heard.env).flatMap Envelope.rows) := by
  rw [List.filterMap_flatMap, List.flatMap_map]
  refine List.Sublist.flatMap_right heard fun h member => ?_
  obtain ⟨before, after, split⟩ := List.append_of_mem member
  exact (sounds before h after split).rows

/-- In a run with one thread of the client, the strategy hears some of the envelopes received, in order,
each as `_dispatch` has it up to a call that raises, and rows only as they were received. -/
theorem strategy_hears {maxsize : Nat}
    (reached : Reaches (step raises) (fun _ a => Handoff.ofClient client a = true)
      { handoff := { bot := { maxsize } } } w) :
    (w.heard.map Heard.env).Sublist w.handoff.received ∧
      (∀ before h after, w.heard = before ++ h :: after →
        let n := (before.flatMap Heard.calls).length
        h.calls <+: dispatchCalls h.env ∧ (h.raised = false → h.calls = dispatchCalls h.env) ∧
        (∀ i, i + 1 < h.calls.length → raises (n + i) = false) ∧
        (h.raised = true ↔ ∃ i, i + 1 = h.calls.length ∧ raises (n + i) = true)) ∧
      (w.calls.filterMap HookCall.row).Sublist (w.handoff.received.flatMap Envelope.rows) := by
  have hears : Hears raises w client := by
    refine reached.invariant (Hears raises · client) ?_ fun _ _ _ hears own taken =>
      hears.step own taken
    exact {
      handed := ⟨⟨[], rfl, List.Sublist.refl _, rfl⟩, rfl, rfl⟩
      dispatched := rfl
      sound := by simp [Sounds] }
  have some := dispatched_sublist hears.handed
  refine ⟨hears.dispatched ▸ some, fun before h after split => ?_, ?_⟩
  next =>
    have sound := hears.sound before h after split
    exact ⟨sound.calls, sound.whole, sound.quiet, sound.raised⟩
  next =>
    have rows := rows_sublist hears.sound
    rw [hears.dispatched] at rows
    exact rows.trans (some.flatMap _)

def tradeRow (price : PyFloat) : TypedRow :=
  .trade
    { provider := .str "binance", symbol := "BTCUSDT", timestamp := utc 0, price := some price
      quantity := some (.finite 1), tradeId := .int 1, exchange := .none, isBuyerMaker := none
      buyerId := .none, sellerId := .none }

def tradesEnvelope (phase : String) (rows : List TypedRow) : Envelope :=
  { version := 1, phase := .str phase, part := .str "new", provider := .str "binance"
    schema := .str "trades", symbol := .str "BTCUSDT", rows, rowType := .str "trade", seq := none
    watermarkNs := none, rawMeta := [] }

def threeEnvelopes : List (BotAction Envelope) :=
  [.start, .onData 0 (tradesEnvelope "snapshot" [tradeRow (.finite 1)]),
    .onData 0 (tradesEnvelope "live" [tradeRow (.finite 2), tradeRow (.finite 3)]),
    .onData 0 (tradesEnvelope "live" [tradeRow (.finite 4)]), .loopTest, .subscribe true, .get, .gateTest,
    .dispatch, .loopTest, .subscribe true, .get, .gateTest, .dispatch, .loopTest, .subscribe true,
    .get, .gateTest, .dispatch]

-- The first trade of the second envelope raises, and the third envelope is heard all the same.
theorem strategy_hears_raise :
    ∃ w : Trading, w.heard.map (fun h => (h.calls.length, h.raised)) =
        [(1, false), (1, true), (1, false)] ∧
      (w.heard.map Heard.env).Sublist w.handoff.received := by
  have checked : (run (step fun n => n = 1) { handoff := { bot := { maxsize := 10 } } }
      threeEnvelopes).map (fun w => decide (w.heard.map (fun h => (h.calls.length, h.raised)) =
        [(1, false), (1, true), (1, false)])) = some true := by
    decide +kernel
  have own : ∀ a ∈ threeEnvelopes, Handoff.ofClient 0 a = true := by decide
  obtain ⟨w, result, heard⟩ := Option.map_eq_some_iff.mp checked
  have reached : Reaches (step fun n => n = 1) (fun _ a => Handoff.ofClient 0 a = true)
      { handoff := { bot := { maxsize := 10 } } } w :=
    .run .refl (runMeets_of_mem (fun a member _ => own a member) _) result
  exact ⟨w, of_decide_eq_true heard, (strategy_hears reached).1⟩

end Trading

end DeepFeeder.Client
