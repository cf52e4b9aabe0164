import DeepFeeder.Providers.BackfillDone
import DeepFeeder.Runtime.PlannerRuns

set_option autoImplicit false

namespace DeepFeeder.GapRefill

open Transition PlannerRuns

section Tasks

variable [Uppercase]

variable {exchange : Exchange} {task : Task} {pageSize : Int} {turns : Nat → Turn} {b : Nat}
  {cur lastId : Int} {published : List (List Tick)}

/-- No turn is stopped, and every request is answered with at least one of the trades asked for, if
there are any. -/
def Answered (pageSize : Int) (turns : Nat → Turn) : Prop :=
  ∀ k, (turns k).stop = false ∧ 0 < pageCount pageSize (turns k)

def Convertible (symbol : String) (trades : List ExchangeTrade) : Prop :=
  ∀ t ∈ trades, restTradeJsonToTick t.row symbol ≠ none

theorem processLoop_answered (fuel : Nat) (below : lastId < cur)
    (enough : (task.endId - cur + 1).toNat < fuel) (answered : Answered pageSize turns)
    (convertible : Convertible task.symbol (requestedTrades exchange task cur)) :
    ∃ batches, processLoop exchange pageSize task turns fuel b cur lastId published =
        .returned batches ∧
      batches.flatten.map some = published.flatten.map some ++
        (requestedTrades exchange task cur).map fun t => restTradeJsonToTick t.row task.symbol := by
  induction fuel generalizing b cur lastId published with
  | zero => omega
  | succ fuel ih =>
      obtain ⟨running, some_⟩ := answered b
      unfold processLoop
      rcases processTurn_cases exchange task pageSize (turns b) published below with
        ⟨result, ended⟩ | ⟨result, _, _, t, taken, fails⟩ | ⟨empty, after, later, _, result⟩ |
          ⟨_, _, front, t, ticks, taken, same, outcome⟩
      · refine ⟨published, by rw [result], ?_⟩
        rcases ended with empty | stopped | none
        · rw [empty, List.map_nil, List.append_nil]
        · rw [running] at stopped
          cases stopped
        · omega
      · exact absurd fails (convertible t (List.mem_of_mem_take taken))
      · have none : requestedTrades exchange task after = [] := by
          rw [requestedTrades_later (le_of_lt later), empty]
          rfl
        obtain ⟨batches, ends, content⟩ := ih (b := b + 1)
          (show lastId < after by omega) (by omega) (none ▸ fun _ member => by cases member)
        refine ⟨batches, by rw [result]; exact ends, ?_⟩
        rw [content, none, empty]
      · obtain ⟨_, lower, upper⟩ := mem_requestedTrades.mp (lastOfPage_mem taken)
        have rest := requestedTrades_drop taken
        have split : (requestedTrades exchange task cur).map
              (fun t => restTradeJsonToTick t.row task.symbol) =
            ticks.map some ++ (requestedTrades exchange task (t.id + 1)).map
              fun t => restTradeJsonToTick t.row task.symbol := by
          rw [same, rest, ← List.map_append, List.take_append_drop]
        rcases outcome with ⟨result, ended⟩ | result
        · refine ⟨published ++ [ticks], by rw [result], ?_⟩
          have none : requestedTrades exchange task (t.id + 1) = [] :=
            requestedTrades_ended (by omega)
          rw [split, none]
          simp
        · obtain ⟨batches, ends, content⟩ := ih (b := b + 1)
            (show t.id < t.id + 1 by omega) (by omega)
            (fun other member => convertible other (List.mem_of_mem_drop (rest ▸ member)))
          refine ⟨batches, by rw [result]; exact ends, ?_⟩
          rw [content, split]
          simp

theorem processTask_answered (answered : Answered pageSize turns)
    (convertible : Convertible task.symbol (requestedTrades exchange task task.startId)) :
    ∃ batches, processTask exchange pageSize task turns = .returned batches ∧
      batches.flatten.map some = (requestedTrades exchange task task.startId).map fun t =>
        restTradeJsonToTick t.row task.symbol :=
  processLoop_answered _ (by omega) (Nat.lt_succ_self _) answered convertible

def missing (exchange : Exchange) (gap : Gap) : List ExchangeTrade :=
  (exchange.trades (upper gap.symbol)).filter fun t => decide (gap.startId ≤ t.id ∧ t.id ≤ gap.endId)

theorem requestedTrades_piece {gap : Gap} (own : task.symbol = gap.symbol) :
    requestedTrades exchange task task.startId =
      (exchange.trades (upper gap.symbol)).filter fun t =>
        decide (task.piece.1 ≤ t.id ∧ t.id ≤ task.piece.2) := by
  unfold requestedTrades Exchange.tradesFrom
  rw [own, List.filter_filter]
  refine List.filter_congr fun t _ => ?_
  rw [Bool.and_comm, ← Bool.decide_and]
  rfl

theorem missing_eq_flatMap {most : Int} {planner : BackfillPlanner} {call : AddGap}
    (sliced : call.Sliced most planner) (ended : call.gap.endId < call.cur) :
    missing exchange call.gap =
      call.tasks.flatMap fun task => requestedTrades exchange task task.startId := by
  have sorted : (exchange.trades (upper call.gap.symbol)).Pairwise fun a b => a.id ≤ b.id :=
    (exchange.ascending _).imp fun less => le_of_lt less
  have cut := sliced.tiled.flatMap_filter sorted
  have pieces : (call.tasks.flatMap fun task => requestedTrades exchange task task.startId) =
      (call.tasks.map Task.piece).flatMap fun piece =>
        (exchange.trades (upper call.gap.symbol)).filter fun t =>
          decide (piece.1 ≤ t.id ∧ t.id ≤ piece.2) := by
    rw [List.flatMap_map]
    refine List.flatMap_congr fun task member => ?_
    exact requestedTrades_piece (sliced.own task member).2
  have within := sliced.within
  rw [pieces, cut]
  refine List.filter_congr fun t _ => ?_
  rw [decide_eq_decide]
  omega

theorem seqs_of_parsed {ticks : List Tick} {trades : List ExchangeTrade} {symbol : String}
    (parsed : ticks.map some = trades.map fun t => restTradeJsonToTick t.row symbol) :
    ticks.map Tick.seq = trades.map fun t => some t.id := by
  induction trades generalizing ticks with
  | nil => rw [List.map_eq_nil_iff.mp parsed]; rfl
  | cons t rest ih =>
      cases ticks with
      | nil => cases parsed
      | cons tick others =>
          rw [List.map_cons, List.map_cons, List.cons.injEq] at parsed
          rw [List.map_cons, List.map_cons, ih parsed.2, restTradeJsonToTick_seq parsed.1.symm]

/-- The tasks that `add_gap` cuts a gap into, each worked off over answered requests, publish exactly the
trades of the exchange that are missing in the gap, once each and in ascending order. -/
theorem gap_refilled {most : Int} {s : PlannerRuns.System} (ids : 1 ≤ most)
    (reached : Reaches PlannerRuns.step anyStep (.new most) s) {call : AddGap}
    (member : call ∈ s.calls) (ended : call.gap.endId < call.cur) (exchange : Exchange)
    (pageSize : Int) (turns : Nat → Nat → Turn)
    (answered : ∀ taskId, Answered pageSize (turns taskId))
    (convertible : Convertible call.gap.symbol (missing exchange call.gap)) :
    (∀ task ∈ call.tasks, ∃ planned ∈ s.planner.tasks, task.Same planned) ∧
      ∃ batches : Task → List (List Tick),
        (∀ task ∈ call.tasks,
          processTask exchange pageSize task (turns task.taskId) = .returned (batches task)) ∧
        (call.tasks.flatMap fun task => (batches task).flatten).map some =
          (missing exchange call.gap).map (fun t => restTradeJsonToTick t.row call.gap.symbol) ∧
        (call.tasks.flatMap fun task => (batches task).flatten).map Tick.seq =
          (missing exchange call.gap).map fun t => some t.id := by
  have sliced := (Inv.reaches ids reached).sliced call member
  have whole : missing exchange call.gap =
      call.tasks.flatMap fun task => requestedTrades exchange task task.startId := by
    exact missing_eq_flatMap sliced ended
  have works : ∀ task ∈ call.tasks, ∃ batches,
      processTask exchange pageSize task (turns task.taskId) = .returned batches ∧
        batches.flatten.map some = (requestedTrades exchange task task.startId).map fun t =>
          restTradeJsonToTick t.row call.gap.symbol := by
    intro task inside
    have own := (sliced.own task inside).2
    rw [← own]
    refine processTask_answered (answered task.taskId) fun t asked => ?_
    rw [own]
    refine convertible t ?_
    rw [whole]
    exact List.mem_flatMap.mpr ⟨task, inside, asked⟩
  choose! batches returns content using works
  refine ⟨sliced.stored, batches, returns, ?_⟩
  have parsed : (call.tasks.flatMap fun task => (batches task).flatten).map some =
      (missing exchange call.gap).map fun t => restTradeJsonToTick t.row call.gap.symbol := by
    rw [whole, List.map_flatMap, List.map_flatMap]
    exact List.flatMap_congr content
  exact ⟨parsed, seqs_of_parsed parsed⟩

end Tasks

-- A gap of five ids is cut into three tasks; the exchange has four trades in it and answers one a time.
def fourTrades : Exchange :=
  { trades := fun _ => [BackfillDone.trade 1, BackfillDone.trade 3, BackfillDone.trade 4,
      BackfillDone.trade 6, BackfillDone.trade 7]
    ascending := by simp [BackfillDone.trade] }

def oneAtATime : Turn := { stop := false, attempts := fun _ => .ok 1 }

def threeToSeven : Gap :=
  { provider := "binance", symbol := "BTCUSDT", startId := 3, endId := 7, discoveredAtNs := 0 }

deriving instance DecidableEq for Gap

attribute [local instance] asciiUppercase

theorem gap_refilled_three_tasks :
    ∃ call : AddGap, call.gap = threeToSeven ∧
      call.tasks.map Task.piece = [(3, 4), (5, 6), (7, 7)] ∧
      ∃ batches : Task → List (List Tick),
        (∀ task ∈ call.tasks,
          processTask fourTrades 1000 task (fun _ => oneAtATime) = .returned (batches task)) ∧
        (call.tasks.flatMap fun task => (batches task).flatten).map Tick.seq =
          [some 3, some 4, some 6, some 7] := by
  obtain ⟨s, reached, checked⟩ := reaches_of_check PlannerRuns.step (.new 2)
    [.addGap threeToSeven, .turn 0 0, .turn 0 1, .turn 0 2]
    (fun s => decide (s.calls.map (fun call => (call.gap, call.tasks.map Task.piece, call.cur)) =
      [(threeToSeven, [(3, 4), (5, 6), (7, 7)], 8)])) (by decide +kernel)
  obtain ⟨call, calls, here⟩ := List.map_eq_singleton_iff.mp (of_decide_eq_true checked)
  obtain ⟨gap, here⟩ := Prod.mk.inj here
  obtain ⟨pieces, cur⟩ := Prod.mk.inj here
  have one : 0 < pageCount 1000 oneAtATime := by decide
  have answered : Answered 1000 (fun _ => oneAtATime) := fun _ => ⟨rfl, one⟩
  have parsed : Convertible call.gap.symbol (missing fourTrades call.gap) := by
    rw [gap]
    unfold Convertible
    decide +kernel
  obtain ⟨_, batches, returns, _, seqs⟩ := gap_refilled (by decide) reached
    (calls ▸ List.mem_singleton_self call) (by rw [gap, cur]; decide) fourTrades 1000
    (fun _ _ => oneAtATime) (fun _ => answered) parsed
  refine ⟨call, gap, pieces, batches, returns, ?_⟩
  rw [seqs, gap]
  decide +kernel

end DeepFeeder.GapRefill
