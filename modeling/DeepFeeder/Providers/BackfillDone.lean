import DeepFeeder.Providers.Backfill

set_option autoImplicit false

namespace DeepFeeder

section Tasks

variable [Uppercase]

def Published (task : Task) (published : List (List Tick)) (t : ExchangeTrade) : Prop :=
  ∃ tick ∈ published.flatten, restTradeJsonToTick t.row task.symbol = some tick

/-- Some first turns, none of them stopped or without an answer, may bring all the trades that are
left, or bring one that cannot be converted. -/
def PagesSuffice (pageSize : Int) (task : Task) (turns : Nat → Turn) (b : Nat)
    (left : List ExchangeTrade) : Prop :=
  ∃ k, (∀ j < k, (turns (b + j)).stop = false ∧ 0 < pageCount pageSize (turns (b + j))) ∧
    (left.length ≤ pagesCount pageSize turns b k ∨
      ∃ t ∈ left.take (pagesCount pageSize turns b k),
        restTradeJsonToTick t.row task.symbol = none)

variable {exchange : Exchange} {task : Task} {pageSize : Int} {turns : Nat → Turn} {b : Nat}
  {left : List ExchangeTrade} {cur lastId : Int} {published : List (List Tick)}

theorem pagesSuffice_nil : PagesSuffice pageSize task turns b [] :=
  ⟨0, fun _ below => absurd below (Nat.not_lt_zero _), .inl (Nat.zero_le _)⟩

theorem pagesSuffice_closed
    (closed : (turns b).stop = true ∨ pageCount pageSize (turns b) = 0) :
    PagesSuffice pageSize task turns b left ↔ left = [] := by
  constructor
  · rintro ⟨k, opened, enough⟩
    cases k with
    | zero => simpa [pagesCount] using enough
    | succ k =>
        obtain ⟨running, some⟩ := opened 0 (Nat.zero_lt_succ k)
        rcases closed with stopped | none
        · rw [Nat.add_zero, stopped] at running
          cases running
        · rw [Nat.add_zero] at some
          omega
  · rintro rfl
    exact pagesSuffice_nil

theorem pagesSuffice_raised (running : (turns b).stop = false)
    (some : 0 < pageCount pageSize (turns b))
    (raised : ∃ t ∈ left.take (pageCount pageSize (turns b)),
      restTradeJsonToTick t.row task.symbol = none) : PagesSuffice pageSize task turns b left := by
  refine ⟨1, ?_, .inr ?_⟩
  · intro j below
    obtain rfl : j = 0 := by omega
    exact ⟨running, some⟩
  · simpa [pagesCount] using raised

theorem pagesSuffice_next (running : (turns b).stop = false)
    (some : 0 < pageCount pageSize (turns b)) (left_ : left ≠ [])
    (parsed : ∀ t ∈ left.take (pageCount pageSize (turns b)),
      restTradeJsonToTick t.row task.symbol ≠ none) :
    PagesSuffice pageSize task turns b left ↔
      PagesSuffice pageSize task turns (b + 1) (left.drop (pageCount pageSize (turns b))) := by
  have split (k : Nat) : left.take (pagesCount pageSize turns b (k + 1)) =
      left.take (pageCount pageSize (turns b)) ++
        (left.drop (pageCount pageSize (turns b))).take (pagesCount pageSize turns (b + 1) k) :=
    List.take_add
  constructor
  · rintro ⟨k, opened, enough⟩
    cases k with
    | zero => simp [pagesCount, left_] at enough
    | succ k =>
        refine ⟨k, ?_, ?_⟩
        · intro j below
          have := opened (j + 1) (by omega)
          rwa [Nat.add_assoc, Nat.add_comm 1 j]
        · rcases enough with all | ⟨t, member, fails⟩
          · refine .inl ?_
            rw [List.length_drop]
            simp only [pagesCount] at all
            omega
          · rw [split, List.mem_append] at member
            rcases member with here | later
            · exact absurd fails (parsed t here)
            · exact .inr ⟨t, later, fails⟩
  · rintro ⟨k, opened, enough⟩
    refine ⟨k + 1, ?_, ?_⟩
    · intro j below
      cases j with
      | zero => exact ⟨running, some⟩
      | succ j =>
          have := opened j (by omega)
          rwa [Nat.add_assoc, Nat.add_comm 1 j] at this
    · rcases enough with all | ⟨t, later, fails⟩
      · refine .inl ?_
        rw [List.length_drop] at all
        simp only [pagesCount]
        omega
      · refine .inr ⟨t, ?_, fails⟩
        rw [split]
        exact List.mem_append_right _ later

theorem requestedTrades_later {after : Int} (le : cur ≤ after) :
    requestedTrades exchange task after =
      (requestedTrades exchange task cur).filter fun t => decide (after ≤ t.id) := by
  unfold requestedTrades Exchange.tradesFrom
  rw [List.filter_filter, List.filter_filter, List.filter_filter]
  apply List.filter_congr
  intro t _
  simp only [← Bool.decide_and, decide_eq_decide]
  omega

section Page

-- A page that ends with the trade `t`.
variable {n : Nat} {front : List ExchangeTrade} {t : ExchangeTrade}

theorem lastOfPage_mem (taken : (requestedTrades exchange task cur).take n = front ++ [t]) :
    t ∈ requestedTrades exchange task cur :=
  List.mem_of_mem_take (taken ▸ List.mem_append_right _ List.mem_cons_self)

theorem page_below (taken : (requestedTrades exchange task cur).take n = front ++ [t]) :
    ∀ other ∈ (requestedTrades exchange task cur).take n, other.id < t.id + 1 := by
  intro other here
  have ascending := (requestedTrades_ascending exchange task cur).sublist (List.take_sublist n _)
  rw [taken] at here ascending
  rcases List.mem_append.mp here with before | last
  · have := (List.pairwise_append.mp ascending).2.2 other before t List.mem_cons_self
    omega
  · rw [List.mem_singleton.mp last]
    exact Int.lt_succ t.id

theorem requestedTrades_drop (taken : (requestedTrades exchange task cur).take n = front ++ [t]) :
    requestedTrades exchange task (t.id + 1) = (requestedTrades exchange task cur).drop n := by
  obtain ⟨_, lower, _⟩ := mem_requestedTrades.mp (lastOfPage_mem taken)
  have all : requestedTrades exchange task cur =
      front ++ t :: (requestedTrades exchange task cur).drop n := by
    conv_lhs => rw [← List.take_append_drop n (requestedTrades exchange task cur), taken]
    simp
  have ascending := requestedTrades_ascending exchange task cur
  rw [all] at ascending
  rw [requestedTrades_later (show cur ≤ t.id + 1 by omega)]
  conv_lhs => rw [all]
  exact filter_after ascending

theorem page_parsed {trades : List ExchangeTrade} {ticks : List Tick}
    (same : ticks.map some = trades.map fun t => restTradeJsonToTick t.row task.symbol) :
    ∀ other ∈ trades, ∃ tick ∈ ticks, restTradeJsonToTick other.row task.symbol = some tick := by
  intro other here
  have inMap := List.mem_map_of_mem (f := fun t : ExchangeTrade =>
    restTradeJsonToTick t.row task.symbol) here
  rw [← same] at inMap
  obtain ⟨tick, inTicks, isTick⟩ := List.mem_map.mp inMap
  exact ⟨tick, inTicks, isTick.symm⟩

theorem published_iff_later {ticks : List Tick} {batches : List (List Tick)}
    (taken : (requestedTrades exchange task cur).take n = front ++ [t])
    (parsed : ∀ other ∈ (requestedTrades exchange task cur).take n,
      ∃ tick ∈ ticks, restTradeJsonToTick other.row task.symbol = some tick)
    (kept : ∀ tick ∈ (published ++ [ticks]).flatten, tick ∈ batches.flatten) :
    (∀ other ∈ requestedTrades exchange task cur, Published task batches other) ↔
      ∀ other ∈ requestedTrades exchange task (t.id + 1), Published task batches other := by
  rw [requestedTrades_drop taken]
  constructor
  · exact fun all other later => all other (List.mem_of_mem_drop later)
  · intro rest other inside
    rw [← List.take_append_drop n (requestedTrades exchange task cur), List.mem_append] at inside
    rcases inside with here | later
    · obtain ⟨tick, inTicks, isTick⟩ := parsed other here
      exact ⟨tick, kept tick (by simp [inTicks]), isTick⟩
    · exact rest other later

theorem page_seqs {ticks : List Tick}
    (taken : (requestedTrades exchange task cur).take n = front ++ [t])
    (same : ticks.map some = ((requestedTrades exchange task cur).take n).map
      fun t => restTradeJsonToTick t.row task.symbol)
    (early : ∀ tick ∈ published.flatten, ∃ s, tick.seq = some s ∧ s < cur) :
    ∀ tick ∈ (published ++ [ticks]).flatten, ∃ s, tick.seq = some s ∧ s < t.id + 1 := by
  intro tick inside
  obtain ⟨_, lower, _⟩ := mem_requestedTrades.mp (lastOfPage_mem taken)
  simp only [List.flatten_append, List.flatten_cons, List.flatten_nil, List.append_nil,
    List.mem_append] at inside
  rcases inside with old | new
  · obtain ⟨s, seq, less⟩ := early tick old
    exact ⟨s, seq, by omega⟩
  · have isTick := List.mem_map_of_mem (f := some) new
    rw [same] at isTick
    obtain ⟨other, here, isTick⟩ := List.mem_map.mp isTick
    exact ⟨other.id, restTradeJsonToTick_seq isTick, page_below taken other here⟩

end Page

theorem published_iff_none_left
    (early : ∀ tick ∈ published.flatten, ∃ s, tick.seq = some s ∧ s < cur) :
    (∀ batches, published = batches →
      ∀ t ∈ requestedTrades exchange task cur, Published task batches t) ↔
      requestedTrades exchange task cur = [] := by
  constructor
  · intro all
    refine List.eq_nil_iff_forall_not_mem.mpr fun t member => ?_
    obtain ⟨tick, inBatch, parsed⟩ := all published rfl t member
    obtain ⟨s, seq, less⟩ := early tick inBatch
    rw [restTradeJsonToTick_seq parsed, Option.some.injEq] at seq
    obtain ⟨_, lower, _⟩ := mem_requestedTrades.mp member
    omega
  · intro empty batches _ t member
    rw [empty] at member
    cases member

theorem processLoop_keeps (fuel : Nat) (below : lastId < cur) {batches : List (List Tick)}
    (ends : processLoop exchange pageSize task turns fuel b cur lastId published =
      .returned batches) : ∀ tick ∈ published.flatten, tick ∈ batches.flatten := by
  induction fuel generalizing b cur lastId published with
  | zero => cases ends
  | succ fuel ih =>
      intro tick early
      unfold processLoop at ends
      rcases processTurn_cases exchange task pageSize (turns b) published below with
        ⟨result, _⟩ | ⟨result, _⟩ | ⟨_, after, later, _, result⟩ |
          ⟨_, _, front, t, ticks, _, _, ⟨result, _⟩ | result⟩
      · rw [result] at ends
        cases ends
        exact early
      · rw [result] at ends
        cases ends
      · rw [result] at ends
        exact ih (by omega) ends tick early
      · rw [result] at ends
        cases ends
        simp [early]
      · rw [result] at ends
        exact ih (by omega) ends tick (by simp [early])

theorem processLoop_finishes (fuel : Nat) (below : lastId < cur)
    (enough : (task.endId - cur + 1).toNat < fuel) :
    processLoop exchange pageSize task turns fuel b cur lastId published ≠ .unfinished := by
  induction fuel generalizing b cur lastId published with
  | zero => omega
  | succ fuel ih =>
      unfold processLoop
      rcases processTurn_cases exchange task pageSize (turns b) published below with
        ⟨result, _⟩ | ⟨result, _⟩ | ⟨_, after, later, _, result⟩ |
          ⟨_, _, front, t, ticks, taken, _, ⟨result, _⟩ | result⟩
      · simp [result]
      · simp [result]
      · rw [result]
        exact ih (by omega) (by omega)
      · simp [result]
      · obtain ⟨_, lower, upper⟩ := mem_requestedTrades.mp (lastOfPage_mem taken)
        rw [result]
        exact ih (by omega) (by omega)

theorem processTask_finishes (exchange : Exchange) (pageSize : Int) (task : Task)
    (turns : Nat → Turn) : processTask exchange pageSize task turns ≠ .unfinished :=
  processLoop_finishes _ (by omega) (Nat.lt_succ_self _)

theorem processLoop_iff (fuel : Nat) (below : lastId < cur)
    (early : ∀ tick ∈ published.flatten, ∃ s, tick.seq = some s ∧ s < cur)
    (enough : (task.endId - cur + 1).toNat < fuel) :
    (∀ batches, processLoop exchange pageSize task turns fuel b cur lastId published =
        .returned batches → ∀ t ∈ requestedTrades exchange task cur, Published task batches t) ↔
      PagesSuffice pageSize task turns b (requestedTrades exchange task cur) := by
  induction fuel generalizing b cur lastId published with
  | zero => omega
  | succ fuel ih =>
      unfold processLoop
      rcases processTurn_cases exchange task pageSize (turns b) published below with
        ⟨result, closed⟩ | ⟨result, running, brings, raised⟩ | ⟨nothing, after, later, _, result⟩ |
          ⟨running, brings, front, t, ticks, taken, same, done⟩
      · simp only [result, TaskOutcome.returned.injEq]
        rw [published_iff_none_left early]
        rcases closed with empty | closed
        · rw [empty]
          exact iff_of_true rfl pagesSuffice_nil
        · exact (pagesSuffice_closed closed).symm
      · simp only [result]
        exact iff_of_true (fun _ ends => by cases ends) (pagesSuffice_raised running brings raised)
      · have gone : requestedTrades exchange task after = [] := by
          rw [requestedTrades_later (le_of_lt later), nothing]
          rfl
        rw [nothing]
        exact iff_of_true (fun _ _ t member => by cases member) pagesSuffice_nil
      · obtain ⟨_, lower, upper⟩ := mem_requestedTrades.mp (lastOfPage_mem taken)
        have parsed := page_parsed same
        have seqs := page_seqs taken same early
        rw [pagesSuffice_next running brings (List.ne_nil_of_mem (lastOfPage_mem taken))
          (fun other here => by obtain ⟨_, _, isTick⟩ := parsed other here; simp [isTick]),
          ← requestedTrades_drop taken]
        rcases done with ⟨result, ends⟩ | result
        · have gone : requestedTrades exchange task (t.id + 1) = [] := requestedTrades_ended (by omega)
          rw [gone]
          refine iff_of_true (fun batches returned => ?_) pagesSuffice_nil
          rw [result] at returned
          cases returned
          rw [published_iff_later taken parsed fun tick inside => inside, gone]
          exact fun other later => by cases later
        · simp only [result]
          have moved : t.id < t.id + 1 := Int.lt_succ t.id
          rw [← ih moved seqs (by omega)]
          constructor
          · intro all batches ends
            exact (published_iff_later taken parsed (processLoop_keeps fuel moved ends)).mp
              (all batches ends)
          · intro all batches ends
            exact (published_iff_later taken parsed (processLoop_keeps fuel moved ends)).mpr
              (all batches ends)

theorem runTask_done (turns : Nat → Turn) (error : String) (planner : BackfillPlanner)
    (claimed : task ∈ planner.tasks) (running : task.status = .running) :
    (∃ t ∈ (runTask exchange pageSize turns error planner task).tasks,
        t.taskId = task.taskId ∧ t.status = .done) ↔
      ∃ batches, processTask exchange pageSize task turns = .returned batches := by
  have only : ∀ t ∈ planner.tasks, t.taskId = task.taskId → t = task := fun t member same =>
    List.inj_on_of_nodup_map planner.unique member claimed same
  unfold runTask
  cases outcome : processTask exchange pageSize task turns with
  | returned batches =>
      refine iff_of_true ?_ ⟨batches, rfl⟩
      refine ⟨task.update task.taskId .done 0 none, List.mem_map_of_mem claimed, ?_, ?_⟩
      · exact task.update_taskId _ _ _ _
      · simp [Task.update]
  | raised batches =>
      refine iff_of_false ?_ (fun ⟨_, same⟩ => by cases same)
      rintro ⟨_, inside, same, done⟩
      obtain ⟨t, member, rfl⟩ := List.mem_map.mp inside
      rw [t.update_taskId] at same
      simp [Task.update, same] at done
  | unfinished =>
      refine iff_of_false ?_ (fun ⟨_, same⟩ => by cases same)
      rintro ⟨t, member, same, done⟩
      rw [only t member same, running] at done
      cases done

theorem done_complete_iff (exchange : Exchange) (pageSize : Int) (turns : Nat → Turn)
    (error : String) (planner : BackfillPlanner) (task : Task) (claimed : task ∈ planner.tasks)
    (running : task.status = .running) :
    ((∃ t ∈ (runTask exchange pageSize turns error planner task).tasks,
        t.taskId = task.taskId ∧ t.status = .done) →
      ∃ published, processTask exchange pageSize task turns = .returned published ∧
        ∀ t ∈ exchange.trades (upper task.symbol), task.startId ≤ t.id → t.id ≤ task.endId →
          Published task published t) ↔
      PagesSuffice pageSize task turns 0 (requestedTrades exchange task task.startId) := by
  have loop : (∀ batches, processTask exchange pageSize task turns = .returned batches →
      ∀ t ∈ requestedTrades exchange task task.startId, Published task batches t) ↔
        PagesSuffice pageSize task turns 0 (requestedTrades exchange task task.startId) :=
    processLoop_iff ((task.endId - task.startId + 1).toNat + 1) (by omega)
      (fun tick inside => by cases inside) (Nat.lt_succ_self _)
  rw [runTask_done turns error planner claimed running, ← loop]
  constructor
  · intro complete batches ends t member
    obtain ⟨published, returned, all⟩ := complete ⟨batches, ends⟩
    obtain ⟨inside, lower, upper⟩ := mem_requestedTrades.mp member
    rw [show processTask exchange pageSize task turns = .returned batches from ends] at returned
    cases returned
    exact all t inside lower upper
  · rintro all ⟨batches, ends⟩
    refine ⟨batches, ends, fun t inside lower upper => ?_⟩
    exact all batches ends t (mem_requestedTrades.mpr ⟨inside, lower, upper⟩)

end Tasks

namespace BackfillDone

def trade (id : Int) : ExchangeTrade :=
  { id, price := "1.5", qty := "2", time := 1000, isBuyerMaker := false }

def twoTrades : Exchange :=
  { trades := fun _ => [trade 1, trade 2], ascending := by simp [trade] }

def gap : Gap :=
  { provider := "binance", symbol := "BTCUSDT", startId := 1, endId := 2, discoveredAtNs := 0 }

def enqueued : BackfillPlanner := (BackfillPlanner.new 100).enqueueTask gap 1 0

def claimedTask : Task := ((BackfillPlanner.new 100).slice gap 1 0).update 0 .running 1 none

def claimedPlanner : BackfillPlanner := enqueued.updateTask 0 .running 1 none

def unreachable : Turn := { stop := false, attempts := fun _ => .requestException }

def answering : Turn := { stop := false, attempts := fun _ => .ok 1000 }

end BackfillDone

attribute [local instance] asciiUppercase

open BackfillDone in
theorem done_complete_answered :
    ∃ published, processTask twoTrades 1000 claimedTask (fun _ => answering) = .returned published ∧
      ∀ t ∈ twoTrades.trades (upper claimedTask.symbol), claimedTask.startId ≤ t.id →
        t.id ≤ claimedTask.endId → Published claimedTask published t := by
  have suffice : PagesSuffice 1000 claimedTask (fun _ => answering) 0
      (requestedTrades twoTrades claimedTask claimedTask.startId) := by
    refine ⟨1, ?_, .inl ?_⟩
    · have some : 0 < pageCount 1000 answering := by decide
      exact fun _ _ => ⟨rfl, some⟩
    · decide
  have complete := (done_complete_iff twoTrades 1000 (fun _ => answering) "" claimedPlanner
    claimedTask (List.mem_singleton.mpr rfl) rfl).mpr suffice
  exact complete ((runTask_done (fun _ => answering) "" claimedPlanner
    (List.mem_singleton.mpr rfl) rfl).mpr ⟨_, rfl⟩)

open BackfillDone in
theorem unanswered_done :
    ¬((∃ t ∈ (runTask twoTrades 1000 (fun _ => unreachable) "" claimedPlanner claimedTask).tasks,
        t.taskId = claimedTask.taskId ∧ t.status = .done) →
      ∃ published, processTask twoTrades 1000 claimedTask (fun _ => unreachable) =
          .returned published ∧
        ∀ t ∈ twoTrades.trades (upper claimedTask.symbol), claimedTask.startId ≤ t.id →
          t.id ≤ claimedTask.endId → Published claimedTask published t) := by
  intro complete
  have outcome : processTask twoTrades 1000 claimedTask (fun _ => unreachable) = .returned [] := rfl
  have done := (runTask_done (fun _ => unreachable) "" claimedPlanner
    (List.mem_singleton.mpr rfl) rfl).mpr ⟨[], outcome⟩
  obtain ⟨published, returned, all⟩ := complete done
  rw [outcome] at returned
  cases returned
  obtain ⟨tick, inside, _⟩ := all (trade 1) List.mem_cons_self (by decide) (by decide)
  cases inside

end DeepFeeder
