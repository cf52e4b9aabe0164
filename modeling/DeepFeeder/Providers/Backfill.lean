import DeepFeeder.Providers.Binance
import DeepFeeder.Runtime.Planner

set_option autoImplicit false

namespace DeepFeeder

variable [Uppercase]

-- `r.get("data", r)`, when it is a dictionary.
def unwrap (r : Payload) : Option Payload :=
  match r.lookup "data" with
  | none => some r
  | some (.dict d) => some d
  | some _ => none

def pageTicks (symbol : String) (endId : Int) : Int → List Payload → Option (List Tick × Int)
  | lastId, [] => some ([], lastId)
  | lastId, r :: rest =>
      match (unwrap r).bind fun d => (tradeId d).map fun tid => (d, tid) with
      | none => pageTicks symbol endId lastId rest
      | some (d, tid) =>
          if tid ≤ lastId then pageTicks symbol endId lastId rest
          else if endId < tid then some ([], lastId)
          else
            (restTradeJsonToTick d symbol).bind fun tick =>
              (pageTicks symbol endId tid rest).map fun page => (tick :: page.1, page.2)

inductive TaskOutcome where
  | returned (published : List (List Tick))
  | raised (published : List (List Tick))
  | unfinished

inductive TurnResult where
  | exit (outcome : TaskOutcome)
  | next (cur lastId : Int) (published : List (List Tick))

/-- The second and third part of a turn, on the rows of a page. -/
def publishPage (task : Task) (limit cur lastId : Int) (published : List (List Tick))
    (rows : List Payload) : TurnResult :=
  match pageTicks task.symbol task.endId lastId rows with
  | none => .exit (.raised published)
  | some (ticks, last) =>
      let published := if ticks.isEmpty then published else published ++ [ticks]
      -- Without a tick the range of the page is skipped.
      let cur := if ticks.isEmpty then min (cur + limit) (task.endId + 1) else last + 1
      if task.endId ≤ last then .exit (.returned published) else .next cur last published

/-- One turn of the loop. `getTrades` answers a request from an id on, up to a limit. -/
def processTurn (pageSize : Int) (task : Task) (stop : Bool) (getTrades : Int → Int → List Payload)
    (cur lastId : Int) (published : List (List Tick)) : TurnResult :=
  let limit := min pageSize (task.endId - cur + 1)
  if cur ≤ task.endId ∧ stop = false then
    match getTrades cur limit with
    | [] => .exit (.returned published)
    | rows => publishPage task limit cur lastId published rows
  else .exit (.returned published)

/-- What happens in one turn: whether the stop event is set at the loop's test, and the outcomes of
the request. -/
structure Turn where
  stop : Bool
  attempts : Nat → Attempt

def processLoop (exchange : Exchange) (pageSize : Int) (task : Task) (turns : Nat → Turn) :
    Nat → Nat → Int → Int → List (List Tick) → TaskOutcome
  | 0, _, _, _, _ => .unfinished
  | fuel + 1, turn, cur, lastId, published =>
      match processTurn pageSize task (turns turn).stop
          (exchange.getTrades (turns turn).attempts task.symbol) cur lastId published with
      | .exit outcome => outcome
      | .next cur lastId published =>
          processLoop exchange pageSize task turns fuel (turn + 1) cur lastId published

/-- Every turn but the last moves on by at least one id. -/
def processTask (exchange : Exchange) (pageSize : Int) (task : Task) (turns : Nat → Turn) :
    TaskOutcome :=
  processLoop exchange pageSize task turns ((task.endId - task.startId + 1).toNat + 1) 0
    task.startId (task.startId - 1) []

/-- The body of the loop of `_run` on a claimed task; `error` is the text of an exception. -/
def runTask (exchange : Exchange) (pageSize : Int) (turns : Nat → Turn) (error : String)
    (planner : BackfillPlanner) (task : Task) : BackfillPlanner :=
  match processTask exchange pageSize task turns with
  | .returned _ => planner.markDone task.taskId
  | .raised _ => planner.markFailed task.taskId error
  | .unfinished => planner

def requestedTrades (exchange : Exchange) (task : Task) (cur : Int) : List ExchangeTrade :=
  (exchange.tradesFrom task.symbol cur).filter fun t => decide (t.id ≤ task.endId)

def pageCount (pageSize : Int) (turn : Turn) : Nat :=
  min ((request turn.attempts).getD 0) pageSize.toNat

def pagesCount (pageSize : Int) (turns : Nat → Turn) : Nat → Nat → Nat
  | _, 0 => 0
  | b, k + 1 => pageCount pageSize (turns b) + pagesCount pageSize turns (b + 1) k

variable {exchange : Exchange} {task : Task} {pageSize : Int} {turns : Nat → Turn} {turn : Turn}
  {cur lastId : Int} {published : List (List Tick)}

theorem tradesFrom_ascending (exchange : Exchange) (symbol : String) (cur : Int) :
    (exchange.tradesFrom symbol cur).Pairwise fun a b => a.id < b.id :=
  (exchange.ascending _).filter _

theorem requestedTrades_ascending (exchange : Exchange) (task : Task) (cur : Int) :
    (requestedTrades exchange task cur).Pairwise fun a b => a.id < b.id :=
  (tradesFrom_ascending exchange task.symbol cur).filter _

theorem mem_requestedTrades {t : ExchangeTrade} :
    t ∈ requestedTrades exchange task cur ↔
      t ∈ exchange.trades (upper task.symbol) ∧ cur ≤ t.id ∧ t.id ≤ task.endId := by
  unfold requestedTrades Exchange.tradesFrom
  rw [List.mem_filter, List.mem_filter, decide_eq_true_eq, decide_eq_true_eq, and_assoc]

omit [Uppercase] in
theorem length_le_of_ascending {trades : List ExchangeTrade} {first last : Int}
    (ascending : trades.Pairwise fun a b => a.id < b.id)
    (inside : ∀ t ∈ trades, first ≤ t.id ∧ t.id ≤ last) :
    trades.length ≤ (last - first + 1).toNat := by
  induction trades generalizing first with
  | nil => simp
  | cons t rest ih =>
      obtain ⟨above, restAscending⟩ := List.pairwise_cons.mp ascending
      have here := inside t List.mem_cons_self
      have later : rest.length ≤ (last - (t.id + 1) + 1).toNat := ih restAscending fun other member =>
        ⟨above other member, (inside other (List.mem_cons_of_mem _ member)).2⟩
      simp only [List.length_cons]
      omega

omit [Uppercase] in
theorem filter_after {front rest : List ExchangeTrade} {t : ExchangeTrade}
    (ascending : (front ++ t :: rest).Pairwise fun a b => a.id < b.id) :
    (front ++ t :: rest).filter (fun other => decide (t.id + 1 ≤ other.id)) = rest := by
  rw [List.pairwise_append, List.pairwise_cons] at ascending
  obtain ⟨_, ⟨above, _⟩, below⟩ := ascending
  rw [List.filter_append, List.filter_cons, List.filter_eq_nil_iff.mpr, List.filter_eq_self.mpr]
  · simp
  · intro other member
    simpa using Int.add_one_le_of_lt (above other member)
  · intro other member
    have := below other member t List.mem_cons_self
    simp
    omega

theorem page_filter (exchange : Exchange) (task : Task) (cur : Int) (n : Nat) :
    ((exchange.tradesFrom task.symbol cur).take n).filter (fun t => decide (t.id ≤ task.endId)) =
      (requestedTrades exchange task cur).take n := by
  have ascending := tradesFrom_ascending exchange task.symbol cur
  unfold requestedTrades
  generalize exchange.tradesFrom task.symbol cur = trades at ascending ⊢
  induction trades generalizing n with
  | nil => simp
  | cons t rest ih =>
      obtain ⟨above, restAscending⟩ := List.pairwise_cons.mp ascending
      cases n with
      | zero => simp
      | succ n =>
          by_cases inside : t.id ≤ task.endId
          · simp [inside, ih n restAscending]
          · have none : rest.filter (fun other => decide (other.id ≤ task.endId)) = [] := by
              rw [List.filter_eq_nil_iff]
              intro other member
              have := above other member
              simp
              omega
            have noneTaken : (rest.take n).filter (fun other => decide (other.id ≤ task.endId)) = [] := by
              rw [ih n restAscending, none, List.take_nil]
            simp [inside, none, noneTaken]

omit [Uppercase] in
theorem unwrap_row (t : ExchangeTrade) : unwrap t.row = some t.row := rfl

theorem pageTicks_cons (symbol : String) (endId : Int) {t : ExchangeTrade} (above : lastId < t.id)
    (rest : List Payload) :
    pageTicks symbol endId lastId (t.row :: rest) =
      if endId < t.id then some ([], lastId)
      else
        (restTradeJsonToTick t.row symbol).bind fun tick =>
          (pageTicks symbol endId t.id rest).map fun page => (tick :: page.1, page.2) := by
  rw [pageTicks, unwrap_row, Option.bind_some, tradeId_row, Option.map_some]
  simp only
  rw [if_neg (not_le.mpr above)]

theorem pageTicks_rows (symbol : String) (endId : Int) (trades : List ExchangeTrade)
    (ascending : trades.Pairwise fun a b => a.id < b.id) (above : ∀ t ∈ trades, lastId < t.id) :
    (pageTicks symbol endId lastId (trades.map ExchangeTrade.row) = none ∧
      ∃ t ∈ trades, t.id ≤ endId ∧ restTradeJsonToTick t.row symbol = none) ∨
    ∃ ticks, pageTicks symbol endId lastId (trades.map ExchangeTrade.row) =
        some (ticks, ((trades.filter fun t => decide (t.id ≤ endId)).getLast?.map
          ExchangeTrade.id).getD lastId) ∧
      ticks.map some =
        (trades.filter fun t => decide (t.id ≤ endId)).map fun t =>
          restTradeJsonToTick t.row symbol := by
  induction trades generalizing lastId with
  | nil => exact .inr ⟨[], rfl, rfl⟩
  | cons t rest ih =>
      obtain ⟨later, restAscending⟩ := List.pairwise_cons.mp ascending
      rw [List.map_cons, pageTicks_cons symbol endId (above t List.mem_cons_self)]
      by_cases inside : t.id ≤ endId
      · rw [if_neg (not_lt.mpr inside)]
        cases parsed : restTradeJsonToTick t.row symbol with
        | none => exact .inl ⟨rfl, t, List.mem_cons_self, inside, parsed⟩
        | some tick =>
            rcases ih restAscending later with ⟨raised, bad, member, within, fails⟩ | ⟨ticks, page, same⟩
            · refine .inl ⟨?_, bad, List.mem_cons_of_mem _ member, within, fails⟩
              rw [raised]
              rfl
            · refine .inr ⟨tick :: ticks, ?_, ?_⟩
              · rw [page]
                simp [inside, List.getLast?_cons]
              · simp [inside, parsed, same]
      · have none : rest.filter (fun other => decide (other.id ≤ endId)) = [] := by
          rw [List.filter_eq_nil_iff]
          intro other member
          have := later other member
          simp
          omega
        rw [if_pos (not_le.mp inside)]
        exact .inr ⟨[], by simp [inside, none], by simp [inside, none]⟩

theorem getTrades_eq (exchange : Exchange) (attempts : Nat → Attempt) (symbol : String)
    (fromId limit : Int) :
    exchange.getTrades attempts symbol fromId limit =
      ((exchange.tradesFrom symbol fromId).take (min ((request attempts).getD 0) limit.toNat)).map
        ExchangeTrade.row := by
  unfold Exchange.getTrades
  cases request attempts with
  | none => simp
  | some n => rfl

theorem take_capped (exchange : Exchange) (task : Task) (pageSize cur : Int) (turn : Turn) :
    (requestedTrades exchange task cur).take
        (min ((request turn.attempts).getD 0) (min pageSize (task.endId - cur + 1)).toNat) =
      (requestedTrades exchange task cur).take (pageCount pageSize turn) := by
  have short := length_le_of_ascending (requestedTrades_ascending exchange task cur)
    fun t member => (mem_requestedTrades.mp member).2
  have cap : min ((request turn.attempts).getD 0) (min pageSize (task.endId - cur + 1)).toNat =
      min (pageCount pageSize turn) (task.endId - cur + 1).toNat := by
    unfold pageCount
    omega
  rw [cap, ← List.take_take, List.take_of_length_le short]

theorem publishPage_cases (task : Task) (limit cur : Int) (published : List (List Tick))
    {trades : List ExchangeTrade} (ascending : trades.Pairwise fun a b => a.id < b.id)
    (above : ∀ t ∈ trades, lastId < t.id) (unfinished : lastId < task.endId) :
    let inside := trades.filter fun t => decide (t.id ≤ task.endId)
    let result := publishPage task limit cur lastId published (trades.map ExchangeTrade.row)
    (result = .exit (.raised published) ∧
      ∃ t ∈ inside, restTradeJsonToTick t.row task.symbol = none) ∨
    (result = .next (min (cur + limit) (task.endId + 1)) lastId published ∧ inside = []) ∨
    ∃ front t ticks, inside = front ++ [t] ∧
      ticks.map some = inside.map (fun t => restTradeJsonToTick t.row task.symbol) ∧
      (result = .exit (.returned (published ++ [ticks])) ∧ task.endId ≤ t.id ∨
        result = .next (t.id + 1) t.id (published ++ [ticks])) := by
  intro inside result
  have value : result = publishPage task limit cur lastId published (trades.map ExchangeTrade.row) :=
    rfl
  unfold publishPage at value
  rcases pageTicks_rows task.symbol task.endId trades ascending above with
    ⟨raised, t, member, within, fails⟩ | ⟨ticks, parsed, same⟩
  · rw [raised] at value
    exact .inl ⟨value, t, List.mem_filter.mpr ⟨member, by simpa using within⟩, fails⟩
  · change ticks.map some = inside.map (fun t => restTradeJsonToTick t.row task.symbol) at same
    change _ = some (ticks, (inside.getLast?.map ExchangeTrade.id).getD lastId) at parsed
    rw [parsed] at value
    rcases List.eq_nil_or_concat inside with empty | ⟨front, t, ends⟩
    · have none : ticks = [] := by simpa [empty] using same
      simp only [empty, none, List.getLast?_nil, Option.map_none, Option.getD_none,
        List.isEmpty_nil, if_true, if_neg (not_le.mpr unfinished)] at value
      exact .inr (.inl ⟨value, empty⟩)
    · rw [List.concat_eq_append] at ends
      have some : ticks.isEmpty = false := by
        cases ticks with
        | nil => simp [ends] at same
        | cons tick rest => rfl
      have last : (inside.getLast?.map ExchangeTrade.id).getD lastId = t.id := by simp [ends]
      simp only [last, some, Bool.false_eq_true, if_false] at value
      refine .inr (.inr ⟨front, t, ticks, ends, same, ?_⟩)
      by_cases done : task.endId ≤ t.id
      · rw [if_pos done] at value
        exact .inl ⟨value, done⟩
      · rw [if_neg done] at value
        exact .inr value

theorem fetched_above (below : lastId < cur) (size : Nat) :
    ∀ t ∈ (exchange.tradesFrom task.symbol cur).take size, lastId < t.id := by
  intro t inPage
  have reached : cur ≤ t.id := by
    simpa using (List.mem_filter.mp (List.mem_of_mem_take inPage)).2
  omega

theorem requestedTrades_ended (ended : task.endId < cur) : requestedTrades exchange task cur = [] := by
  refine List.eq_nil_iff_forall_not_mem.mpr fun t member => ?_
  obtain ⟨_, lower, upper⟩ := mem_requestedTrades.mp member
  omega

theorem processTurn_cases (exchange : Exchange) (task : Task) (pageSize : Int) (turn : Turn)
    (published : List (List Tick)) (below : lastId < cur) :
    let left := requestedTrades exchange task cur
    let count := pageCount pageSize turn
    let result := processTurn pageSize task turn.stop (exchange.getTrades turn.attempts task.symbol)
      cur lastId published
    (result = .exit (.returned published) ∧ (left = [] ∨ turn.stop = true ∨ count = 0)) ∨
    (result = .exit (.raised published) ∧ turn.stop = false ∧ 0 < count ∧
      ∃ t ∈ left.take count, restTradeJsonToTick t.row task.symbol = none) ∨
    (left = [] ∧ ∃ after, cur < after ∧ cur ≤ task.endId ∧ result = .next after lastId published) ∨
    (turn.stop = false ∧ 0 < count ∧ ∃ front t ticks, left.take count = front ++ [t] ∧
      ticks.map some =
        (left.take count).map (fun t => restTradeJsonToTick t.row task.symbol) ∧
      (result = .exit (.returned (published ++ [ticks])) ∧ task.endId ≤ t.id ∨
        result = .next (t.id + 1) t.id (published ++ [ticks]))) := by
  intro left count result
  have value : result = processTurn pageSize task turn.stop
    (exchange.getTrades turn.attempts task.symbol) cur lastId published := rfl
  unfold processTurn at value
  by_cases running : cur ≤ task.endId ∧ turn.stop = false
  · let limit := min pageSize (task.endId - cur + 1)
    let size := min ((request turn.attempts).getD 0) limit.toNat
    let page := (exchange.tradesFrom task.symbol cur).take size
    have cut : page.filter (fun t => decide (t.id ≤ task.endId)) = left.take count :=
      (page_filter exchange task cur size).trans (take_capped exchange task pageSize cur turn)
    have rows : exchange.getTrades turn.attempts task.symbol cur limit = page.map ExchangeTrade.row :=
      getTrades_eq exchange turn.attempts task.symbol cur limit
    rw [if_pos running] at value
    change result = match exchange.getTrades turn.attempts task.symbol cur limit with
      | [] => _
      | rows => publishPage task limit cur lastId published rows at value
    rw [rows] at value
    cases isPage : page with
    | nil =>
        rw [isPage] at value cut
        refine .inl ⟨value, ?_⟩
        rcases List.take_eq_nil_iff.mp cut.symm with zero | nothing
        · exact .inr (.inr zero)
        · exact .inl nothing
    | cons first rest =>
        rw [isPage] at value cut
        change result = publishPage task limit cur lastId published
          ((first :: rest).map ExchangeTrade.row) at value
        have some : 0 < size := by
          by_contra none
          have nothing : page = [] := List.take_eq_nil_iff.mpr (.inl (Nat.eq_zero_of_not_pos none))
          rw [isPage] at nothing
          cases nothing
        have positive : 0 < count := by
          change 0 < pageCount pageSize turn
          change 0 < min _ (min pageSize (task.endId - cur + 1)).toNat at some
          unfold pageCount
          omega
        have above : ∀ t ∈ first :: rest, lastId < t.id := by
          rw [← isPage]
          exact fetched_above below size
        have ascending : (first :: rest).Pairwise fun a b => a.id < b.id := by
          rw [← isPage]
          exact (tradesFrom_ascending exchange task.symbol cur).sublist (List.take_sublist _ _)
        have unfinished : lastId < task.endId := by omega
        have cases_ := publishPage_cases task limit cur published ascending above unfinished
        simp only [← value, cut] at cases_
        rcases cases_ with ⟨raised, fails⟩ | ⟨skipped, empty⟩ | ⟨front, t, ticks, ends, same, done⟩
        · exact .inr (.inl ⟨raised, running.2, positive, fails⟩)
        · refine .inr (.inr (.inl ⟨?_, _, ?_, running.1, skipped⟩))
          · rcases List.take_eq_nil_iff.mp empty with zero | nothing
            · omega
            · exact nothing
          · change 0 < min _ limit.toNat at some
            omega
        · exact .inr (.inr (.inr ⟨running.2, positive, front, t, ticks, ends, same, done⟩))
  · rw [if_neg running] at value
    refine .inl ⟨value, ?_⟩
    by_cases ended : task.endId < cur
    · exact .inl (requestedTrades_ended ended)
    · refine .inr (.inl ?_)
      by_contra unset
      exact running ⟨by omega, by simpa using unset⟩

end DeepFeeder
