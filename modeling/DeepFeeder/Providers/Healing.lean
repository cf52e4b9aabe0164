import DeepFeeder.Providers.GapRefill
import DeepFeeder.Runtime.GapRecall

set_option autoImplicit false

namespace DeepFeeder

open Transition

-- Where `_run` of the backfill producer stands: the batches of a claimed task that are still to be
-- published, and the error when the task then fails.
inductive WorkerPc where
  | idle
  | publishing (taskId : Nat) (left : List (List Tick)) (error : Option String)

/-- The feed of trades: the monitor, its planner and the journal, the backfill producer, and the batches
that it has published and that the journal loop still has to append. -/
structure Healing where
  gap : GapState
  worker : WorkerPc
  waiting : List (List Tick)

inductive HealingAction where
  -- An envelope of another producer is journaled.
  | feed (call : AppendCall)
  | monitor (order : RowOrder) (now : Int)
  -- A task is claimed. What each turn of `_process_task` will meet: the listed turns, then the same.
  | claim (turns : List Turn) (rest : Turn) (error : String)
  | publish
  | finish
  -- The next published batch is journaled; the rows of the call's envelope are those of the batch.
  | journal (call : AppendCall)
  | restart

def WorkerPc.taskId : WorkerPc → Option Nat
  | .idle => none
  | .publishing taskId _ _ => some taskId

namespace Healing

def new (maxIdsPerTask : Int) : Healing :=
  { gap := .new maxIdsPerTask, worker := .idle, waiting := [] }

def turnAt (turns : List Turn) (rest : Turn) (k : Nat) : Turn := turns.getD k rest

section Steps

variable [Uppercase] (exchange : Exchange) (pageSize : Int)

def work (task : Task) (turns : Nat → Turn) (error : String) : Option WorkerPc :=
  match processTask exchange pageSize task turns with
  | .returned published => some (.publishing task.taskId published none)
  | .raised published => some (.publishing task.taskId published (some error))
  | .unfinished => none

def claim (s : Healing) (turns : Nat → Turn) (error : String) : Option Healing :=
  match s.worker, s.gap.planner.claimTask "binance" with
  | .idle, some (taskId, planner) =>
      match planner.tasks.find? fun t => t.taskId = taskId with
      | some task => (work exchange pageSize task turns error).map fun worker =>
          { s with gap := { s.gap with planner }, worker }
      | none => none
  | _, _ => none

def publish (s : Healing) : Option Healing :=
  match s.worker with
  | .publishing taskId (batch :: left) error =>
      some { s with worker := .publishing taskId left error, waiting := s.waiting ++ [batch] }
  | _ => none

def finish (s : Healing) : Option Healing :=
  match s.worker with
  | .publishing taskId [] error =>
      let action : GapAction := match error with
        | none => .markDone taskId
        | some error => .markFailed taskId error
      (s.gap.step action).map fun gap => { s with gap, worker := .idle }
  | _ => none

def journal (s : Healing) (call : AppendCall) : Option Healing :=
  match s.waiting with
  | batch :: waiting =>
      (s.gap.step (.append { call with env := { call.env with rows := batch } })).map fun gap =>
        { s with gap, waiting }
  | [] => none

/-- The published batches are in the event store, so they outlive the process. -/
def restart (s : Healing) : Option Healing :=
  (s.gap.step .restart).map fun gap => { s with gap, worker := .idle }

def step (s : Healing) : HealingAction → Option Healing
  | .feed call => (s.gap.step (.append call)).map fun gap => { s with gap }
  | .monitor order now => (s.gap.step (.monitor order now)).map fun gap => { s with gap }
  | .claim turns rest error => s.claim exchange pageSize (turnAt turns rest) error
  | .publish => s.publish
  | .finish => s.finish
  | .journal call => s.journal call
  | .restart => s.restart

end Steps

def Settled (s : Healing) : Prop :=
  (∀ t ∈ s.gap.planner.tasks, t.status ≠ .pending) ∧ s.worker.taskId = none

/-- Requests are answered with trades where there are any, and the process is not restarted before its
planner has settled. -/
def steady (pageSize : Int) (s : Healing) : HealingAction → Prop
  | .claim turns rest _ => ∀ turn ∈ rest :: turns, turn.stop = false ∧ 0 < pageCount pageSize turn
  | .restart => s.Settled
  | _ => True

instance (s : Healing) : Decidable s.Settled :=
  inferInstanceAs (Decidable ((∀ t ∈ s.gap.planner.tasks, t.status ≠ .pending) ∧ _ = none))

instance (pageSize : Int) (s : Healing) (a : HealingAction) : Decidable (steady pageSize s a) :=
  match a with
  | .claim turns rest _ =>
      inferInstanceAs (Decidable (∀ turn ∈ rest :: turns,
        turn.stop = false ∧ 0 < pageCount pageSize turn))
  | .restart => inferInstanceAs (Decidable s.Settled)
  | .feed _ | .monitor _ _ | .publish | .finish | .journal _ => isTrue trivial

def IsTrade (symbol : String) (i : Int) (tick : Tick) : Prop :=
  tick.symbol = symbol ∧ tradeSeq tick = some i

def Held (s : Healing) (symbol : String) (i : Int) : Prop :=
  Present s.gap.journal.hot symbol i ∨ ∃ batch ∈ s.waiting, ∃ tick ∈ batch, IsTrade symbol i tick

section Runs

variable [Uppercase]

variable {exchange : Exchange} {pageSize : Int} {symbol : String} {s s' : Healing} {t : Task}
  {i : Int}

def Asked (exchange : Exchange) (t : Task) (i : Int) : Prop :=
  0 ≤ i ∧ t.startId ≤ i ∧ i ≤ t.endId ∧ ∃ trade ∈ exchange.trades (upper t.symbol), trade.id = i

def Filled (exchange : Exchange) (s : Healing) (t : Task) : Prop :=
  ∀ i, Asked exchange t i → s.Held t.symbol i

structure Inv (exchange : Exchange) (symbol : String) (s : Healing) : Prop where
  gap : s.gap.Inv
  first : ∀ first, s.gap.firstSeen symbol = some first → 0 ≤ first
  enqueued : ∀ e ∈ s.gap.enqueued, e.symbol = symbol → Filled exchange s e ∨
    ∃ t ∈ s.gap.planner.tasks, t.symbol = symbol ∧ t.piece = e.piece ∧
      (t.status = .pending ∨ s.worker.taskId = some t.taskId)
  worker : ∀ taskId left error, s.worker = .publishing taskId left error →
    ∃ t ∈ s.gap.planner.tasks, t.taskId = taskId ∧ (t.symbol = symbol → ∀ i, Asked exchange t i →
      s.Held symbol i ∨ ∃ tick ∈ left.flatten, IsTrade symbol i tick)

theorem Asked.of_piece {e : Task} (own : t.symbol = e.symbol) (piece : t.piece = e.piece)
    (asked : Asked exchange e i) : Asked exchange t i := by
  obtain ⟨nonneg, above, below, traded⟩ := asked
  obtain ⟨start, end_⟩ := Prod.mk.inj piece
  exact ⟨nonneg, start ▸ above, end_ ▸ below, own ▸ traded⟩

theorem Filled.mono (filled : Filled exchange s t)
    (held : ∀ i, 0 ≤ i → s.Held t.symbol i → s'.Held t.symbol i) : Filled exchange s' t :=
  fun i asked => held i asked.1 (filled i asked)

omit [Uppercase] in
theorem nonneg_of_present {hot : List HotRow} (present : Present hot symbol i) : 0 ≤ i := by
  obtain ⟨r, _, number⟩ := present
  unfold rowSeq at number
  split at number
  next =>
    unfold tradeSeq at number
    split at number
    next =>
      unfold HotRow.toTick at number
      simp only at number
      split at number
      next => split at number <;> simp_all
      next => cases number
    next => cases number
  next => cases number

section Journal

variable {journal : DuckDbJournal} {call : AppendCall}

omit [Uppercase] in
theorem present_append (present : Present journal.hot symbol i) :
    Present (journal.appendEnvelope call.rowNumber call.now call.env).hot symbol i := by
  by_cases empty : call.env.rows = []
  next => rwa [DuckDbJournal.appendEnvelope_nil empty]
  next =>
    rw [DuckDbJournal.appendEnvelope_cons empty]
    exact present.append _

omit [Uppercase] in
theorem present_of_row {tick : Tick} (row : tick ∈ call.env.rows) (trade : IsTrade symbol i tick)
    (nonneg : 0 ≤ i) :
    Present (journal.appendEnvelope call.rowNumber call.now call.env).hot symbol i := by
  rw [DuckDbJournal.appendEnvelope_cons (List.ne_nil_of_mem row)]
  obtain ⟨own, number⟩ := trade
  unfold tradeSeq at number
  split at number
  next kind =>
    refine ⟨_, List.mem_append_right _ (List.mem_map_of_mem row), ?_⟩
    unfold rowSeq tradeSeq HotRow.toTick
    simp [own, kind, number, not_lt.mpr nonneg]
  next => cases number

end Journal

omit [Uppercase] in
theorem monitorStep_cases (g : GapState) (order : RowOrder) (now : Int) :
    (g.monitorStep order now).journal.hot = g.journal.hot ∧
      ((g.monitorStep order now).planner = g.planner ∧
          (g.monitorStep order now).enqueued = g.enqueued ∨
        ∃ gap cur, (g.monitorStep order now).planner = g.planner.enqueueTask gap cur now ∧
          (g.monitorStep order now).enqueued = g.enqueued ++ [g.planner.slice gap cur now]) := by
  unfold GapState.monitorStep
  cases g.pc with
  | fetch => simp only; split <;> exact ⟨rfl, .inl ⟨rfl, rfl⟩⟩
  | scan page =>
      obtain ⟨rows, envs, lastBid⟩ := page
      cases rows with
      | cons t rows =>
          have same := congrArg DuckDbJournal.hot (GapState.getLastSeq_journal g.monitor t.symbol)
          simp only [GapState.scanRow]
          split
          next => exact ⟨rfl, .inl ⟨rfl, rfl⟩⟩
          next => split <;> exact ⟨same, .inl ⟨rfl, rfl⟩⟩
      | nil => cases envs <;> exact ⟨rfl, .inl ⟨rfl, rfl⟩⟩
  | addGap t seq lastSeq gap cur page =>
      simp only
      split
      next => exact ⟨rfl, .inr ⟨gap, cur, rfl, rfl⟩⟩
      next => exact ⟨rfl, .inl ⟨rfl, rfl⟩⟩
  | advance t seq lastSeq page =>
      simp only
      unfold GapState.advanceSeq
      split <;> exact ⟨rfl, .inl ⟨rfl, rfl⟩⟩

omit [Uppercase] in
theorem firstSeen_monitorStep (g : GapState) (order : RowOrder) (now : Int) :
    (g.monitorStep order now).firstSeen = g.firstSeen ∨ ∃ t seq lastSeq page,
      g.pc = .advance t seq lastSeq page ∧ (g.monitorStep order now).firstSeen = fun symbol =>
        if symbol = t.symbol ∧ lastSeq = none then some seq else g.firstSeen symbol := by
  unfold GapState.monitorStep
  cases pc : g.pc with
  | fetch => simp only; split <;> exact .inl rfl
  | scan page =>
      obtain ⟨rows, envs, lastBid⟩ := page
      cases rows with
      | cons t rows =>
          simp only [GapState.scanRow]
          split
          next => exact .inl rfl
          next => split <;> exact .inl rfl
      | nil => cases envs <;> exact .inl rfl
  | addGap t seq lastSeq gap cur page => simp only; split <;> exact .inl rfl
  | advance t seq lastSeq page =>
      simp only
      unfold GapState.advanceSeq
      split
      next => exact .inr ⟨t, seq, lastSeq, page, rfl, rfl⟩
      next => exact .inl rfl

omit [Uppercase] in
theorem first_monitorStep {g : GapState} (inv : g.Inv)
    (first : ∀ first, g.firstSeen symbol = some first → 0 ≤ first) (order : RowOrder) (now : Int) :
    ∀ first, (g.monitorStep order now).firstSeen symbol = some first → 0 ≤ first := by
  intro n seen
  rcases firstSeen_monitorStep g order now with same | ⟨t, seq, lastSeq, page, pc, changed⟩
  next => exact first n (same ▸ seen)
  next =>
    rw [changed] at seen
    simp only at seen
    split at seen
    next =>
      have ok := inv.pcOk
      unfold GapState.PcOk at ok
      rw [pc] at ok
      cases seen
      exact nonneg_of_present ok.2.1
    next => exact first n seen

theorem Inv.grow (inv : Inv exchange symbol s) (worker : s'.worker = s.worker) (gap : s'.gap.Inv)
    (first : ∀ first, s'.gap.firstSeen symbol = some first → 0 ≤ first)
    (held : ∀ i, 0 ≤ i → s.Held symbol i → s'.Held symbol i)
    (kept : ∀ t ∈ s.gap.planner.tasks, t ∈ s'.gap.planner.tasks)
    (enqueued : ∀ e ∈ s'.gap.enqueued, e ∈ s.gap.enqueued ∨
      e ∈ s'.gap.planner.tasks ∧ e.status = .pending) : Inv exchange symbol s' := by
  refine { gap, first, enqueued := ?_, worker := ?_ }
  next =>
    intro e member own
    rcases enqueued e member with old | ⟨new, pending⟩
    next =>
      rcases inv.enqueued e old own with filled | ⟨t, inside, same, piece, open_⟩
      next => exact .inl (filled.mono fun i nonneg => own ▸ held i nonneg)
      next => exact .inr ⟨t, kept t inside, same, piece, worker ▸ open_⟩
    next => exact .inr ⟨e, new, own, rfl, .inl pending⟩
  next =>
    intro taskId left error publishing
    obtain ⟨t, inside, id, rest⟩ := inv.worker taskId left error (worker ▸ publishing)
    refine ⟨t, kept t inside, id, fun own i asked => ?_⟩
    exact (rest own i asked).imp_left (held i asked.1)

theorem Inv.feed (inv : Inv exchange symbol s) (call : AppendCall) {gap : GapState}
    (taken : s.gap.step (.append call) = some gap) : Inv exchange symbol { s with gap } := by
  have after := GapState.inv_step inv.gap taken
  cases taken
  refine inv.grow rfl after inv.first ?_ (fun t member => member) fun e member => .inl member
  exact fun i _ held => held.imp_left present_append

theorem Inv.monitor (inv : Inv exchange symbol s) {order : RowOrder} {now : Int} {gap : GapState}
    (taken : s.gap.step (.monitor order now) = some gap) : Inv exchange symbol { s with gap } := by
  have after := GapState.inv_step inv.gap taken
  cases taken
  obtain ⟨hot, tasks⟩ := monitorStep_cases s.gap order now
  refine inv.grow rfl after (first_monitorStep inv.gap inv.first order now) ?_ ?_ ?_
  next => exact fun i _ held => held.imp_left fun present => hot.symm ▸ present
  next =>
    intro t member
    rcases tasks with ⟨same, _⟩ | ⟨gap, cur, more, _⟩
    next => exact same.symm ▸ member
    next =>
      change t ∈ (s.gap.monitorStep order now).planner.tasks
      rw [more]
      exact List.mem_append_left _ member
  next =>
    intro e member
    rcases tasks with ⟨_, same⟩ | ⟨gap, cur, more, added⟩
    next => exact .inl (same ▸ member)
    next =>
      change e ∈ (s.gap.monitorStep order now).enqueued at member
      rw [added] at member
      rcases List.mem_append.mp member with old | new
      next => exact .inl old
      next =>
        obtain rfl := List.mem_singleton.mp new
        refine .inr ⟨?_, rfl⟩
        change _ ∈ (s.gap.monitorStep order now).planner.tasks
        rw [more]
        exact List.mem_append_right _ (List.mem_singleton_self _)

theorem Inv.journal (inv : Inv exchange symbol s) {batch : List Tick} {waiting : List (List Tick)}
    (next : s.waiting = batch :: waiting) (call : AppendCall) (rows : call.env.rows = batch)
    {gap : GapState} (taken : s.gap.step (.append call) = some gap) :
    Inv exchange symbol { s with gap, waiting } := by
  have after := GapState.inv_step inv.gap taken
  cases taken
  refine inv.grow rfl after inv.first ?_ (fun t member => member) fun e member => .inl member
  intro i nonneg held
  rcases held with present | ⟨b, member, tick, inside, trade⟩
  next => exact .inl (present_append present)
  next =>
    rw [next] at member
    rcases List.mem_cons.mp member with rfl | later
    next => exact .inl (present_of_row (rows ▸ inside) trade nonneg)
    next => exact .inr ⟨b, later, tick, inside, trade⟩

theorem Inv.publish (inv : Inv exchange symbol s) (taken : s.publish = some s') :
    Inv exchange symbol s' := by
  unfold Healing.publish at taken
  split at taken
  next taskId batch left error publishing =>
    cases taken
    have more : ∀ i, s.Held symbol i →
        Held { s with worker := .publishing taskId left error, waiting := s.waiting ++ [batch] }
          symbol i := by
      intro i held
      refine held.imp_right ?_
      rintro ⟨b, member, found⟩
      exact ⟨b, List.mem_append_left _ member, found⟩
    refine { gap := inv.gap, first := inv.first, enqueued := ?_, worker := ?_ }
    next =>
      intro e member own
      rcases inv.enqueued e member own with filled | ⟨t, inside, same, piece, open_⟩
      next => exact .inl (filled.mono fun i _ => own ▸ more i)
      next => exact .inr ⟨t, inside, same, piece, open_.imp_right fun works => by
        rw [publishing] at works; exact works⟩
    next =>
      intro _ _ _ same
      cases same
      obtain ⟨t, inside, id, rest⟩ := inv.worker taskId (batch :: left) error publishing
      refine ⟨t, inside, id, fun own i asked => ?_⟩
      rcases rest own i asked with held | ⟨tick, member, trade⟩
      next => exact .inl (more i held)
      next =>
        rw [List.flatten_cons] at member
        rcases List.mem_append.mp member with here | later
        next =>
          exact .inl (.inr ⟨batch, List.mem_append_right _ (List.mem_singleton_self _), tick, here,
            trade⟩)
        next => exact .inr ⟨tick, later, trade⟩
  next => cases taken

theorem Inv.finish (inv : Inv exchange symbol s) (taken : s.finish = some s') :
    Inv exchange symbol s' := by
  unfold Healing.finish at taken
  split at taken
  next taskId error publishing =>
    obtain ⟨gap, marked, rfl⟩ := Option.map_eq_some_iff.mp taken
    have after := GapState.inv_step inv.gap marked
    have shape : gap.journal = s.gap.journal ∧ gap.firstSeen = s.gap.firstSeen ∧
        gap.enqueued = s.gap.enqueued ∧ ∃ status text,
          gap.planner = s.gap.planner.updateTask taskId status 0 text := by
      cases error <;> cases marked
      next => exact ⟨rfl, rfl, rfl, .done, none, rfl⟩
      next error => exact ⟨rfl, rfl, rfl, .failed, some error, rfl⟩
    obtain ⟨journal, first, enqueued, status, text, planner⟩ := shape
    have held : ∀ sym i, s.Held sym i → Held { s with gap, worker := .idle } sym i := by
      intro sym i found
      unfold Held at found ⊢
      rwa [journal]
    refine { gap := after, first := fun n seen => inv.first n (first ▸ seen), enqueued := ?_,
             worker := fun _ _ _ same => nomatch same }
    intro e member own
    rw [enqueued] at member
    rcases inv.enqueued e member own with filled | ⟨t, inside, same, piece, open_⟩
    next => exact .inl (filled.mono fun i _ => held e.symbol i)
    next =>
      obtain ⟨mine, known, id, rest⟩ := inv.worker taskId [] error publishing
      by_cases works : t.taskId = taskId
      next =>
        have identical : t = mine := by
          exact List.inj_on_of_nodup_map s.gap.planner.unique inside known (works.trans id.symm)
        subst identical
        refine .inl fun i asked => held e.symbol i ?_
        rw [own]
        have asked' : Asked exchange t i := asked.of_piece (same.trans own.symm) piece
        exact (rest same i asked').resolve_right fun ⟨_, member, _⟩ => absurd member List.not_mem_nil
      next =>
        have pending : t.status = .pending := by
          refine open_.resolve_right fun working => works ?_
          rw [publishing] at working
          exact (Option.some.inj working).symm
        refine .inr ⟨t, ?_, same, piece, .inl pending⟩
        change t ∈ gap.planner.tasks
        rw [planner]
        refine List.mem_map.mpr ⟨t, inside, ?_⟩
        rw [Task.update, if_neg works]
  next => cases taken

theorem isTrade_of_rest {trade : ExchangeTrade} {tick : Tick} (named : symbol ≠ "")
    (parsed : restTradeJsonToTick trade.row symbol = some tick) :
    IsTrade (upper symbol) trade.id tick := by
  have number := restTradeJsonToTick_seq parsed
  unfold restTradeJsonToTick at parsed
  simp only [Option.bind_eq_bind, Option.bind_eq_some_iff, Option.some.injEq] at parsed
  obtain ⟨tid, _, tsNs, _, sym, isSymbol, _, _, _, _, _, _, _, _, rfl⟩ := parsed
  have given : (Value.str symbol).or ((field trade.row "symbol").or
      ((field trade.row "s").or (.str ""))) = .str symbol := by
    simp [Value.or, Value.truthy, named]
  unfold restSymbol at isSymbol
  rw [given] at isSymbol
  cases isSymbol
  exact ⟨rfl, number⟩

theorem work_answered {turns : Nat → Turn} {error : String} {worker : WorkerPc}
    (answered : GapRefill.Answered pageSize turns) (capitals : upper t.symbol = t.symbol)
    (named : t.symbol ≠ "")
    (convertible : GapRefill.Convertible t.symbol (exchange.trades (upper t.symbol)))
    (works : work exchange pageSize t turns error = some worker) :
    ∃ left error, worker = .publishing t.taskId left error ∧ ∀ i, Asked exchange t i →
      ∃ tick ∈ left.flatten, IsTrade t.symbol i tick := by
  obtain ⟨batches, returned, content⟩ := GapRefill.processTask_answered answered
    fun trade requested => convertible trade (mem_requestedTrades.mp requested).1
  unfold work at works
  rw [returned] at works
  cases works
  refine ⟨batches, none, rfl, ?_⟩
  rintro i ⟨_, above, below, trade, traded, rfl⟩
  have requested : trade ∈ requestedTrades exchange t t.startId :=
    mem_requestedTrades.mpr ⟨traded, above, below⟩
  have parsed : restTradeJsonToTick trade.row t.symbol ∈ batches.flatten.map some := by
    rw [content]
    exact List.mem_map_of_mem requested
  obtain ⟨tick, member, same⟩ := List.mem_map.mp parsed
  have trade_ := isTrade_of_rest named same.symm
  exact ⟨tick, member, capitals ▸ trade_⟩

theorem work_taskId {turns : Nat → Turn} {error : String} {worker : WorkerPc}
    (works : work exchange pageSize t turns error = some worker) :
    ∃ left error, worker = .publishing t.taskId left error := by
  unfold work at works
  split at works <;> cases works
  next published _ => exact ⟨published, none, rfl⟩
  next published _ => exact ⟨published, some error, rfl⟩

omit [Uppercase] in
theorem claimTask_eq_some {planner later : BackfillPlanner} {provider : String} {taskId : Nat}
    (claimed : planner.claimTask provider = some (taskId, later)) :
    later.tasks = planner.tasks.map (Task.update taskId .running 1 none) := by
  unfold BackfillPlanner.claimTask at claimed
  split at claimed <;> cases claimed
  rfl

theorem Inv.claim (inv : Inv exchange symbol s) {turns : Nat → Turn} {error : String}
    (answered : GapRefill.Answered pageSize turns) (capitals : upper symbol = symbol)
    (named : symbol ≠ "")
    (convertible : GapRefill.Convertible symbol (exchange.trades (upper symbol)))
    (taken : s.claim exchange pageSize turns error = some s') : Inv exchange symbol s' := by
  unfold Healing.claim at taken
  split at taken
  next taskId planner idle claimed =>
    split at taken
    next task found =>
      obtain ⟨worker, works, rfl⟩ := Option.map_eq_some_iff.mp taken
      have member := List.mem_of_find?_eq_some found
      have id : task.taskId = taskId := by simpa using List.find?_some found
      have tasks := claimTask_eq_some claimed
      obtain ⟨left, ending, publishing⟩ := work_taskId works
      refine { gap := GapState.inv_claim inv.gap claimed, first := inv.first, enqueued := ?_,
               worker := ?_ }
      next =>
        intro e enqueued own
        rcases inv.enqueued e enqueued own with filled | ⟨t, inside, same, piece, open_⟩
        next => exact .inl filled
        next =>
          have pending : t.status = .pending := by
            refine open_.resolve_right fun working => ?_
            rw [idle] at working
            cases working
          obtain ⟨sameId, _, sameSymbol, samePiece⟩ := t.same_update taskId .running 1 none
          refine .inr ⟨t.update taskId .running 1 none, ?_, sameSymbol.trans same,
            samePiece.trans piece, ?_⟩
          next =>
            change _ ∈ planner.tasks
            rw [tasks]
            exact List.mem_map_of_mem inside
          next =>
            by_cases mine : t.taskId = taskId
            next =>
              refine .inr ?_
              rw [publishing, sameId, mine, ← id]
              rfl
            next =>
              refine .inl ?_
              rw [Task.update, if_neg mine]
              exact pending
      next =>
        intro taskId' left' error' same
        change worker = _ at same
        refine ⟨task, member, ?_, fun own i asked => ?_⟩
        next =>
          rw [publishing] at same
          cases same
          rfl
        next =>
          subst own
          obtain ⟨left, ending, here, all⟩ :=
            work_answered answered capitals named convertible works
          rw [here] at same
          cases same
          exact .inr (all i asked)
    next => cases taken
  next => cases taken

theorem Inv.settled (inv : Inv exchange symbol s) (settled : s.Settled) :
    ∀ e ∈ s.gap.enqueued, e.symbol = symbol → Filled exchange s e := by
  intro e member own
  refine (inv.enqueued e member own).resolve_right ?_
  rintro ⟨t, inside, _, _, pending | working⟩
  next => exact settled.1 t inside pending
  next =>
    rw [settled.2] at working
    cases working

theorem Inv.restart (inv : Inv exchange symbol s) (settled : s.Settled)
    (taken : s.restart = some s') : Inv exchange symbol s' := by
  unfold Healing.restart at taken
  obtain ⟨gap, restarted, rfl⟩ := Option.map_eq_some_iff.mp taken
  have after := GapState.inv_step inv.gap restarted
  cases restarted
  exact {
    gap := after, first := inv.first
    enqueued := fun e member own => .inl (inv.settled settled e member own)
    worker := fun _ _ _ same => nomatch same }

omit [Uppercase] in
theorem answered_turnAt {turns : List Turn} {rest : Turn}
    (all : ∀ turn ∈ rest :: turns, turn.stop = false ∧ 0 < pageCount pageSize turn) :
    GapRefill.Answered pageSize (turnAt turns rest) := by
  intro k
  refine all _ ?_
  unfold turnAt
  rw [List.getD_eq_getElem?_getD]
  cases found : turns[k]? with
  | none => exact List.mem_cons_self
  | some turn => exact List.mem_cons_of_mem _ (List.mem_of_getElem? found)

theorem Inv.step (inv : Inv exchange symbol s) (capitals : upper symbol = symbol)
    (named : symbol ≠ "")
    (convertible : GapRefill.Convertible symbol (exchange.trades (upper symbol)))
    {a : HealingAction} (allowed : steady pageSize s a)
    (taken : Healing.step exchange pageSize s a = some s') : Inv exchange symbol s' := by
  cases a with
  | feed call =>
      obtain ⟨gap, moved, rfl⟩ : ∃ gap, s.gap.step (.append call) = some gap ∧ { s with gap } = s' :=
        Option.map_eq_some_iff.mp taken
      exact inv.feed call moved
  | monitor order now =>
      obtain ⟨gap, moved, rfl⟩ : ∃ gap, s.gap.step (.monitor order now) = some gap ∧
          { s with gap } = s' := Option.map_eq_some_iff.mp taken
      exact inv.monitor moved
  | claim turns rest error => exact inv.claim (answered_turnAt allowed) capitals named convertible taken
  | publish => exact inv.publish taken
  | finish => exact inv.finish taken
  | journal call =>
      change s.journal call = some s' at taken
      unfold Healing.journal at taken
      split at taken
      next batch waiting next =>
        obtain ⟨gap, moved, rfl⟩ := Option.map_eq_some_iff.mp taken
        exact inv.journal next _ rfl moved
      next => cases taken
  | restart => exact inv.restart allowed taken

theorem Inv.initial (maxIdsPerTask : Int) : Inv exchange symbol (new maxIdsPerTask) :=
  { gap := GapState.new_inv maxIdsPerTask
    first := fun _ seen => nomatch seen
    enqueued := fun _ member => absurd member List.not_mem_nil
    worker := fun _ _ _ same => nomatch same }

/-- Once the planner has settled and what was published is journaled, no trade of the exchange between
the first that was seen of the symbol and the `last_seq` saved is missing in the journal. -/
theorem heals {maxIdsPerTask : Int}
    (reached : Reaches (step exchange pageSize) (steady pageSize) (new maxIdsPerTask) s)
    (capitals : upper symbol = symbol) (named : symbol ≠ "")
    (convertible : GapRefill.Convertible symbol (exchange.trades (upper symbol)))
    (settled : s.Settled) (journaled : s.waiting = []) :
    ∀ trade ∈ exchange.trades (upper symbol), s.gap.InRange symbol trade.id →
      Present s.gap.journal.hot symbol trade.id := by
  have inv : Inv exchange symbol s := reached.invariant (Inv exchange symbol)
    (Inv.initial maxIdsPerTask) fun _ _ _ before allowed taken =>
      before.step capitals named convertible allowed taken
  intro trade traded inRange
  rcases inv.gap.known symbol trade.id inRange with present | ⟨e, enqueued, own, above, below⟩
  next => exact present
  next =>
    have nonneg : 0 ≤ trade.id := by
      obtain ⟨first, seen, after, -⟩ := inRange
      exact (inv.first first seen).trans after
    have asked : Asked exchange e trade.id :=
      ⟨nonneg, above, below, trade, own.symm ▸ traded, rfl⟩
    rcases inv.settled settled e enqueued own trade.id asked with present | ⟨batch, member, -⟩
    next => exact own ▸ present
    next =>
      rw [journaled] at member
      cases member

end Runs

def envelope (batchId : Int) (rows : List Tick) : AppendCall :=
  { rowNumber := .argmax, now := 0
    env := { batchId, producedAtNs := 0, firstOffset := none, lastOffset := none, rows } }

attribute [local instance] asciiUppercase

-- The trades 1 and 7 are streamed; the exchange has 3, 4 and 6 in between and answers one at a time.
theorem heals_three_trades :
    ∃ s, Reaches (step GapRefill.fourTrades 1000) (steady 1000) (new 5000) s ∧
      ∀ trade ∈ GapRefill.fourTrades.trades (upper "BTCUSDT"),
        Present s.gap.journal.hot "BTCUSDT" trade.id := by
  obtain ⟨s, reached, checked⟩ := reaches_allowed_of_check (step GapRefill.fourTrades 1000)
    (steady 1000) (new 5000)
    (.feed (envelope 1 [tradeAt 1 10, tradeAt 7 20]) ::
      (List.replicate 8 (.monitor .byTime 0) ++
        [.claim [] GapRefill.oneAtATime "error", .publish, .publish, .publish, .finish,
          .journal (envelope 2 []), .journal (envelope 3 []), .journal (envelope 4 []), .restart]))
    (fun s => decide (s.Settled ∧ s.waiting = [] ∧ s.gap.firstSeen "BTCUSDT" = some 1 ∧
      s.gap.lastSaved "BTCUSDT" = 7)) (by decide +kernel) (by decide +kernel)
  obtain ⟨settled, journaled, first, saved⟩ := of_decide_eq_true checked
  have parsed : GapRefill.Convertible "BTCUSDT"
      (GapRefill.fourTrades.trades (upper "BTCUSDT")) := by
    unfold GapRefill.Convertible
    decide +kernel
  have inside : ∀ trade ∈ GapRefill.fourTrades.trades (upper "BTCUSDT"),
      1 ≤ trade.id ∧ trade.id ≤ 7 := by
    decide +kernel
  refine ⟨s, reached, fun trade traded => ?_⟩
  obtain ⟨above, below⟩ := inside trade traded
  exact heals reached (by decide +kernel) (by decide) parsed settled journaled trade traded
    ⟨1, first, above, saved.symm ▸ below⟩

end Healing

end DeepFeeder
