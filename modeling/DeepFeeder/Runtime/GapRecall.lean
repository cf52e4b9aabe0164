import DeepFeeder.Runtime.GapMemory

set_option autoImplicit false

namespace DeepFeeder

namespace GapState

def RowsStored (hot : List HotRow) (rows : List Tick) : Prop :=
  ∀ t ∈ rows, ∀ seq, tradeSeq t = some seq → Present hot t.symbol seq

structure PageStored (hot : List HotRow) (page : Page) : Prop where
  rows : RowsStored hot page.rows
  envs : ∀ env ∈ page.envs, RowsStored hot env.rows

def Bridged (tasks : List Task) (symbol : String) (lastSeq : Option Int) (upTo : Int) : Prop :=
  ∀ last, lastSeq = some last → ∀ i, last < i → i < upTo → Covered tasks symbol i

def PcOk (s : GapState) : Prop :=
  match s.pc with
  | .fetch => True
  | .scan page => PageStored s.journal.hot page
  | .addGap t seq lastSeq gap cur page =>
      PageStored s.journal.hot page ∧ Present s.journal.hot t.symbol seq ∧
        s.monitor.currentSeq t.symbol = lastSeq ∧ gap.symbol = t.symbol ∧ gap.endId = seq - 1 ∧
          Bridged s.planner.tasks t.symbol lastSeq cur
  | .advance t seq lastSeq page =>
      PageStored s.journal.hot page ∧ Present s.journal.hot t.symbol seq ∧
        s.monitor.currentSeq t.symbol = lastSeq ∧ Bridged s.planner.tasks t.symbol lastSeq seq

-- The number lies between the first row of its symbol and the `last_seq` saved.
def InRange (s : GapState) (symbol : String) (i : Int) : Prop :=
  ∃ first, s.firstSeen symbol = some first ∧ first ≤ i ∧ i ≤ s.lastSaved symbol

structure Inv (s : GapState) : Prop where
  current : ∀ symbol v, s.monitor.currentSeq symbol = some v → s.lastSaved symbol = v
  known : ∀ symbol i, s.InRange symbol i →
    Present s.journal.hot symbol i ∨ Covered s.enqueued symbol i
  recent : ∀ symbol i, s.InRange symbol i → s.startSeq symbol < i →
    Present s.journal.hot symbol i ∨ Covered s.planner.tasks symbol i
  logged : ∀ symbol i, Covered s.planner.tasks symbol i → Covered s.enqueued symbol i
  live : ∀ t ∈ s.planner.tasks,
    t.status = .pending ∨ t.status = .running ∨ t.taskId ∈ s.marked
  pcOk : s.PcOk

variable {s s' : GapState}

theorem Bridged.mono {tasks tasks' : List Task} {symbol : String} {lastSeq : Option Int}
    {upTo : Int} (bridged : Bridged tasks symbol lastSeq upTo)
    (covered : ∀ symbol i, Covered tasks symbol i → Covered tasks' symbol i) :
    Bridged tasks' symbol lastSeq upTo :=
  fun last seen i above below => covered symbol i (bridged last seen i above below)

theorem PageStored.mono {hot hot' : List HotRow} {page : Page} (stored : PageStored hot page)
    (present : ∀ symbol i, Present hot symbol i → Present hot' symbol i) :
    PageStored hot' page where
  rows := fun t member seq number => present _ _ (stored.rows t member seq number)
  envs := fun env inside t member seq number =>
    present _ _ (stored.envs env inside t member seq number)

theorem PcOk.mono (ok : s.PcOk) (pc : s'.pc = s.pc)
    (present : ∀ symbol i, Present s.journal.hot symbol i → Present s'.journal.hot symbol i)
    (current : ∀ symbol, s'.monitor.currentSeq symbol = s.monitor.currentSeq symbol)
    (covered : ∀ symbol i, Covered s.planner.tasks symbol i → Covered s'.planner.tasks symbol i) :
    s'.PcOk := by
  unfold PcOk at ok ⊢
  rw [pc]
  cases at_ : s.pc with
  | fetch => trivial
  | scan page =>
      rw [at_] at ok
      exact ok.mono present
  | addGap t seq lastSeq gap cur page =>
      rw [at_] at ok
      obtain ⟨stored, here, seen, own, ends, bridged⟩ := ok
      exact ⟨stored.mono present, present _ _ here, (current _).trans seen, own, ends,
        bridged.mono covered⟩
  | advance t seq lastSeq page =>
      rw [at_] at ok
      obtain ⟨stored, here, seen, bridged⟩ := ok
      exact ⟨stored.mono present, present _ _ here, (current _).trans seen, bridged.mono covered⟩

theorem Inv.frame (inv : s.Inv) (first : s'.firstSeen = s.firstSeen)
    (start : s'.startSeq = s.startSeq) (saved : s'.lastSaved = s.lastSaved)
    (current : ∀ symbol, s'.monitor.currentSeq symbol = s.monitor.currentSeq symbol)
    (present : ∀ symbol i, Present s.journal.hot symbol i → Present s'.journal.hot symbol i)
    (covered : ∀ symbol i, Covered s.planner.tasks symbol i → Covered s'.planner.tasks symbol i)
    (enqueued : ∀ symbol i, Covered s.enqueued symbol i → Covered s'.enqueued symbol i)
    (logged : ∀ symbol i, Covered s'.planner.tasks symbol i → Covered s'.enqueued symbol i)
    (live : ∀ t ∈ s'.planner.tasks,
      t.status = .pending ∨ t.status = .running ∨ t.taskId ∈ s'.marked)
    (pcOk : s'.PcOk) : s'.Inv where
  current := by
    intro symbol v seen
    rw [saved]
    exact inv.current symbol v (current symbol ▸ seen)
  known := by
    intro symbol i inRange
    unfold InRange at inRange
    rw [first, saved] at inRange
    exact (inv.known symbol i inRange).imp (present symbol i) (enqueued symbol i)
  recent := by
    intro symbol i inRange after
    unfold InRange at inRange
    rw [first, saved] at inRange
    exact (inv.recent symbol i inRange (start ▸ after)).imp (present symbol i) (covered symbol i)
  logged := logged
  live := live
  pcOk := pcOk

theorem new_inv (maxIdsPerTask : Int) : (new maxIdsPerTask).Inv where
  current := by
    intro symbol v seen
    rw [GapMonitor.currentSeq_eq] at seen
    simp [new, GapMonitor.start, persistedSeq, DuckDbJournal.getWatermark, DuckDbJournal.new] at seen
  known := by
    rintro symbol i ⟨first, seen, _⟩
    cases seen
  recent := by
    rintro symbol i ⟨first, seen, _⟩
    cases seen
  logged := by simp [new, BackfillPlanner.new, Covered]
  live := by simp [new, BackfillPlanner.new]
  pcOk := trivial

theorem inv_append (inv : s.Inv) (call : AppendCall) :
    Inv { s with
      monitor :=
        { s.monitor with
          journal := s.journal.appendEnvelope call.rowNumber call.now call.env } } := by
  have tables : ∃ more, (s.journal.appendEnvelope call.rowNumber call.now call.env).hot =
      s.journal.hot ++ more ∧
        (s.journal.appendEnvelope call.rowNumber call.now call.env).watermarks =
          s.journal.watermarks := by
    by_cases empty : call.env.rows = []
    · exact ⟨[], by rw [DuckDbJournal.appendEnvelope_nil empty]; simp⟩
    · exact ⟨DuckDbJournal.hotRows call.env, by
        rw [DuckDbJournal.appendEnvelope_cons empty]; simp⟩
  obtain ⟨more, hot, watermarks⟩ := tables
  have current (symbol : String) :
      GapMonitor.currentSeq
          { s.monitor with
            journal := s.journal.appendEnvelope call.rowNumber call.now call.env } symbol =
        s.monitor.currentSeq symbol := by
    rw [GapMonitor.currentSeq_eq, GapMonitor.currentSeq_eq]
    unfold persistedSeq DuckDbJournal.getWatermark
    rw [watermarks]
    rfl
  have present (symbol : String) (i : Int) (old : Present s.journal.hot symbol i) :
      Present (s.journal.appendEnvelope call.rowNumber call.now call.env).hot symbol i := by
    rw [hot]
    exact old.append more
  refine inv.frame rfl rfl ?_ current present (fun _ _ => id) (fun _ _ => id) inv.logged inv.live
    (inv.pcOk.mono rfl present current fun _ _ => id)
  funext symbol
  exact congrArg (fun watermarks => (watermarks (lastSeqScope symbol)).getD 0) watermarks

theorem inv_planner (inv : s.Inv) {planner : BackfillPlanner} {marked : List Nat}
    (same : ∀ symbol i, Covered planner.tasks symbol i ↔ Covered s.planner.tasks symbol i)
    (live : ∀ t ∈ planner.tasks, t.status = .pending ∨ t.status = .running ∨ t.taskId ∈ marked) :
    Inv { s with planner, marked } :=
  inv.frame rfl rfl rfl (fun _ => rfl) (fun _ _ => id) (fun symbol i => (same symbol i).mpr)
    (fun _ _ => id) (fun symbol i covered => inv.logged symbol i ((same symbol i).mp covered)) live
    (inv.pcOk.mono rfl (fun _ _ => id) (fun _ => rfl) fun symbol i => (same symbol i).mpr)

theorem live_update (inv : s.Inv) (taskId : Nat) (status : TaskStatus) (tried : Nat)
    (error : Option String) (marked : List Nat) (keeps : s.marked ⊆ marked)
    (allowed : status = .pending ∨ status = .running ∨ taskId ∈ marked) :
    ∀ t ∈ (s.planner.updateTask taskId status tried error).tasks,
      t.status = .pending ∨ t.status = .running ∨ t.taskId ∈ marked := by
  intro t member
  obtain ⟨old, inside, rfl⟩ := List.mem_map.mp member
  unfold Task.update
  split
  next same => rw [same]; exact allowed
  next => exact (inv.live old inside).imp_right (Or.imp_right fun here => keeps here)

theorem inv_claim (inv : s.Inv) {provider : String} {claimed : Nat × BackfillPlanner}
    (taken : s.planner.claimTask provider = some claimed) : Inv { s with planner := claimed.2 } := by
  unfold BackfillPlanner.claimTask at taken
  cases queue : s.planner.queues provider with
  | nil =>
      rw [queue] at taken
      cases taken
  | cons taskId rest =>
      rw [queue] at taken
      cases taken
      exact inv_planner inv (covered_update _ taskId .running 1 none)
        (live_update inv taskId .running 1 none s.marked (fun _ => id) (.inr (.inl rfl)))

theorem inv_restart (inv : s.Inv) : s.restart.Inv where
  current := by
    intro symbol v seen
    rw [GapMonitor.currentSeq_eq] at seen
    have saved : persistedSeq s.journal symbol = some v := seen
    unfold persistedSeq at saved
    simp only at saved
    split at saved
    · exact Option.some.inj saved
    · cases saved
  known := inv.known
  recent := by
    rintro symbol i ⟨first, _, _, below⟩ above
    exact absurd (lt_of_lt_of_le above below) (lt_irrefl _)
  logged := by simp [restart, BackfillPlanner.new, Covered]
  live := by simp [restart, BackfillPlanner.new]
  pcOk := trivial

theorem inv_pc (inv : s.Inv) {pc : MonitorPc} (pcOk : PcOk { s with pc }) : Inv { s with pc } :=
  inv.frame rfl rfl rfl (fun _ => rfl) (fun _ _ => id) (fun _ _ => id) (fun _ _ => id) inv.logged
    inv.live pcOk

theorem fetched_stored (journal : DuckDbJournal) (order : RowOrder) (start : Int) (limit : Nat) :
    ∀ env ∈ journal.nextCommittedFrom order start limit, RowsStored journal.hot env.rows := by
  intro env member t inRows seq number
  obtain ⟨id, inside, read⟩ := List.mem_filterMap.mp member
  have inIds := List.mem_of_mem_take inside
  obtain ⟨r, stored, _, same⟩ := ((mem_readBatch order inIds read t.symbol).2.2 seq).mp
    (mem_seqsOf.mpr ⟨t, inRows, rfl, number⟩)
  exact ⟨r, stored, same⟩

theorem inv_fetch (inv : s.Inv) {order : RowOrder} {env : Envelope} {envs : List Envelope}
    (fetched : s.journal.nextCommittedFrom order s.monitor.nextBatch 256 = env :: envs) :
    Inv { s with pc := .scan { rows := env.rows, envs, lastBid := env.batchId } } := by
  have stored := fetched_stored s.journal order s.monitor.nextBatch 256
  rw [fetched] at stored
  exact inv_pc inv
    { rows := stored env List.mem_cons_self
      envs := fun other member => stored other (List.mem_cons_of_mem _ member) }

theorem getLastSeq_journal (m : GapMonitor) (symbol : String) :
    (m.getLastSeq symbol).2.journal = m.journal := by
  unfold GapMonitor.getLastSeq
  split
  · rfl
  · rfl

theorem inv_scanRow (inv : s.Inv) {t : Tick} {page : Page} (row : RowsStored s.journal.hot [t])
    (stored : PageStored s.journal.hot page) : (s.scanRow t page).Inv := by
  unfold scanRow
  cases scanned : tradeSeq t with
  | none => exact inv_pc inv stored
  | some seq =>
      have here : Present s.journal.hot t.symbol seq := row t (by simp) seq scanned
      have read : Inv { s with monitor := (s.monitor.getLastSeq t.symbol).2, pc := .fetch } := by
        refine inv.frame rfl rfl ?_ (GapMonitor.currentSeq_getLastSeq s.monitor t.symbol) ?_
          (fun _ _ => id) (fun _ _ => id) inv.logged inv.live trivial
        · funext symbol
          exact congrArg (fun j => j.getWatermark (lastSeqScope symbol))
            (getLastSeq_journal s.monitor t.symbol)
        · intro symbol i present
          exact (congrArg DuckDbJournal.hot (getLastSeq_journal s.monitor t.symbol)) ▸ present
      have hot : (s.monitor.getLastSeq t.symbol).2.journal.hot = s.journal.hot :=
        congrArg DuckDbJournal.hot (getLastSeq_journal s.monitor t.symbol)
      have current : (s.monitor.getLastSeq t.symbol).2.currentSeq t.symbol =
          (s.monitor.getLastSeq t.symbol).1 :=
        GapMonitor.currentSeq_getLastSeq s.monitor t.symbol t.symbol
      simp only
      cases gap : gapBefore (s.monitor.getLastSeq t.symbol).1 t seq with
      | none =>
          refine inv_pc read ⟨hot.symm ▸ stored, hot.symm ▸ here, current, ?_⟩
          intro last seen i above below
          rw [seen, gapBefore_some] at gap
          split at gap
          · cases gap
          · omega
      | some gap' =>
          cases seen : (s.monitor.getLastSeq t.symbol).1 with
          | none =>
              rw [seen, gapBefore_none] at gap
              cases gap
          | some last =>
              rw [seen, gapBefore_some] at gap
              split at gap
              next =>
                cases gap
                refine inv_pc read
                  ⟨hot.symm ▸ stored, hot.symm ▸ here, current.trans seen, rfl, rfl, ?_⟩
                rintro l ⟨⟩ i above below
                change i < last + 1 at below
                omega
              next => cases gap

theorem inv_enqueueSlice (inv : s.Inv) {t : Tick} {seq cur : Int} {lastSeq : Option Int} {gap : Gap}
    {page : Page} (now : Int) (at_ : s.pc = .addGap t seq lastSeq gap cur page) :
    (s.enqueueSlice t seq lastSeq gap cur page now).Inv := by
  have ok := inv.pcOk
  unfold PcOk at ok
  rw [at_] at ok
  obtain ⟨stored, here, seen, own, ends, bridged⟩ := ok
  have grown (tasks : List Task) (symbol : String) (i : Int) (covered : Covered tasks symbol i) :
      Covered (tasks ++ [s.planner.slice gap cur now]) symbol i := covered.append_left _
  refine inv.frame rfl rfl rfl (fun _ => rfl) (fun _ _ => id) (grown _) (grown _) ?_ ?_ ?_
  · rintro symbol i ⟨task, member, covers⟩
    rcases List.mem_append.mp member with old | new
    · exact (inv.logged symbol i ⟨task, old, covers⟩).append_left _
    · exact ⟨task, List.mem_append_right _ new, covers⟩
  · intro task member
    rcases List.mem_append.mp member with old | new
    · exact inv.live task old
    · rw [List.mem_singleton.mp new]
      exact .inl rfl
  · refine ⟨stored, here, seen, own, ends, ?_⟩
    intro last before i above below
    by_cases early : i < cur
    · exact grown _ _ _ (bridged last before i above early)
    · refine ⟨s.planner.slice gap cur now, by simp [enqueueSlice, BackfillPlanner.enqueueTask],
        own, by simpa [BackfillPlanner.slice] using early, ?_⟩
      change i ≤ s.planner.sliceEnd gap cur
      omega

theorem lastSaved_setLastSeq (m : GapMonitor) (symbol : String) (seq : Int) (other : String) :
    (m.setLastSeq symbol seq).journal.getWatermark (lastSeqScope other) =
      if other = symbol then seq else m.journal.getWatermark (lastSeqScope other) := by
  unfold GapMonitor.setLastSeq
  rw [DuckDbJournal.getWatermark_setWatermark]
  by_cases same : other = symbol
  · simp [same]
  · rw [if_neg same, if_neg (lastSeqScope_injective.ne same)]

theorem inRange_advanceSeq (inv : s.Inv) {t : Tick} {seq : Int} {lastSeq : Option Int} (page : Page)
    (seen : s.monitor.currentSeq t.symbol = lastSeq) (above : raises lastSeq seq = true)
    {symbol : String} {i : Int} (inRange : (s.advanceSeq t seq lastSeq page).InRange symbol i) :
    s.InRange symbol i ∨ symbol = t.symbol ∧ (i = seq ∨
      ∃ last, lastSeq = some last ∧ last < i ∧ i < seq) := by
  obtain ⟨first, sighted, lower, upper⟩ := inRange
  unfold advanceSeq at sighted upper
  rw [if_pos above] at sighted upper
  unfold lastSaved journal at upper
  rw [lastSaved_setLastSeq] at upper
  by_cases own : symbol = t.symbol
  · subst own
    rw [if_pos rfl] at upper
    cases before : lastSeq with
    | none =>
        simp only [before, and_self, if_true, Option.some.injEq] at sighted
        exact .inr ⟨rfl, .inl (by omega)⟩
    | some last =>
        simp only [before, reduceCtorEq, and_false, if_false] at sighted
        have saved := inv.current t.symbol last (seen.trans before)
        by_cases old : i ≤ last
        · exact .inl ⟨first, sighted, lower, saved ▸ old⟩
        · rcases lt_or_eq_of_le upper with less | same
          · exact .inr ⟨rfl, .inr ⟨last, rfl, by omega, less⟩⟩
          · exact .inr ⟨rfl, .inl same⟩
  · rw [if_neg own] at upper
    simp only [own, false_and, if_false] at sighted
    exact .inl ⟨first, sighted, lower, upper⟩

theorem inv_advanceSeq (inv : s.Inv) {t : Tick} {seq : Int} {lastSeq : Option Int} {page : Page}
    (at_ : s.pc = .advance t seq lastSeq page) : (s.advanceSeq t seq lastSeq page).Inv := by
  have ok := inv.pcOk
  unfold PcOk at ok
  rw [at_] at ok
  obtain ⟨stored, here, seen, bridged⟩ := ok
  by_cases above : raises lastSeq seq = true
  · have ranges := fun symbol i => @inRange_advanceSeq _ inv _ _ _ page seen above symbol i
    have result : s.advanceSeq t seq lastSeq page = _ := if_pos above
    constructor
    next =>
      intro symbol v current
      rw [result] at current ⊢
      change (s.monitor.setLastSeq t.symbol seq).journal.getWatermark (lastSeqScope symbol) = v
      simp only [GapMonitor.currentSeq_setLastSeq] at current
      rw [lastSaved_setLastSeq]
      split at current
      next same => rw [if_pos same]; exact Option.some.inj current
      next other => rw [if_neg other]; exact inv.current symbol v current
    next =>
      intro symbol i inRange
      have old := ranges symbol i inRange
      rw [result]
      rcases old with before | ⟨rfl, rfl | ⟨last, before, lower, upper⟩⟩
      · exact inv.known symbol i before
      · exact .inl here
      · exact .inr (inv.logged _ i (bridged last before i lower upper))
    next =>
      intro symbol i inRange
      have old := ranges symbol i inRange
      rw [result]
      rcases old with before | ⟨rfl, rfl | ⟨last, before, lower, upper⟩⟩
      · exact inv.recent symbol i before
      · exact fun _ => .inl here
      · exact fun _ => .inr (bridged last before i lower upper)
    next => rw [result]; exact inv.logged
    next => rw [result]; exact inv.live
    next => rw [result]; exact stored
  · have result : s.advanceSeq t seq lastSeq page = _ := if_neg above
    rw [result]
    exact inv_pc inv stored

theorem inv_saveCursor (inv : s.Inv) (lastBid : Int) : (s.saveCursor lastBid).Inv := by
  have current (symbol : String) :
      (s.saveCursor lastBid).monitor.currentSeq symbol = s.monitor.currentSeq symbol := by
    rw [GapMonitor.currentSeq_eq, GapMonitor.currentSeq_eq]
    exact congrArg (Option.getD _) (GapMonitor.persistedSeq_setCursor s.journal lastBid symbol)
  refine inv.frame rfl rfl ?_ current (fun _ _ => id) (fun _ _ => id) (fun _ _ => id) inv.logged
    inv.live trivial
  funext symbol
  unfold lastSaved journal saveCursor
  rw [DuckDbJournal.getWatermark_setWatermark, if_neg (lastSeqScope_ne_batchScope symbol)]
  rfl

theorem inv_monitorStep (inv : s.Inv) (order : RowOrder) (now : Int) :
    (s.monitorStep order now).Inv := by
  have ok := inv.pcOk
  unfold PcOk at ok
  unfold monitorStep
  cases at_ : s.pc with
  | fetch =>
      simp only
      cases fetched : s.journal.nextCommittedFrom order s.monitor.nextBatch 256 with
      | nil => exact inv
      | cons env envs => exact inv_fetch inv fetched
  | scan page =>
      rw [at_] at ok
      obtain ⟨rows, envs⟩ := ok
      simp only
      cases left : page.rows with
      | cons t rest =>
          rw [left] at rows
          have row : RowsStored s.journal.hot [t] := by
            intro other member
            exact rows other (by rw [List.mem_singleton.mp member]; exact List.mem_cons_self)
          exact inv_scanRow inv row
            { rows := fun other member => rows other (List.mem_cons_of_mem _ member), envs }
      | nil =>
          cases more : page.envs with
          | nil => exact inv_saveCursor inv page.lastBid
          | cons env later =>
              rw [more] at envs
              exact inv_pc inv
                { rows := envs env List.mem_cons_self
                  envs := fun other member => envs other (List.mem_cons_of_mem _ member) }
  | addGap t seq lastSeq gap cur page =>
      rw [at_] at ok
      obtain ⟨stored, here, seen, own, ends, bridged⟩ := ok
      simp only
      split
      next => exact inv_enqueueSlice inv now at_
      next finished =>
        refine inv_pc inv ⟨stored, here, seen, ?_⟩
        exact fun last before i above below => bridged last before i above (by omega)
  | advance t seq lastSeq page => exact inv_advanceSeq inv at_

theorem inv_step (inv : s.Inv) {a : GapAction} (taken : s.step a = some s') : s'.Inv := by
  cases a with
  | append call =>
      cases taken
      exact inv_append inv call
  | monitor order now =>
      cases taken
      exact inv_monitorStep inv order now
  | claimTask provider =>
      obtain ⟨claimed, claim, rfl⟩ := Option.map_eq_some_iff.mp taken
      exact inv_claim inv claim
  | markDone taskId =>
      cases taken
      exact inv_planner inv (covered_update _ taskId .done 0 none)
        (live_update inv taskId .done 0 none _ (List.subset_cons_self _ _)
          (.inr (.inr List.mem_cons_self)))
  | markFailed taskId error =>
      cases taken
      exact inv_planner inv (covered_update _ taskId .failed 0 (some error))
        (live_update inv taskId .failed 0 (some error) _ (List.subset_cons_self _ _)
          (.inr (.inr List.mem_cons_self)))
  | restart =>
      cases taken
      exact inv_restart inv

def Remembered (s : GapState) : Prop :=
  ∀ symbol i, s.InRange symbol i → ¬ Present s.journal.hot symbol i →
    (∃ t ∈ s.planner.tasks, (t.status = .pending ∨ t.status = .running) ∧ t.Covers symbol i) ∨
      ∃ orders, ∃ g ∈ ((GapMonitor.start s.journal).pollAll orders).gapsOf symbol,
        SeqScan.Inside g i

/-- A missing number was in a task that some planner enqueued; a number saved since the process
started is in a task of its planner, which is unfinished unless the producer marked it. -/
def Enqueued (s : GapState) : Prop :=
  ∀ symbol i, s.InRange symbol i → ¬ Present s.journal.hot symbol i →
    Covered s.enqueued symbol i ∧
      (s.startSeq symbol < i → ∃ t ∈ s.planner.tasks, t.Covers symbol i ∧
        (t.status = .pending ∨ t.status = .running ∨ t.taskId ∈ s.marked))

theorem missing_enqueued {maxIdsPerTask : Int}
    (reached : Transition.Reaches step Transition.anyStep (new maxIdsPerTask) s) : s.Enqueued := by
  have inv : s.Inv := reached.invariant Inv (new_inv maxIdsPerTask)
    fun _ _ _ before _ taken => inv_step before taken
  intro symbol i inRange absent
  refine ⟨(inv.known symbol i inRange).resolve_left absent, ?_⟩
  intro after
  obtain ⟨t, member, covers⟩ := (inv.recent symbol i inRange after).resolve_left absent
  exact ⟨t, member, covers, inv.live t member⟩

theorem pollAll_nothing {journal : DuckDbJournal}
    (nothing : journal.batchIds (journal.getWatermark batchScope + 1) = [])
    (orders : List RowOrder) :
    (GapMonitor.start journal).pollAll orders = GapMonitor.start journal := by
  induction orders with
  | nil => rfl
  | cons order rest ih =>
      have idle : (GapMonitor.start journal).pollJournal order = GapMonitor.start journal := by
        have empty : journal.nextCommittedFrom order (GapMonitor.start journal).nextBatch 256 = [] := by
          unfold DuckDbJournal.nextCommittedFrom
          rw [show (GapMonitor.start journal).nextBatch = journal.getWatermark batchScope + 1 from rfl,
            nothing]
          rfl
        unfold GapMonitor.pollJournal
        rw [show (GapMonitor.start journal).journal = journal from rfl, empty]
        rfl
      unfold GapMonitor.pollAll at ih ⊢
      rw [List.foldl_cons, idle]
      exact ih

def gapThenRestart : List GapAction :=
  .append
      { rowNumber := .argmax, now := 0
        env :=
          { batchId := 1, producedAtNs := 0, firstOffset := none, lastOffset := none
            rows := [tradeAt 1 10, tradeAt 5 20] } } ::
    List.replicate 8 (.monitor .byTime 0) ++ [.restart]

def forgotten (s : GapState) : Bool :=
  decide (s.firstSeen "BTCUSDT" = some 1) && decide (s.lastSaved "BTCUSDT" = 5) &&
    s.planner.tasks.isEmpty &&
    (s.journal.batchIds (s.journal.getWatermark batchScope + 1)).isEmpty &&
    s.journal.hot.all fun r => decide (rowSeq "BTCUSDT" r ≠ some 3)

theorem gapThenRestart_reaches : ∃ s,
    Transition.Reaches step Transition.anyStep (new 5000) s ∧ s.InRange "BTCUSDT" 3 ∧
      ¬ Present s.journal.hot "BTCUSDT" 3 ∧ s.planner.tasks = [] ∧
        s.journal.batchIds (s.journal.getWatermark batchScope + 1) = [] := by
  obtain ⟨s, reached, check⟩ :=
    Transition.reaches_of_check step (new 5000) gapThenRestart forgotten (by decide)
  simp only [forgotten, Bool.and_eq_true, decide_eq_true_eq, List.isEmpty_iff, List.all_eq_true]
    at check
  obtain ⟨⟨⟨⟨first, saved⟩, tasks⟩, scanned⟩, absent⟩ := check
  refine ⟨s, reached, ⟨1, first, by decide, by omega⟩, ?_, tasks, scanned⟩
  rintro ⟨r, stored, number⟩
  exact absent r stored number

theorem restart_forgets : ∃ s,
    Transition.Reaches step Transition.anyStep (new 5000) s ∧ ¬ s.Remembered := by
  obtain ⟨s, reached, inRange, absent, tasks, scanned⟩ := gapThenRestart_reaches
  refine ⟨s, reached, ?_⟩
  intro remembered
  rcases remembered "BTCUSDT" 3 inRange absent with ⟨t, member, _⟩ | ⟨orders, g, reported, _⟩
  · rw [tasks] at member
    cases member
  · rw [pollAll_nothing scanned] at reported
    cases reported

theorem missing_enqueued_restarted : ∃ s,
    Transition.Reaches step Transition.anyStep (new 5000) s ∧ s.InRange "BTCUSDT" 3 ∧
      ¬ Present s.journal.hot "BTCUSDT" 3 ∧ s.Enqueued := by
  obtain ⟨s, reached, inRange, absent, _⟩ := gapThenRestart_reaches
  exact ⟨s, reached, inRange, absent, missing_enqueued reached⟩

end GapState

end DeepFeeder
