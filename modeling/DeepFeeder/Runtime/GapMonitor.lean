import DeepFeeder.Runtime.Planner
import DeepFeeder.Shared.SeqScan
import DeepFeeder.Storage.Committed

set_option autoImplicit false

namespace DeepFeeder

def batchScope : String := "gapmon:binance:batch"

def lastSeqScope (symbol : String) : String := "gapmon:binance:last_seq:" ++ symbol

def bootstrapLookbackIds : Int := 0

def tradeSeq (t : Tick) : Option Int :=
  if t.provider = "binance" ∧ t.stream = "trades" then t.seq else none

def gapOf (t : Tick) (startId endId : Int) : Gap :=
  { provider := "binance", symbol := t.symbol, startId, endId, discoveredAtNs := t.tsNs }

def gapBefore (lastSeq : Option Int) (t : Tick) (seq : Int) : Option Gap :=
  match lastSeq with
  | none =>
      if 0 < bootstrapLookbackIds ∧ bootstrapLookbackIds < seq then
        some (gapOf t (seq - bootstrapLookbackIds) (seq - 1))
      else none
  | some last =>
      if last + 1 < seq then
        if last + 1 ≤ seq - 1 then some (gapOf t (last + 1) (seq - 1)) else none
      else none

def raises (lastSeq : Option Int) (seq : Int) : Bool :=
  match lastSeq with
  | none => true
  | some last => last < seq

structure Report where
  gap : Gap
  scanned : List Envelope

/-- The monitor and the journal it saves to. The last three fields log the calls of `add_gap` and of
`_set_last_seq` and the envelopes scanned. -/
structure GapMonitor where
  journal : DuckDbJournal
  lastSeq : String → Option (Option Int)
  nextBatch : Int
  reports : List Report
  raised : List (String × Int)
  scanned : List Envelope

def persistedSeq (journal : DuckDbJournal) (symbol : String) : Option Int :=
  let value := journal.getWatermark (lastSeqScope symbol)
  if 0 < value then some value else none

namespace GapMonitor

def start (journal : DuckDbJournal) : GapMonitor :=
  { journal, lastSeq := fun _ => none, nextBatch := journal.getWatermark batchScope + 1
    reports := [], raised := [], scanned := [] }

def getLastSeq (m : GapMonitor) (symbol : String) : Option Int × GapMonitor :=
  match m.lastSeq symbol with
  | some cached => (cached, m)
  | none =>
      let value := persistedSeq m.journal symbol
      (value, { m with
        lastSeq := fun other => if other = symbol then some value else m.lastSeq other })

def setLastSeq (m : GapMonitor) (symbol : String) (seq : Int) : GapMonitor :=
  { m with
    lastSeq := fun other => if other = symbol then some (some seq) else m.lastSeq other
    journal := m.journal.setWatermark seq (lastSeqScope symbol)
    raised := m.raised ++ [(symbol, seq)] }

def addGap (m : GapMonitor) (gap : Option Gap) : GapMonitor :=
  match gap with
  | some gap => { m with reports := m.reports ++ [⟨gap, m.scanned⟩] }
  | none => m

def processTick (m : GapMonitor) (t : Tick) : GapMonitor :=
  match tradeSeq t with
  | none => m
  | some seq =>
      let (lastSeq, m) := m.getLastSeq t.symbol
      let m := m.addGap (gapBefore lastSeq t seq)
      if raises lastSeq seq then m.setLastSeq t.symbol seq else m

def processEnvelope (m : GapMonitor) (env : Envelope) : GapMonitor :=
  env.rows.foldl processTick { m with scanned := m.scanned ++ [env] }

def processPoll (m : GapMonitor) (envs : List Envelope) : GapMonitor :=
  match envs.getLast? with
  | none => m
  | some last =>
      let m := envs.foldl processEnvelope m
      { m with
        nextBatch := last.batchId + 1
        journal := m.journal.setWatermark last.batchId batchScope }

def processPolls (m : GapMonitor) (polls : List (List Envelope)) : GapMonitor :=
  polls.foldl processPoll m

/-- One turn of the loop of `_run`, when the journal answers the query in the given order. -/
def pollJournal (m : GapMonitor) (order : RowOrder) : GapMonitor :=
  m.processPoll (m.journal.nextCommittedFrom order m.nextBatch 256)

def pollAll (m : GapMonitor) (orders : List RowOrder) : GapMonitor := orders.foldl pollJournal m

def currentSeq (m : GapMonitor) (symbol : String) : Option Int := (m.getLastSeq symbol).1

def gapsOf (m : GapMonitor) (symbol : String) : List (Int × Int) :=
  (m.reports.filter fun r => decide (r.gap.symbol = symbol)).map fun r => (r.gap.startId, r.gap.endId)

def raisedOf (m : GapMonitor) (symbol : String) : List Int :=
  (m.raised.filter fun r => decide (r.1 = symbol)).map Prod.snd

def view (m : GapMonitor) (symbol : String) : SeqScan.Scan :=
  { last := m.currentSeq symbol, gaps := m.gapsOf symbol, raised := m.raisedOf symbol }

end GapMonitor

def seqsOf (symbol : String) (rows : List Tick) : List Int :=
  rows.filterMap fun t => if t.symbol = symbol then tradeSeq t else none

def rowSeq (symbol : String) (r : HotRow) : Option Int :=
  if r.symbol = symbol then tradeSeq r.toTick else none

theorem seqsOf_toTick (symbol : String) (rows : List HotRow) :
    seqsOf symbol (rows.map HotRow.toTick) = rows.filterMap (rowSeq symbol) := by
  unfold seqsOf
  rw [List.filterMap_map]
  rfl

theorem mem_seqsOf {symbol : String} {rows : List Tick} {v : Int} :
    v ∈ seqsOf symbol rows ↔ ∃ t ∈ rows, t.symbol = symbol ∧ tradeSeq t = some v := by
  simp [seqsOf]

theorem mem_readBatch {journal : DuckDbJournal} {startInclusive id : Int} (order : RowOrder)
    {env : Envelope}
    (member : id ∈ journal.batchIds startInclusive)
    (read : journal.readBatch order id = some env) (symbol : String) :
    env.batchId = id ∧
      seqsOf symbol env.rows = (order.sort (journal.batchRows id)).filterMap (rowSeq symbol) ∧
      ∀ v, v ∈ seqsOf symbol env.rows ↔
        ∃ r ∈ journal.hot, r.batchId = id ∧ rowSeq symbol r = some v := by
  obtain ⟨other, same, batchId, rows⟩ := DuckDbJournal.readBatch_of_mem order member
  obtain rfl : other = env := Option.some.inj (same.symm.trans read)
  refine ⟨batchId, by rw [rows, seqsOf_toTick], ?_⟩
  intro v
  rw [rows, seqsOf_toTick, List.mem_filterMap]
  simp only [(order.perm _).mem_iff, DuckDbJournal.batchRows, List.mem_filter, decide_eq_true_eq,
    and_assoc]

theorem lastSeqScope_injective : Function.Injective lastSeqScope := by
  intro first second same
  unfold lastSeqScope at same
  exact (String.append_right_inj "gapmon:binance:last_seq:").mp same

theorem lastSeqScope_ne_batchScope (symbol : String) : lastSeqScope symbol ≠ batchScope := by
  intro same
  have letters := congrArg (fun s : String => s.toList[15]?) same
  unfold lastSeqScope batchScope at letters
  simp only [String.toList_append] at letters
  rw [List.getElem?_append_left (by decide)] at letters
  revert letters
  decide

theorem gapBefore_none (t : Tick) (seq : Int) : gapBefore none t seq = none := by
  simp [gapBefore, bootstrapLookbackIds]

theorem gapBefore_some (last : Int) (t : Tick) (seq : Int) :
    gapBefore (some last) t seq =
      if last + 1 < seq then some (gapOf t (last + 1) (seq - 1)) else none := by
  by_cases wide : last + 1 < seq
  · have some : last + 1 ≤ seq - 1 := by omega
    simp [gapBefore, wide, some]
  · simp [gapBefore, wide]

def tradeAt (seq tsNs : Int) : Tick :=
  { provider := "binance", stream := "trades", symbol := "BTCUSDT", tsNs, seq := some seq
    payload := [] }

namespace GapMonitor

variable {m : GapMonitor} {symbol : String}

theorem currentSeq_eq (m : GapMonitor) (symbol : String) :
    m.currentSeq symbol = (m.lastSeq symbol).getD (persistedSeq m.journal symbol) := by
  unfold currentSeq getLastSeq
  cases m.lastSeq symbol with
  | some cached => rfl
  | none => rfl

theorem view_congr (m m' : GapMonitor) (cached : m'.lastSeq = m.lastSeq)
    (persisted : ∀ symbol, persistedSeq m'.journal symbol = persistedSeq m.journal symbol)
    (reports : m'.reports = m.reports) (raised : m'.raised = m.raised) (symbol : String) :
    m'.view symbol = m.view symbol := by
  unfold view gapsOf raisedOf
  rw [currentSeq_eq, currentSeq_eq, cached, persisted, reports, raised]

theorem persistedSeq_setCursor (journal : DuckDbJournal) (batchId : Int) (symbol : String) :
    persistedSeq (journal.setWatermark batchId batchScope) symbol = persistedSeq journal symbol := by
  unfold persistedSeq
  rw [DuckDbJournal.getWatermark_setWatermark, if_neg (lastSeqScope_ne_batchScope symbol)]

theorem currentSeq_getLastSeq (m : GapMonitor) (symbol other : String) :
    (m.getLastSeq symbol).2.currentSeq other = m.currentSeq other := by
  rw [currentSeq_eq, currentSeq_eq]
  unfold getLastSeq
  cases cached : m.lastSeq symbol with
  | some value => rfl
  | none =>
      by_cases same : other = symbol
      · subst same
        simp [cached]
      · simp [same]

theorem currentSeq_setLastSeq (m : GapMonitor) (symbol : String) (seq : Int) (other : String) :
    (m.setLastSeq symbol seq).currentSeq other =
      if other = symbol then some seq else m.currentSeq other := by
  rw [currentSeq_eq, currentSeq_eq]
  unfold setLastSeq persistedSeq
  by_cases same : other = symbol
  · simp [same]
  · have scopes : lastSeqScope other ≠ lastSeqScope symbol := lastSeqScope_injective.ne same
    simp [same, DuckDbJournal.getWatermark_setWatermark, scopes]

theorem view_start (journal : DuckDbJournal) (symbol : String) :
    (start journal).view symbol = SeqScan.start (persistedSeq journal symbol) := by
  unfold view SeqScan.start
  rw [currentSeq_eq]
  rfl

theorem view_getLastSeq (m : GapMonitor) (symbol other : String) :
    (m.getLastSeq symbol).2.view other = m.view other := by
  have logs : (m.getLastSeq symbol).2.reports = m.reports ∧
      (m.getLastSeq symbol).2.raised = m.raised := by
    unfold getLastSeq
    split
    · exact ⟨rfl, rfl⟩
    · exact ⟨rfl, rfl⟩
  unfold view gapsOf raisedOf
  rw [currentSeq_getLastSeq, logs.1, logs.2]

theorem view_addGap_setLastSeq (m : GapMonitor) (gap : Option Gap) (symbol : String)
    (own : ∀ g ∈ gap, g.symbol = symbol) (seq : Int) (other : String) :
    ((m.addGap gap).setLastSeq symbol seq).view other =
      if other = symbol then
        { last := some seq
          gaps := m.gapsOf symbol ++ (gap.map fun g => (g.startId, g.endId)).toList
          raised := m.raisedOf symbol ++ [seq] }
      else m.view other := by
  have reports : (m.addGap gap).reports =
      m.reports ++ (gap.map fun g => Report.mk g m.scanned).toList := by
    cases gap with
    | none => simp [addGap]
    | some g => simp [addGap]
  have raised : (m.addGap gap).raised = m.raised := by
    cases gap with
    | none => rfl
    | some g => rfl
  have current : (m.addGap gap).currentSeq other = m.currentSeq other := by
    rw [currentSeq_eq, currentSeq_eq]
    cases gap with
    | none => rfl
    | some g => rfl
  unfold view
  rw [currentSeq_setLastSeq, current]
  unfold gapsOf raisedOf setLastSeq
  simp only [reports, raised, List.filter_append, List.map_append]
  by_cases same : other = symbol
  · subst same
    cases gap with
    | none => simp
    | some g => simp [own g rfl]
  · cases gap with
    | none => simp [same, Ne.symm same]
    | some g => simp [same, Ne.symm same, own g rfl]

theorem view_processTick (m : GapMonitor) (t : Tick) (symbol : String) :
    (m.processTick t).view symbol = SeqScan.scan (m.view symbol) (seqsOf symbol [t]) := by
  unfold processTick
  cases scanned : tradeSeq t with
  | none => simp [seqsOf, scanned, SeqScan.scan_nil]
  | some seq =>
      have rows : seqsOf symbol [t] = if symbol = t.symbol then [seq] else [] := by
        by_cases same : symbol = t.symbol
        · simp [seqsOf, same, scanned]
        · simp [seqsOf, same, Ne.symm same]
      have logs : (m.getLastSeq t.symbol).2.gapsOf t.symbol = m.gapsOf t.symbol ∧
          (m.getLastSeq t.symbol).2.raisedOf t.symbol = m.raisedOf t.symbol :=
        ⟨congrArg SeqScan.Scan.gaps (view_getLastSeq m t.symbol t.symbol),
          congrArg SeqScan.Scan.raised (view_getLastSeq m t.symbol t.symbol)⟩
      simp only
      cases seen : (m.getLastSeq t.symbol).1 with
      | none =>
          have unseen : (m.view t.symbol).last = none := seen
          rw [gapBefore_none, if_pos (show raises none seq = true from rfl),
            view_addGap_setLastSeq _ _ _ (by simp), rows, logs.1, logs.2, view_getLastSeq]
          by_cases same : symbol = t.symbol
          · subst same
            rw [if_pos rfl, if_pos rfl, SeqScan.scan_cons, SeqScan.scan_nil, SeqScan.see_first unseen]
            simp [view]
          · simp [same, SeqScan.scan_nil]
      | some last =>
          have current : (m.view t.symbol).last = some last := seen
          by_cases above : last < seq
          · rw [if_pos (by simpa [raises] using above), view_addGap_setLastSeq, rows, logs.1,
              logs.2, view_getLastSeq]
            · by_cases same : symbol = t.symbol
              · subst same
                rw [if_pos rfl, if_pos rfl, SeqScan.scan_cons, SeqScan.scan_nil,
                  SeqScan.see_raise current above, gapBefore_some]
                unfold SeqScan.gapTo
                split
                · rfl
                · rfl
              · simp [same, SeqScan.scan_nil]
            · rw [gapBefore_some]
              split
              · simp [gapOf]
              · simp
          · have narrow : ¬ last + 1 < seq := by omega
            rw [if_neg (by simpa [raises] using above), gapBefore_some, if_neg narrow, rows]
            change (m.getLastSeq t.symbol).2.view symbol = _
            rw [view_getLastSeq]
            by_cases same : symbol = t.symbol
            · subst same
              simp [SeqScan.scan_cons, SeqScan.scan_nil, SeqScan.see_late current (not_lt.mp above)]
            · simp [same, SeqScan.scan_nil]

theorem seqsOf_append (symbol : String) (first second : List Tick) :
    seqsOf symbol (first ++ second) = seqsOf symbol first ++ seqsOf symbol second := by
  simp [seqsOf]

theorem view_rows (m : GapMonitor) (rows : List Tick) (symbol : String) :
    (rows.foldl processTick m).view symbol = SeqScan.scan (m.view symbol) (seqsOf symbol rows) := by
  induction rows generalizing m with
  | nil => rfl
  | cons t rest ih =>
      have split : seqsOf symbol (t :: rest) = seqsOf symbol [t] ++ seqsOf symbol rest :=
        seqsOf_append symbol [t] rest
      rw [List.foldl_cons, ih, view_processTick, split, SeqScan.scan_append]

theorem view_processEnvelope (m : GapMonitor) (env : Envelope) (symbol : String) :
    (m.processEnvelope env).view symbol =
      SeqScan.scan (m.view symbol) (seqsOf symbol env.rows) := by
  unfold processEnvelope
  rw [view_rows, view_congr m { m with scanned := m.scanned ++ [env] } rfl (fun _ => rfl) rfl rfl]

theorem view_envelopes (m : GapMonitor) (envs : List Envelope) (symbol : String) :
    (envs.foldl processEnvelope m).view symbol =
      SeqScan.scan (m.view symbol) (seqsOf symbol (envs.flatMap Envelope.rows)) := by
  induction envs generalizing m with
  | nil => rfl
  | cons env rest ih =>
      rw [List.foldl_cons, ih, view_processEnvelope, List.flatMap_cons, seqsOf_append,
        SeqScan.scan_append]

theorem view_processPoll (m : GapMonitor) (envs : List Envelope) (symbol : String) :
    (m.processPoll envs).view symbol =
      SeqScan.scan (m.view symbol) (seqsOf symbol (envs.flatMap Envelope.rows)) := by
  unfold processPoll
  cases ends : envs.getLast? with
  | none =>
      rw [List.getLast?_eq_none_iff.mp ends]
      rfl
  | some last =>
      rw [← view_envelopes]
      apply view_congr (envs.foldl processEnvelope m)
      · rfl
      · exact persistedSeq_setCursor _ last.batchId
      · rfl
      · rfl

theorem view_processPolls (m : GapMonitor) (polls : List (List Envelope)) (symbol : String) :
    (m.processPolls polls).view symbol =
      SeqScan.scan (m.view symbol) (seqsOf symbol (polls.flatten.flatMap Envelope.rows)) := by
  unfold processPolls
  induction polls generalizing m with
  | nil => rfl
  | cons envs rest ih =>
      rw [List.foldl_cons, ih, view_processPoll, List.flatten_cons, List.flatMap_append,
        seqsOf_append, SeqScan.scan_append]

end GapMonitor

end DeepFeeder
