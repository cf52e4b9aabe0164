import DeepFeeder.Runtime.GapMonitor
import DeepFeeder.Shared.TimedScan
import DeepFeeder.Storage.Canonical

set_option autoImplicit false

namespace DeepFeeder

namespace GapMonitor

def NoFalseGaps (m : GapMonitor) : Prop :=
  ∀ report ∈ m.reports, ∀ env ∈ report.scanned, ∀ t ∈ env.rows, t.symbol = report.gap.symbol →
    ∀ seq, tradeSeq t = some seq → ¬ (report.gap.startId ≤ seq ∧ seq ≤ report.gap.endId)

structure Frame (m m' : GapMonitor) : Prop where
  hot : m'.journal.hot = m.journal.hot
  scanned : m'.scanned = m.scanned
  nextBatch : m'.nextBatch = m.nextBatch
  reports : ∃ new, m'.reports = m.reports ++ new ∧ ∀ r ∈ new, r.scanned = m.scanned

theorem Frame.refl (m : GapMonitor) : Frame m m where
  hot := rfl
  scanned := rfl
  nextBatch := rfl
  reports := ⟨[], by simp⟩

theorem Frame.trans {m m' m'' : GapMonitor} (first : Frame m m') (second : Frame m' m'') :
    Frame m m'' where
  hot := second.hot.trans first.hot
  scanned := second.scanned.trans first.scanned
  nextBatch := second.nextBatch.trans first.nextBatch
  reports := by
    obtain ⟨early, earlyReports, earlyScanned⟩ := first.reports
    obtain ⟨late, lateReports, lateScanned⟩ := second.reports
    refine ⟨early ++ late, by rw [lateReports, earlyReports, List.append_assoc], ?_⟩
    intro r member
    rcases List.mem_append.mp member with old | new
    · exact earlyScanned r old
    · exact (lateScanned r new).trans first.scanned

theorem getLastSeq_frame (m : GapMonitor) (symbol : String) : Frame m (m.getLastSeq symbol).2 := by
  unfold getLastSeq
  cases m.lastSeq symbol with
  | some cached => exact .refl m
  | none => exact ⟨rfl, rfl, rfl, [], by simp⟩

theorem addGap_frame (m : GapMonitor) (gap : Option Gap) : Frame m (m.addGap gap) := by
  cases gap with
  | none => exact .refl m
  | some gap => exact ⟨rfl, rfl, rfl, [⟨gap, m.scanned⟩], rfl, by simp⟩

theorem setLastSeq_frame (m : GapMonitor) (symbol : String) (seq : Int) :
    Frame m (m.setLastSeq symbol seq) := ⟨rfl, rfl, rfl, [], by simp [setLastSeq]⟩

theorem processTick_frame (m : GapMonitor) (t : Tick) : Frame m (m.processTick t) := by
  unfold processTick
  cases tradeSeq t with
  | none => exact .refl m
  | some seq =>
      have passed := (m.getLastSeq_frame t.symbol).trans
        (addGap_frame _ (gapBefore (m.getLastSeq t.symbol).1 t seq))
      simp only
      split
      · exact passed.trans (setLastSeq_frame _ t.symbol seq)
      · exact passed

theorem rows_frame (m : GapMonitor) (rows : List Tick) : Frame m (rows.foldl processTick m) := by
  induction rows generalizing m with
  | nil => exact .refl m
  | cons t rest ih => exact (m.processTick_frame t).trans (ih _)

theorem processEnvelope_reports (m : GapMonitor) (env : Envelope) :
    ∃ new, (m.processEnvelope env).reports = m.reports ++ new ∧
      (∀ r ∈ new, r.scanned = m.scanned ++ [env]) ∧
      ∀ symbol, ((new.filter fun r => decide (r.gap.symbol = symbol)).map
          fun r => (r.gap.startId, r.gap.endId)) =
        SeqScan.opened (m.view symbol) (seqsOf symbol env.rows) := by
  obtain ⟨new, reports, scanned⟩ :=
    (rows_frame { m with scanned := m.scanned ++ [env] } env.rows).reports
  refine ⟨new, reports, scanned, ?_⟩
  intro symbol
  have gaps := congrArg SeqScan.Scan.gaps (view_processEnvelope m env symbol)
  rw [(SeqScan.scan_opened _ _).2.2] at gaps
  change (m.processEnvelope env).gapsOf symbol = m.gapsOf symbol ++ _ at gaps
  unfold gapsOf at gaps
  rw [show (m.processEnvelope env).reports = m.reports ++ new from reports, List.filter_append,
    List.map_append] at gaps
  exact List.append_cancel_left gaps

structure Progress (journal : DuckDbJournal) (done : List Int) (m : GapMonitor) : Prop where
  hot : m.journal.hot = journal.hot
  saw : ∀ symbol, SeqScan.SawAll (m.view symbol) fun v =>
    persistedSeq journal symbol = some v ∨
      ∃ r ∈ journal.hot, r.batchId ∈ done ∧ rowSeq symbol r = some v
  within : ∀ env ∈ m.scanned, ∀ symbol, ∀ v ∈ seqsOf symbol env.rows,
    ∃ r ∈ journal.hot, r.batchId ∈ done ∧ rowSeq symbol r = some v

variable {journal : DuckDbJournal} {done : List Int} {m : GapMonitor}

theorem noFalseGaps_processEnvelope (progress : Progress journal done m) (env : Envelope) :
    (m.processEnvelope env).NoFalseGaps ↔ m.NoFalseGaps ∧
      ∀ symbol, SeqScan.Clean (fun v => persistedSeq journal symbol = some v ∨
        ∃ r ∈ journal.hot, r.batchId ∈ done ∧ rowSeq symbol r = some v)
          (seqsOf symbol env.rows) := by
  obtain ⟨new, reports, scanned, opened⟩ := m.processEnvelope_reports env
  have opens (symbol : String) (g : Int × Int) :
      g ∈ SeqScan.opened (m.view symbol) (seqsOf symbol env.rows) ↔
        ∃ r ∈ new, r.gap.symbol = symbol ∧ (r.gap.startId, r.gap.endId) = g := by
    rw [← opened]
    simp [and_assoc]
  unfold NoFalseGaps
  rw [reports]
  simp only [SeqScan.clean_iff (progress.saw _)]
  constructor
  · intro clean
    refine ⟨fun report old => clean report (List.mem_append_left _ old), ?_⟩
    intro symbol v member g opening held
    obtain ⟨r, inNew, own, rfl⟩ := (opens symbol g).mp opening
    obtain ⟨t, inRows, same, number⟩ := mem_seqsOf.mp member
    refine clean r (List.mem_append_right _ inNew) env ?_ t inRows (same.trans own.symm) v number held
    rw [scanned r inNew]
    simp
  · rintro ⟨clean, separate⟩ report member e inScanned t inRows same v number held
    rcases List.mem_append.mp member with old | inNew
    · exact clean report old e inScanned t inRows same v number held
    · have opening := (opens report.gap.symbol _).mpr ⟨report, inNew, rfl, rfl⟩
      have scannedSeq : v ∈ seqsOf report.gap.symbol e.rows := mem_seqsOf.mpr ⟨t, inRows, same, number⟩
      rw [scanned report inNew, List.mem_append, List.mem_singleton] at inScanned
      rcases inScanned with early | rfl
      · have seen := progress.within e early _ v scannedSeq
        exact SeqScan.not_inside_of_seen (progress.saw _) (.inr seen) opening held
      · exact separate _ v scannedSeq _ opening held

theorem Progress.processEnvelope (progress : Progress journal done m) {startInclusive id : Int}
    (order : RowOrder) {env : Envelope} (member : id ∈ journal.batchIds startInclusive)
    (read : journal.readBatch order id = some env) :
    Progress journal (done ++ [id]) (m.processEnvelope env) := by
  have frame := rows_frame { m with scanned := m.scanned ++ [env] } env.rows
  constructor
  next => exact frame.hot.trans progress.hot
  next =>
    intro symbol
    rw [view_processEnvelope]
    refine ((progress.saw symbol).scan _).congr ?_
    intro v
    rw [(mem_readBatch order member read symbol).2.2 v]
    simp only [List.mem_append, List.mem_singleton, or_and_right, and_or_left, exists_or, or_assoc]
  next =>
    intro e inScanned symbol v number
    rw [show (m.processEnvelope env).scanned = m.scanned ++ [env] from frame.scanned,
      List.mem_append, List.mem_singleton] at inScanned
    rcases inScanned with early | rfl
    · obtain ⟨r, stored, inDone, same⟩ := progress.within e early symbol v number
      exact ⟨r, stored, List.mem_append_left _ inDone, same⟩
    · obtain ⟨r, stored, here, same⟩ := ((mem_readBatch order member read symbol).2.2 v).mp number
      exact ⟨r, stored, by simp [here], same⟩

def seenBefore (journal : DuckDbJournal) (symbol : String) (batchId : Int) (v : Int) : Prop :=
  persistedSeq journal symbol = some v ∨
    ∃ r ∈ journal.hot, journal.getWatermark batchScope < r.batchId ∧ r.batchId < batchId ∧
      rowSeq symbol r = some v

def BatchClean (journal : DuckDbJournal) (order : RowOrder) (batchId : Int) : Prop :=
  ∀ symbol, SeqScan.Clean (seenBefore journal symbol batchId)
    ((order.sort (journal.batchRows batchId)).filterMap (rowSeq symbol))

def unscanned (journal : DuckDbJournal) : List Int :=
  journal.batchIds (journal.getWatermark batchScope + 1)

theorem seenBefore_iff {id : Int} {rest : List Int} (split : unscanned journal = done ++ id :: rest)
    (symbol : String) (v : Int) :
    seenBefore journal symbol id v ↔ persistedSeq journal symbol = some v ∨
      ∃ r ∈ journal.hot, r.batchId ∈ done ∧ rowSeq symbol r = some v := by
  unfold seenBefore
  refine or_congr_right (exists_congr fun r => and_congr_right fun stored => ?_)
  rw [DuckDbJournal.mem_read_iff split stored, and_assoc, Int.add_one_le_iff]

theorem scanIds (progress : Progress journal done m) (order : RowOrder) (ids rest : List Int)
    (split : unscanned journal = done ++ (ids ++ rest)) :
    Progress journal (done ++ ids)
        ((ids.filterMap (journal.readBatch order)).foldl processEnvelope m) ∧
      (((ids.filterMap (journal.readBatch order)).foldl processEnvelope m).NoFalseGaps ↔
        m.NoFalseGaps ∧ ∀ id ∈ ids, BatchClean journal order id) := by
  induction ids generalizing done m with
  | nil => simpa using progress
  | cons id later ih =>
      have member : id ∈ unscanned journal := by simp [split]
      obtain ⟨env, read, _, rows⟩ := DuckDbJournal.readBatch_of_mem order member
      have clean := noFalseGaps_processEnvelope progress env
      simp only [rows, seqsOf_toTick, ← seenBefore_iff (split.trans rfl)] at clean
      obtain ⟨after, noFalse⟩ := ih (progress.processEnvelope order member read)
        (by rw [split]; simp)
      rw [List.filterMap_cons_some read, List.foldl_cons, noFalse, clean, List.forall_mem_cons,
        and_assoc]
      refine ⟨?_, Iff.rfl⟩
      rwa [List.append_assoc] at after

structure Between (journal : DuckDbJournal) (done left : List Int) (m : GapMonitor) : Prop where
  progress : Progress journal done m
  split : unscanned journal = done ++ left
  next : journal.batchIds m.nextBatch = left

theorem start_between (journal : DuckDbJournal) :
    Between journal [] (unscanned journal) (start journal) where
  progress :=
    { hot := rfl
      saw := by
        intro symbol
        rw [view_start]
        exact (SeqScan.SawAll.start _).congr fun v => by simp
      within := by simp [start] }
  split := rfl
  next := rfl

theorem Between.poll {left : List Int} (between : Between journal done left m)
    (order : RowOrder) :
    Between journal (done ++ left.take 256) (left.drop 256) (m.pollJournal order) ∧
      ((m.pollJournal order).NoFalseGaps ↔
        m.NoFalseGaps ∧ ∀ id ∈ left.take 256, BatchClean journal order id) := by
  have fetched : m.journal.nextCommittedFrom order m.nextBatch 256 =
      (left.take 256).filterMap (journal.readBatch order) := by
    have sameIds : m.journal.batchIds m.nextBatch = left := by
      rw [← between.next]
      unfold DuckDbJournal.batchIds
      rw [between.progress.hot]
    have sameRead : m.journal.readBatch order = journal.readBatch order := by
      funext id
      unfold DuckDbJournal.readBatch DuckDbJournal.batchRows
      rw [between.progress.hot]
    unfold DuckDbJournal.nextCommittedFrom
    rw [sameIds, sameRead]
  have split : unscanned journal = done ++ (left.take 256 ++ left.drop 256) := by
    rw [List.take_append_drop]
    exact between.split
  obtain ⟨progress, noFalse⟩ := scanIds between.progress order _ _ split
  unfold pollJournal processPoll
  rw [fetched]
  rcases List.eq_nil_or_concat (left.take 256) with empty | ⟨front, id, page⟩
  · have nothing : left = [] := by simpa using empty
    subst nothing
    exact ⟨by simpa using between, by simp⟩
  · rw [List.concat_eq_append] at page
    have member : id ∈ unscanned journal := by simp [split, page]
    obtain ⟨env, read, batchId, _⟩ := DuckDbJournal.readBatch_of_mem order member
    have ends : ((left.take 256).filterMap (journal.readBatch order)).getLast? = some env := by
      rw [page, List.filterMap_append, List.filterMap_cons_some read]
      simp
    have last : left = front ++ id :: left.drop 256 := by
      conv_lhs => rw [← List.take_append_drop 256 left, page]
      simp
    simp only [ends]
    refine ⟨⟨⟨progress.hot, ?_, progress.within⟩, by rw [split, List.append_assoc], ?_⟩, noFalse⟩
    · intro symbol
      rw [view_congr ((left.take 256 |>.filterMap (journal.readBatch order)).foldl processEnvelope m)]
      · exact progress.saw symbol
      · rfl
      · exact persistedSeq_setCursor _ env.batchId
      · rfl
      · rfl
    · rw [batchId]
      exact DuckDbJournal.batchIds_after (between.next.trans last)

theorem noFalseGaps_pollAll {left : List Int} (between : Between journal done left m)
    (clean : ∀ order, ∀ id ∈ left, BatchClean journal order id) (before : m.NoFalseGaps)
    (orders : List RowOrder) : (m.pollAll orders).NoFalseGaps := by
  unfold pollAll
  induction orders generalizing done left m with
  | nil => exact before
  | cons order rest ih =>
      obtain ⟨after, noFalse⟩ := between.poll order
      refine ih after (fun o id member => clean o id (List.mem_of_mem_drop member)) ?_
      exact noFalse.mpr ⟨before, fun id member => clean order id (List.mem_of_mem_take member)⟩

theorem batchClean_of_pollAll {left : List Int} (between : Between journal done left m)
    (order : RowOrder) (n : Nat) (noFalse : (m.pollAll (.replicate n order)).NoFalseGaps) :
    m.NoFalseGaps ∧ ∀ id ∈ left.take (256 * n), BatchClean journal order id := by
  unfold pollAll at noFalse
  induction n generalizing done left m with
  | zero => exact ⟨noFalse, by simp⟩
  | succ n ih =>
      obtain ⟨after, polled⟩ := between.poll order
      obtain ⟨first, later⟩ := ih after noFalse
      obtain ⟨before, clean⟩ := polled.mp first
      refine ⟨before, ?_⟩
      intro id member
      rw [Nat.mul_succ, Nat.add_comm, List.take_add, List.mem_append] at member
      rcases member with early | late
      · exact clean id early
      · exact later id late

/-- In every batch the times of a symbol's trades tell the order of their numbers. -/
def TimesSeparate (journal : DuckDbJournal) : Prop :=
  ∀ symbol, ∀ id ∈ unscanned journal,
    SeqScan.Separated HotRow.tsNs (rowSeq symbol) (seenBefore journal symbol id)
      (journal.batchRows id)

theorem batchClean_iff (journal : DuckDbJournal) (id : Int) :
    (∀ order, BatchClean journal order id) ↔
      ∀ symbol, SeqScan.Separated HotRow.tsNs (rowSeq symbol) (seenBefore journal symbol id)
        (journal.batchRows id) := by
  constructor
  · intro clean symbol
    apply SeqScan.separated_of_clean
    intro read perm ordered
    obtain ⟨order, sorted⟩ := DuckDbJournal.exists_rowOrder perm ordered
    exact sorted ▸ clean order symbol
  · intro separated order symbol
    exact SeqScan.clean_of_separated (separated symbol) (order.perm _) (order.ordered _)

theorem noFalseGaps_iff_timesSeparate (journal : DuckDbJournal) :
    (∀ orders, ((start journal).pollAll orders).NoFalseGaps) ↔ TimesSeparate journal := by
  have initial : (start journal).NoFalseGaps := by simp [NoFalseGaps, start]
  constructor
  · intro noFalse symbol id member
    refine (batchClean_iff journal id).mp ?_ symbol
    intro order
    have all := batchClean_of_pollAll (start_between journal) order (unscanned journal).length
      (noFalse _)
    refine all.2 id ?_
    rwa [List.take_of_length_le (by omega)]
  · intro separated orders
    refine noFalseGaps_pollAll (start_between journal) ?_ initial orders
    intro order id member
    exact (batchClean_iff journal id).mpr (fun symbol => separated symbol id member) order

theorem appended_noFalseGaps_iff (watermarks : String → Option Int) (calls : List AppendCall) :
    let journal := DuckDbJournal.appendAll { DuckDbJournal.new with watermarks } calls
    (∀ orders, ((start journal).pollAll orders).NoFalseGaps) ↔ TimesSeparate journal :=
  noFalseGaps_iff_timesSeparate _

-- Three trades in one envelope; the clock of the exchange ran back between the last two.
def clockBack : DuckDbJournal :=
  DuckDbJournal.new.appendEnvelope .argmax 0
    { batchId := 1, producedAtNs := 0, firstOffset := none, lastOffset := none
      rows := [tradeAt 1 10, tradeAt 2 30, tradeAt 3 20] }

theorem clockBack_false_gap : ∃ orders, ¬ ((start clockBack).pollAll orders).NoFalseGaps := by
  rw [← not_forall, noFalseGaps_iff_timesSeparate]
  intro separate
  let first : HotRow :=
    { provider := "binance", stream := "trades", symbol := "BTCUSDT", tsNs := 10, seq := some 1
      isFinal := true, payload := some [], batchId := 1 }
  let second : HotRow := { first with tsNs := 30, seq := some 2 }
  let third : HotRow := { first with tsNs := 20, seq := some 3 }
  have rows : clockBack.batchRows 1 = [first, second, third] := rfl
  have scanned : 1 ∈ unscanned clockBack :=
    DuckDbJournal.mem_batchIds.mpr ⟨by decide, first, List.mem_cons_self, rfl⟩
  have unseen : ∀ l, ¬ seenBefore clockBack "BTCUSDT" 1 l := by
    rintro l (persisted | ⟨r, _, above, below, _⟩)
    · cases persisted
    · have start : clockBack.getWatermark batchScope = 0 := rfl
      omega
  have claimed := separate "BTCUSDT" 1 scanned third (by simp [rows]) second (by simp [rows]) 3 2
    rfl rfl (by decide) (fun l seen => absurd seen (unseen l)) (by decide)
  rw [rows] at claimed
  rcases claimed with ⟨z, member, w, number, reached, sooner⟩ | ⟨_, apart⟩
  · simp only [List.mem_cons, List.not_mem_nil, or_false] at member
    rcases member with rfl | rfl | rfl
    · have one : rowSeq "BTCUSDT" first = some 1 := rfl
      rw [one, Option.some.injEq] at number
      omega
    · exact absurd sooner (by decide)
    · exact absurd sooner (by decide)
  · exact absurd (apart first (by simp) 1 rfl (by decide)) (by decide)

end GapMonitor

end DeepFeeder
