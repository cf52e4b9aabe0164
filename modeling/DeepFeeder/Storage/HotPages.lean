import Mathlib.Order.Monotone.Basic
import DeepFeeder.Storage.Canonical
import DeepFeeder.Storage.Committed
import DeepFeeder.Shared.GrowingKeyset

set_option autoImplicit false

namespace DeepFeeder

/-- The `rowid` of each row of `journal_hot`, by its position in insertion order. A later row has a
larger one; a transaction that is rolled back may leave a gap. -/
structure RowIds where
  rowidOf : Nat → Int
  nonneg : ∀ position, 0 ≤ rowidOf position
  increasing : ∀ earlier later, earlier < later → rowidOf earlier < rowidOf later

def RowIds.dense : RowIds :=
  { rowidOf := fun position => position
    nonneg := fun position => Int.natCast_nonneg position
    increasing := fun _ _ less => Int.ofNat_lt.mpr less }

structure HotEntry where
  rowid : Int
  row : HotRow

def HotEntry.orderBy (e : HotEntry) : Int ×ₗ Int := toLex (e.row.tsNs, e.rowid)

namespace JournalCanonical

def Selection.whereHot (q : Selection) (r : HotRow) : Bool :=
  inFilter q.providerFilter r.provider && inFilter q.streamFilter r.stream

end JournalCanonical

namespace DuckDbJournal

open JournalCanonical (Selection)

def hotEntries (ids : RowIds) (journal : DuckDbJournal) : List HotEntry :=
  journal.hot.zipIdx.map fun r => { rowid := ids.rowidOf r.2, row := r.1 }

def selectHotPage (ids : RowIds) (journal : DuckDbJournal) (q : Selection) (pageRows : Nat)
    (lastTs lastRowid : Int) : List HotEntry :=
  (((journal.hotEntries ids).filter fun e =>
    decide (lastTs < e.row.tsNs ∨ e.row.tsNs = lastTs ∧ lastRowid < e.rowid) && q.whereHot e.row)
      |>.insertionSort (Keyset.before HotEntry.orderBy)).take pageRows

-- The rows behind the pages of `canonical=False`, when the generator ends within `fuel` queries. The
-- transactions of `schedule` run in the order of the list, each group of them before one query.
def streamHotRows (ids : RowIds) (q : Selection) (pageRows : Nat) :
    Nat → DuckDbJournal → List (List AppendCall) → Int → Int → Option (List (List HotEntry))
  | 0, _, _, _, _ => none
  | fuel + 1, journal, schedule, lastTs, lastRowid =>
      let current := journal.appendAll (schedule.headD [])
      let rs := current.selectHotPage ids q pageRows lastTs lastRowid
      -- Every row of the page moves the cursor, so it stays at the last one.
      match rs.getLast? with
      | none => some []
      | some last =>
          (streamHotRows ids q pageRows fuel current schedule.tail last.row.tsNs last.rowid).map
            fun later => rs :: later

def streamHotTicks (ids : RowIds) (journal : DuckDbJournal) (q : Selection) (pageRows fuel : Nat)
    (schedule : List (List AppendCall)) (sinceTsNs : Int) : Option (List (List Tick)) :=
  (streamHotRows ids q pageRows fuel journal schedule sinceTsNs (-1)).map fun pages =>
    pages.map (List.map fun e => e.row.toTick)

variable {ids : RowIds} {journal : DuckDbJournal} {q : Selection} {pageRows : Nat}

theorem appendEnvelope_hot (rowNumber : RowNumber) (now : Int) (journal : DuckDbJournal)
    (env : Envelope) : (journal.appendEnvelope rowNumber now env).hot = journal.hot ++ hotRows env := by
  by_cases empty : env.rows = []
  · rw [appendEnvelope_nil empty, hotRows, empty, List.map_nil, List.append_nil]
  · rw [appendEnvelope_cons empty]

theorem appendAll_append (journal : DuckDbJournal) (first later : List AppendCall) :
    journal.appendAll (first ++ later) = (journal.appendAll first).appendAll later :=
  List.foldl_append

theorem hot_appendAll (journal : DuckDbJournal) (calls : List AppendCall) :
    (journal.appendAll calls).hot = journal.hot ++ calls.flatMap fun call => hotRows call.env := by
  induction calls generalizing journal with
  | nil => simp [appendAll]
  | cons call rest ih =>
      have later := ih (journal.appendEnvelope call.rowNumber call.now call.env)
      rw [appendEnvelope_hot, List.append_assoc] at later
      simpa [appendAll] using later

theorem hotEntries_subset_appendAll (ids : RowIds) (journal : DuckDbJournal) (calls : List AppendCall) :
    journal.hotEntries ids ⊆ (journal.appendAll calls).hotEntries ids := by
  unfold hotEntries
  rw [hot_appendAll, List.zipIdx_append, List.map_append]
  exact List.subset_append_left _ _

theorem rowids_nodup (ids : RowIds) (journal : DuckDbJournal) :
    ((journal.hotEntries ids).map HotEntry.rowid).Nodup := by
  have rowids : (journal.hotEntries ids).map HotEntry.rowid =
      (List.range' 0 journal.hot.length).map ids.rowidOf := by
    unfold hotEntries
    rw [← List.zipIdx_map_snd, List.map_map, List.map_map]
    rfl
  have increasing : StrictMono ids.rowidOf := fun _ _ => ids.increasing _ _
  rw [rowids]
  exact (List.nodup_range' (s := 0)).map increasing.injective

theorem rowid_nonneg {e : HotEntry} (member : e ∈ journal.hotEntries ids) : 0 ≤ e.rowid := by
  obtain ⟨r, _, rfl⟩ := List.mem_map.mp member
  exact ids.nonneg r.2

theorem entry_of_rowid {a b : HotEntry} (first : a ∈ journal.hotEntries ids)
    (second : b ∈ journal.hotEntries ids) (same : a.rowid = b.rowid) : a = b :=
  List.inj_on_of_nodup_map (rowids_nodup ids journal) first second same

def matchingHot (ids : RowIds) (q : Selection) (journal : DuckDbJournal) : List HotEntry :=
  ((journal.hotEntries ids).filter fun e => q.whereHot e.row)
    |>.insertionSort (Keyset.before HotEntry.orderBy)

theorem mem_matchingHot {e : HotEntry} :
    e ∈ matchingHot ids q journal ↔ e ∈ journal.hotEntries ids ∧ q.whereHot e.row = true := by
  unfold matchingHot
  rw [List.mem_insertionSort, List.mem_filter]

theorem matchingHot_ascending (ids : RowIds) (q : Selection) (journal : DuckDbJournal) :
    Keyset.Ascending HotEntry.orderBy (matchingHot ids q journal) := by
  apply Keyset.ascending_insertionSort
  have rowids : (((journal.hotEntries ids).filter fun e => q.whereHot e.row).map
      HotEntry.rowid).Nodup := (rowids_nodup ids journal).sublist (List.filter_sublist.map _)
  refine List.Nodup.of_map (fun key => (ofLex key).2) ?_
  rw [List.map_map]
  exact rowids

theorem afterHot_iff (e : HotEntry) (lastTs lastRowid : Int) :
    (lastTs < e.row.tsNs ∨ e.row.tsNs = lastTs ∧ lastRowid < e.rowid) ↔
      toLex (lastTs, lastRowid) < e.orderBy := by
  unfold HotEntry.orderBy
  rw [Prod.Lex.toLex_lt_toLex]
  simp only [eq_comm]

theorem selectHotPage_eq_fetch (ids : RowIds) (journal : DuckDbJournal) (q : Selection)
    (pageRows : Nat) (lastTs lastRowid : Int) :
    journal.selectHotPage ids q pageRows lastTs lastRowid =
      Keyset.fetch HotEntry.orderBy (matchingHot ids q journal) pageRows
        (toLex (lastTs, lastRowid)) := by
  unfold selectHotPage Keyset.fetch matchingHot
  rw [← Keyset.insertionSort_filter, List.filter_filter]
  simp only [afterHot_iff]

def journalAt (journal : DuckDbJournal) (schedule : List (List AppendCall)) (n : Nat) :
    DuckDbJournal :=
  journal.appendAll (schedule.take (n + 1)).flatten

theorem take_succ_flatten {α : Type} (groups : List (List α)) (n : Nat) :
    (groups.take (n + 1)).flatten = (groups.take n).flatten ++ (groups.drop n).headD [] := by
  rw [List.take_add_one, List.flatten_append, List.headD_eq_head?_getD,
    List.head?_drop]
  cases groups[n]? with
  | none => rfl
  | some group => simp

theorem streamHotRows_eq_growingPages (ids : RowIds) (q : Selection) (pageRows : Nat)
    (journal : DuckDbJournal) (schedule : List (List AppendCall)) (fuel n : Nat)
    (lastTs lastRowid : Int) :
    streamHotRows ids q pageRows fuel (journal.appendAll (schedule.take n).flatten)
        (schedule.drop n) lastTs lastRowid =
      Keyset.growingPages HotEntry.orderBy
        (fun n => matchingHot ids q (journal.journalAt schedule n)) pageRows fuel n
        (toLex (lastTs, lastRowid)) := by
  induction fuel generalizing n lastTs lastRowid with
  | zero => rfl
  | succ fuel ih =>
      have current : (journal.appendAll (schedule.take n).flatten).appendAll
          ((schedule.drop n).headD []) = journal.journalAt schedule n := by
        rw [← appendAll_append, ← take_succ_flatten]
        rfl
      unfold streamHotRows Keyset.growingPages
      simp only [current, selectHotPage_eq_fetch]
      cases (Keyset.fetch HotEntry.orderBy (matchingHot ids q (journal.journalAt schedule n)) pageRows
          (toLex (lastTs, lastRowid))).getLast? with
      | none => rfl
      | some last =>
          have later := ih (n + 1) last.row.tsNs last.rowid
          rw [← List.tail_drop] at later
          exact congrArg (Option.map _) later

theorem grows_matchingHot (ids : RowIds) (q : Selection) (journal : DuckDbJournal)
    (schedule : List (List AppendCall)) :
    Keyset.Grows HotEntry.orderBy fun n => matchingHot ids q (journal.journalAt schedule n) := by
  constructor
  next => exact fun n => matchingHot_ascending ids q _
  next =>
    intro n e member
    obtain ⟨stored, chosen⟩ := mem_matchingHot.mp member
    refine mem_matchingHot.mpr ⟨?_, chosen⟩
    unfold journalAt
    rw [take_succ_flatten schedule (n + 1), appendAll_append]
    exact hotEntries_subset_appendAll ids _ _ stored
  next =>
    refine ⟨schedule.length, ?_⟩
    intro n late
    unfold journalAt
    rw [List.take_of_length_le (by omega), List.take_of_length_le (by omega)]

-- `last_rowid = -1` lets every row of the first nanosecond through.
theorem first_hot_cursor {e : HotEntry} (member : e ∈ journal.hotEntries ids) (sinceTsNs : Int) :
    toLex (sinceTsNs, -1) < e.orderBy ↔ sinceTsNs ≤ e.row.tsNs := by
  rw [← afterHot_iff]
  have := rowid_nonneg member
  omega

/-- The generator ends; its rows come in the order of `(ts_ns, rowid)`, no rowid twice, each one asked
for and in the table at the end; and each row asked for that was there at the start is among them. -/
def HotStreamsOnce (ids : RowIds) (journal : DuckDbJournal) (q : Selection) (pageRows : Nat)
    (schedule : List (List AppendCall)) (sinceTsNs : Int) : Prop :=
  ∃ fuel pages, streamHotRows ids q pageRows fuel journal schedule sinceTsNs (-1) = some pages ∧
    streamHotTicks ids journal q pageRows fuel schedule sinceTsNs =
      some (pages.map (List.map fun e => e.row.toTick)) ∧
    pages.flatten.Pairwise (fun a b => a.orderBy < b.orderBy) ∧
    (pages.flatten.map HotEntry.rowid).Nodup ∧
    (∀ e ∈ pages.flatten, e ∈ (journal.appendAll schedule.flatten).hotEntries ids ∧
      q.whereHot e.row = true ∧ sinceTsNs ≤ e.row.tsNs) ∧
    ∀ e ∈ journal.hotEntries ids, q.whereHot e.row = true → sinceTsNs ≤ e.row.tsNs →
      e ∈ pages.flatten ∧ (pages.flatten.map HotEntry.rowid).count e.rowid = 1

theorem journalAt_subset (ids : RowIds) (journal : DuckDbJournal) (schedule : List (List AppendCall))
    (n : Nat) : (journal.journalAt schedule n).hotEntries ids ⊆
      (journal.appendAll schedule.flatten).hotEntries ids := by
  have parts : schedule.flatten =
      (schedule.take (n + 1)).flatten ++ (schedule.drop (n + 1)).flatten := by
    rw [← List.flatten_append, List.take_append_drop]
  rw [parts, appendAll_append]
  exact hotEntries_subset_appendAll ids _ _

theorem streamHot_once (ids : RowIds) (journal : DuckDbJournal) (q : Selection) {pageRows : Nat}
    (positive : 0 < pageRows) (schedule : List (List AppendCall)) (sinceTsNs : Int) :
    HotStreamsOnce ids journal q pageRows schedule sinceTsNs := by
  have grows := grows_matchingHot ids q journal schedule
  obtain ⟨fuel, pages, result⟩ :
      ∃ fuel pages, Keyset.growingPages _ _ pageRows fuel 0 _ = some pages :=
    Keyset.growingPages_ends grows 0 (toLex (sinceTsNs, -1))
  have reads := Keyset.growingPages_reads grows positive result
  rw [← streamHotRows_eq_growingPages] at result
  have sound : ∀ e ∈ pages.flatten, e ∈ (journal.appendAll schedule.flatten).hotEntries ids ∧
      q.whereHot e.row = true ∧ sinceTsNs ≤ e.row.tsNs := by
    intro e member
    obtain ⟨above, n, _, stored⟩ := reads.sound e member
    obtain ⟨entry, chosen⟩ := mem_matchingHot.mp stored
    exact ⟨journalAt_subset ids journal schedule n entry, chosen,
      (first_hot_cursor entry sinceTsNs).mp above⟩
  have distinct : (pages.flatten.map HotEntry.rowid).Nodup := by
    refine List.Nodup.map_on ?_ reads.ascending.nodup
    intro a first b second same
    exact entry_of_rowid (sound a first).1 (sound b second).1 same
  refine ⟨fuel, pages, result, ?_, reads.ascending, distinct, sound, ?_⟩
  · unfold streamHotTicks
    exact congrArg (Option.map _) result
  · intro e stored chosen since
    have present : e ∈ pages.flatten := by
      refine reads.complete e (mem_matchingHot.mpr ⟨?_, chosen⟩) ?_
      · exact hotEntries_subset_appendAll ids journal _ stored
      · exact (first_hot_cursor stored sinceTsNs).mpr since
    exact ⟨present, List.count_eq_one_of_mem distinct (List.mem_map_of_mem present)⟩

-- Pages of one row; the same trade is appended again before the second query.
theorem streamHot_once_between :
    HotStreamsOnce .dense (new.appendAll [⟨.argmax, 1, tradeEnvelope⟩]) {} 1
      [[], [⟨.argmax, 2, tradeEnvelope⟩]] 0 :=
  streamHot_once .dense _ {} (by decide) _ 0

end DuckDbJournal

end DeepFeeder
