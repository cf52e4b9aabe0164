import Mathlib.Data.List.Sort
import DeepFeeder.Storage.JournalMerge

set_option autoImplicit false

namespace DeepFeeder

/-- An answer to `ORDER BY ts_ns ASC`: rows with equal `ts_ns` come in any order. -/
structure RowOrder where
  sort : List HotRow → List HotRow
  perm : ∀ rows, (sort rows).Perm rows
  ordered : ∀ rows, (sort rows).Pairwise fun a b => a.tsNs ≤ b.tsNs

def RowOrder.byTime : RowOrder :=
  { sort := fun rows => rows.insertionSort fun a b => a.tsNs ≤ b.tsNs
    perm := fun rows => List.perm_insertionSort _ rows
    ordered := by
      intro rows
      have total : Std.Total fun a b : HotRow => a.tsNs ≤ b.tsNs := ⟨fun _ _ => le_total _ _⟩
      have trans : IsTrans HotRow fun a b => a.tsNs ≤ b.tsNs := ⟨fun _ _ _ => le_trans⟩
      exact List.pairwise_insertionSort _ rows }

def HotRow.toTick (r : HotRow) : Tick :=
  { provider := r.provider, stream := r.stream, symbol := r.symbol, tsNs := r.tsNs
    seq := match r.seq with
      | some n => if n < 0 then none else some n
      | none => none
    payload := r.payload.getD []
    isFinal := r.isFinal }

namespace DuckDbJournal

def batchRows (journal : DuckDbJournal) (batchId : Int) : List HotRow :=
  journal.hot.filter fun r => decide (r.batchId = batchId)

-- `SELECT DISTINCT batch_id … WHERE batch_id >= ? ORDER BY batch_id ASC`.
def batchIds (journal : DuckDbJournal) (startInclusive : Int) : List Int :=
  ((journal.hot.map HotRow.batchId).filter fun id => decide (startInclusive ≤ id)).dedup
    |>.insertionSort (· ≤ ·)

def readBatch (order : RowOrder) (journal : DuckDbJournal) (batchId : Int) : Option Envelope :=
  let rs := order.sort (journal.batchRows batchId)
  match rs.getLast? with
  | none => none
  | some last =>
      some
        { batchId, producedAtNs := last.tsNs, firstOffset := none, lastOffset := none
          rows := rs.map HotRow.toTick }

def nextCommittedFrom (order : RowOrder) (journal : DuckDbJournal) (startInclusive : Int)
    (limit : Nat) : List Envelope :=
  ((journal.batchIds startInclusive).take limit).filterMap (journal.readBatch order)

variable {journal : DuckDbJournal}

theorem mem_batchIds {startInclusive id : Int} :
    id ∈ journal.batchIds startInclusive ↔
      startInclusive ≤ id ∧ ∃ r ∈ journal.hot, r.batchId = id := by
  unfold batchIds
  rw [List.mem_insertionSort, List.mem_dedup, List.mem_filter, List.mem_map, decide_eq_true_eq]
  exact and_comm

theorem batchIds_ascending (journal : DuckDbJournal) (startInclusive : Int) :
    (journal.batchIds startInclusive).Pairwise (· < ·) := by
  unfold batchIds
  have distinct := List.nodup_dedup
    ((journal.hot.map HotRow.batchId).filter fun id => decide (startInclusive ≤ id))
  have sorted := List.pairwise_insertionSort (· ≤ ·)
    ((journal.hot.map HotRow.batchId).filter fun id => decide (startInclusive ≤ id)).dedup
  have nodup := (List.perm_insertionSort (· ≤ ·) _).nodup_iff.mpr distinct
  exact sorted.imp₂ (fun _ _ le ne => lt_of_le_of_ne le ne) nodup

theorem batchIds_after {startInclusive id : Int} {read rest : List Int}
    (split : journal.batchIds startInclusive = read ++ id :: rest) :
    journal.batchIds (id + 1) = rest := by
  have ascending := journal.batchIds_ascending startInclusive
  rw [split, List.pairwise_append, List.pairwise_cons] at ascending
  obtain ⟨_, ⟨above, restAscending⟩, below⟩ := ascending
  apply List.Pairwise.eq_of_mem_iff (journal.batchIds_ascending (id + 1)) restAscending
  intro other
  have member : other ∈ journal.batchIds startInclusive ↔ other ∈ read ++ id :: rest := by rw [split]
  have inside : id ∈ journal.batchIds startInclusive := by simp [split]
  have start := (mem_batchIds.mp inside).1
  rw [mem_batchIds, List.mem_append, List.mem_cons] at member
  rw [mem_batchIds]
  constructor
  · rintro ⟨later, stored⟩
    rcases member.mp ⟨by omega, stored⟩ with early | here | rest
    · have := below other early id List.mem_cons_self
      omega
    · omega
    · exact rest
  · intro later
    have := above other later
    exact ⟨by omega, (member.mpr (.inr (.inr later))).2⟩

theorem mem_read_iff {startInclusive id : Int} {read rest : List Int}
    (split : journal.batchIds startInclusive = read ++ id :: rest) {r : HotRow}
    (stored : r ∈ journal.hot) : r.batchId ∈ read ↔ startInclusive ≤ r.batchId ∧ r.batchId < id := by
  have ascending := journal.batchIds_ascending startInclusive
  rw [split, List.pairwise_append, List.pairwise_cons] at ascending
  obtain ⟨_, ⟨above, _⟩, below⟩ := ascending
  have member : r.batchId ∈ journal.batchIds startInclusive ↔ r.batchId ∈ read ++ id :: rest := by
    rw [split]
  rw [mem_batchIds, List.mem_append, List.mem_cons] at member
  constructor
  · intro early
    exact ⟨(member.mpr (.inl early)).1, below _ early id List.mem_cons_self⟩
  · rintro ⟨start, less⟩
    rcases member.mp ⟨start, r, stored, rfl⟩ with early | here | later
    · exact early
    · omega
    · have := above _ later
      omega

theorem readBatch_of_mem {startInclusive id : Int} (order : RowOrder)
    (member : id ∈ journal.batchIds startInclusive) :
    ∃ env, journal.readBatch order id = some env ∧ env.batchId = id ∧
      env.rows = (order.sort (journal.batchRows id)).map HotRow.toTick := by
  obtain ⟨_, r, stored, same⟩ := mem_batchIds.mp member
  have some : order.sort (journal.batchRows id) ≠ [] := by
    apply List.ne_nil_of_mem (a := r)
    rw [(order.perm _).mem_iff]
    exact List.mem_filter.mpr ⟨stored, by simpa using same⟩
  unfold readBatch
  simp only [List.getLast?_eq_some_getLast some]
  exact ⟨_, rfl, rfl, rfl⟩

-- The engine may return the rows of a batch in any order that its ORDER BY allows.
open Classical in
theorem exists_rowOrder {rows sorted : List HotRow} (perm : sorted.Perm rows)
    (ordered : sorted.Pairwise fun a b => a.tsNs ≤ b.tsNs) :
    ∃ order : RowOrder, order.sort rows = sorted := by
  let order : RowOrder :=
    { sort := fun rs => if rs = rows then sorted else RowOrder.byTime.sort rs
      perm := by
        intro rs
        split
        next same => exact same ▸ perm
        next => exact RowOrder.byTime.perm rs
      ordered := by
        intro rs
        split
        next => exact ordered
        next => exact RowOrder.byTime.ordered rs }
  exact ⟨order, if_pos rfl⟩

end DuckDbJournal

end DeepFeeder
