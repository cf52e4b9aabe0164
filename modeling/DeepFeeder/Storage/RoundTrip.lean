import DeepFeeder.Storage.EventStore

set_option autoImplicit false

namespace DeepFeeder

open ArrowType

structure SameTick (written read : Tick) : Prop where
  provider : read.provider = written.provider
  stream : read.stream = written.stream
  symbol : read.symbol = written.symbol
  tsNs : read.tsNs = written.tsNs
  seq : read.seq = written.seq
  isFinal : read.isFinal = written.isFinal
  payload : (Value.dict written.payload).Same (.dict read.payload)

theorem offset_read_iff (offset : Option Int) :
    (if offsetColumn offset < 0 then none else some (offsetColumn offset)) = offset ↔
      ∀ n, offset = some n → 0 < n := by
  cases offset with
  | none => simp [offsetColumn]
  | some n =>
      by_cases zero : n = 0
      · simp [zero, offsetColumn]
      · have kept : offsetColumn (some n) = n := by
          unfold offsetColumn
          split
          next same => simp [zero] at same
          next same => cases same
          next => simp_all
        rw [kept]
        by_cases negative : n < 0
        · simp only [negative, if_true, Option.some.injEq, forall_eq', reduceCtorEq, false_iff]
          omega
        · simp only [negative, if_false, Option.some.injEq, forall_eq', true_iff]
          omega

/-- The times and the numbers fit 64 bits, no number is -1, and each place of the payloads has values
of one kind. -/
structure Representable (ticks : List Tick) : Prop where
  times : ∀ t ∈ ticks, isBigint t.tsNs = true
  numbers : ∀ t ∈ ticks, ∀ n, t.seq = some n → isBigint n = true ∧ n ≠ -1
  payloads : Uniform (ticks.map fun t => .dict t.payload)

theorem same_dict_out {cells : Payload} {out : Value} (same : (Value.dict cells).Same out) :
    ∃ read, out = .dict read := by
  cases same with
  | number isNumber _ => cases isNumber
  | dict => exact ⟨_, rfl⟩

theorem number_fits_iff (seq : Option Int) :
    isBigint (seq.getD (-1)) = true ∧ seq ≠ some (-1) ↔
      ∀ n, seq = some n → isBigint n = true ∧ n ≠ -1 := by
  cases seq with
  | none => simp [isBigint]
  | some n => simp

theorem arrowRow_same_iff {coerce : Coercion} {type : ArrowType} {t : Tick} :
    (∃ r, arrowRow coerce type t = some r ∧ SameTick t r.toTick) ↔
      isBigint t.tsNs = true ∧ (∀ n, t.seq = some n → isBigint n = true ∧ n ≠ -1) ∧
        Keeps coerce type (.dict t.payload) := by
  rw [← number_fits_iff, ← seq_read_iff]
  simp only [arrowRow_eq_some_iff]
  constructor
  · rintro ⟨_, ⟨payload, stored, ⟨time, number⟩, rfl⟩, same⟩
    exact ⟨time, ⟨number, same.seq⟩, _, stored, same.payload⟩
  · rintro ⟨time, ⟨number, seq⟩, out, stored, same⟩
    obtain ⟨payload, rfl⟩ := same_dict_out same
    exact ⟨_, ⟨payload, stored, ⟨time, number⟩, rfl⟩, rfl, rfl, rfl, rfl, seq, rfl, same⟩

theorem ticks_read_iff (coerce : Coercion) (ticks : List Tick) :
    (∃ table, ticksToArrow coerce ticks = some table ∧
      List.Forall₂ SameTick ticks (arrowToTicks table)) ↔
      (∀ t ∈ ticks, isBigint t.tsNs = true) ∧
        (∀ t ∈ ticks, ∀ n, t.seq = some n → isBigint n = true ∧ n ≠ -1) ∧
        ∀ t ∈ ticks, Keeps coerce (payloadType ticks) (.dict t.payload) := by
  unfold ticksToArrow arrowToTicks
  simp only [List.forall₂_map_right_iff]
  rw [Fallible.mapM_forall₂_iff]
  simp only [arrowRow_same_iff]
  constructor
  · intro each
    exact ⟨fun t member => (each t member).1, fun t member => (each t member).2.1,
      fun t member => (each t member).2.2⟩
  · rintro ⟨times, numbers, kept⟩ t member
    exact ⟨times t member, numbers t member, kept t member⟩

theorem representable_iff (ticks : List Tick) :
    (∀ coerce, ∃ table, ticksToArrow coerce ticks = some table ∧
      List.Forall₂ SameTick ticks (arrowToTicks table)) ↔ Representable ticks := by
  simp only [ticks_read_iff]
  constructor
  · intro reads
    obtain ⟨times, numbers, kept⟩ := reads .refuse
    exact ⟨times, numbers, uniform_of_keeps (List.forall_mem_map.mpr kept)⟩
  · intro fit coerce
    refine ⟨fit.times, fit.numbers, ?_⟩
    exact List.forall_mem_map.mp (keeps_of_uniform fit.payloads (Nat.lt_succ_self _))

namespace DuckDbEventStore

def GivesBack (store : DuckDbEventStore) (env : Envelope) (maxN : Nat) : Prop :=
  ∃ batchId after, store.append env = some (batchId, after) ∧
    ∃ out rest, after.nextFrom batchId maxN = out :: rest ∧ out.batchId = batchId ∧
      out.firstOffset = env.firstOffset ∧ out.lastOffset = env.lastOffset ∧
      List.Forall₂ SameTick env.rows out.rows

theorem nextFrom_append {store after : DuckDbEventStore} {env : Envelope} {batchId : Int} {maxN : Nat}
    (room : 0 < maxN) (appended : store.append env = some (batchId, after)) :
    batchId = store.con.eventStoreSeq ∧ ∃ table, ticksToArrow store.coerce env.rows = some table ∧
      (StoreRow.ofTable batchId env table).fits = true ∧
      after.nextFrom batchId maxN = [(StoreRow.ofTable batchId env table).toEnvelope] := by
  obtain ⟨rfl, row, made, rfl⟩ := append_eq appended
  obtain ⟨table, written, rfl, fits⟩ := StoreRow.ofEnvelope_eq_some_iff.mp made
  refine ⟨rfl, table, written, fits, ?_⟩
  have older : (store.con.eventStore.filter fun r => store.con.eventStoreSeq ≤ r.batchId) = [] := by
    rw [List.filter_eq_nil_iff]
    intro r member
    have := store.con.fresh r.batchId (List.mem_map_of_mem member)
    simpa using this
  unfold nextFrom Database.insert
  simp only [List.filter_append, older, List.nil_append, List.filter_cons, le_refl, decide_true,
    if_true, List.filter_nil, List.insertionSort_cons, List.insertionSort_nil,
    List.orderedInsert_nil]
  rw [List.take_of_length_le (by simpa using Nat.succ_le_of_lt room)]
  rfl

theorem append_of_fits {store : DuckDbEventStore} {env : Envelope} {table : ArrowTable}
    (written : ticksToArrow store.coerce env.rows = some table)
    (fits : (StoreRow.ofTable store.con.eventStoreSeq env table).fits = true) :
    ∃ after, store.append env = some (store.con.eventStoreSeq, after) := by
  have made := StoreRow.ofEnvelope_eq_some_iff.mpr ⟨table, written, rfl, fits⟩
  exact ⟨_, by rw [append, made]; rfl⟩

/-- The numbers of the envelope fit their columns, and its offsets are not the ones that stand for
None. -/
structure EnvelopeFits (store : DuckDbEventStore) (env : Envelope) : Prop where
  batchId : isBigint store.con.eventStoreSeq = true
  producedAt : isBigint (toTimestamp env.producedAtNs) = true
  first : ∀ n, env.firstOffset = some n → 0 < n ∧ isBigint n = true
  last : ∀ n, env.lastOffset = some n → 0 < n ∧ isBigint n = true
  count : env.rows.length ≤ 2147483647

theorem offset_fits_iff (offset : Option Int) :
    isBigint (offsetColumn offset) = true ∧
      (if offsetColumn offset < 0 then none else some (offsetColumn offset)) = offset ↔
      ∀ n, offset = some n → 0 < n ∧ isBigint n = true := by
  rw [offset_read_iff]
  cases offset with
  | none => simp [offsetColumn, isBigint]
  | some n =>
      by_cases zero : n = 0
      · simp [zero]
      · have kept : offsetColumn (some n) = n := by
          unfold offsetColumn
          split <;> simp_all
        simp [kept, and_comm]

theorem envelopeFits_iff (store : DuckDbEventStore) (env : Envelope) (table : ArrowTable) :
    EnvelopeFits store env ↔
      (StoreRow.ofTable store.con.eventStoreSeq env table).fits = true ∧
        (StoreRow.ofTable store.con.eventStoreSeq env table).toEnvelope.firstOffset = env.firstOffset ∧
        (StoreRow.ofTable store.con.eventStoreSeq env table).toEnvelope.lastOffset =
          env.lastOffset := by
  simp only [StoreRow.ofTable, StoreRow.fits, StoreRow.toEnvelope, Bool.and_eq_true]
  constructor
  · intro fit
    obtain ⟨first, firstRead⟩ := (offset_fits_iff env.firstOffset).mpr fit.first
    obtain ⟨last, lastRead⟩ := (offset_fits_iff env.lastOffset).mpr fit.last
    exact ⟨⟨⟨⟨⟨fit.batchId, fit.producedAt⟩, first⟩, last⟩, decide_eq_true fit.count⟩, firstRead,
      lastRead⟩
  · rintro ⟨⟨⟨⟨⟨batchId, producedAt⟩, first⟩, last⟩, count⟩, firstRead, lastRead⟩
    exact ⟨batchId, producedAt, (offset_fits_iff _).mp ⟨first, firstRead⟩,
      (offset_fits_iff _).mp ⟨last, lastRead⟩, of_decide_eq_true count⟩

theorem givesBack_coerce_iff (store : DuckDbEventStore) (env : Envelope) {maxN : Nat}
    (room : 0 < maxN) : store.GivesBack env maxN ↔ EnvelopeFits store env ∧
      ∃ table, ticksToArrow store.coerce env.rows = some table ∧
        List.Forall₂ SameTick env.rows (arrowToTicks table) := by
  constructor
  · rintro ⟨batchId, after, appended, out, rest, read, _, first, last, rows⟩
    obtain ⟨rfl, table, written, fits, readBack⟩ := nextFrom_append room appended
    obtain ⟨rfl, rfl⟩ := List.cons.inj (readBack.symm.trans read)
    exact ⟨(envelopeFits_iff store env table).mpr ⟨fits, first, last⟩, table, written, rows⟩
  · rintro ⟨fit, table, written, rows⟩
    obtain ⟨fits, first, last⟩ := (envelopeFits_iff store env table).mp fit
    obtain ⟨after, appended⟩ := append_of_fits written fits
    obtain ⟨_, table', again, _, read⟩ := nextFrom_append room appended
    cases written.symm.trans again
    exact ⟨_, after, appended, _, [], read, rfl, first, last, rows⟩

-- The envelope comes back whatever pyarrow makes of values of different kinds in one place.
theorem givesBack_iff (store : DuckDbEventStore) (env : Envelope) {maxN : Nat} (room : 0 < maxN) :
    (∀ coerce, { store with coerce }.GivesBack env maxN) ↔
      EnvelopeFits store env ∧ Representable env.rows := by
  rw [← representable_iff]
  simp only [givesBack_coerce_iff _ env room]
  constructor
  · intro gives
    obtain ⟨fit, _⟩ := gives .refuse
    exact ⟨⟨fit.batchId, fit.producedAt, fit.first, fit.last, fit.count⟩, fun coerce => (gives coerce).2⟩
  · rintro ⟨fit, tables⟩ coerce
    exact ⟨⟨fit.batchId, fit.producedAt, fit.first, fit.last, fit.count⟩, tables coerce⟩

def fromOne : Envelope :=
  { batchId := 0, producedAtNs := 0, firstOffset := some 1, lastOffset := some 2
    rows :=
      [ { provider := "binance", stream := "trades", symbol := "BTCUSDT", tsNs := 1000, seq := some 1
          payload := [("Price", .float 100)] },
        { provider := "binance", stream := "trades", symbol := "BTCUSDT", tsNs := 2000, seq := none
          payload := [("Price", .float 101)] } ] }

theorem uniform_fromOne : Uniform (fromOne.rows.map fun t => .dict t.payload) := by
  refine .dicts ?_ ?_ ?_
  · simp [fromOne, Only, Value.kind]
  · simp only [fromOne, List.map_cons, List.map_nil, List.mem_cons, Value.dict.injEq]
    rintro xs ys (rfl | rfl | ⟨⟨⟩⟩) (rfl | rfl | ⟨⟨⟩⟩) <;> exact List.Subset.refl _
  · intro field
    by_cases price : field = "Price"
    · subst price
      exact .numbers (by simp [fromOne, Value.cells, Value.kind]) (by simp [fromOne, Value.cells])
    · have other : (field == "Price") = false := beq_false_of_ne price
      exact .bools (by simp [fromOne, Only, Value.cells, List.lookup_cons, other])

theorem givesBack_fromOne :
    fromOne.rows.length = 2 ∧ ∀ coerce, (connect .new {} coerce).GivesBack fromOne 1 := by
  refine ⟨rfl, (givesBack_iff (connect .new {}) fromOne (by decide)).mpr
    ⟨⟨by decide, by decide +kernel, ?_, ?_, by decide⟩, ?_, ?_, uniform_fromOne⟩⟩
  · simp [fromOne, isBigint]
  · simp [fromOne, isBigint]
  · simp [fromOne, isBigint]
  · simp [fromOne, isBigint]

-- The same batch from offset 0.
theorem offset_zero_is_lost :
    ¬ (connect .new {}).GivesBack { fromOne with firstOffset := some 0 } 1 := by
  intro gives
  have fit := ((givesBack_coerce_iff _ _ (by decide)).mp gives).1
  exact absurd (fit.first 0 rfl).1 (by decide)

end DuckDbEventStore

end DeepFeeder
