import DeepFeeder.Fanout.Columns

set_option autoImplicit false

namespace DeepFeeder

namespace Query

def between (startNs endNs : Option Int) (row : Row) : Bool :=
  (startNs.all fun startNs => decide (startNs ≤ row.time)) &&
    (endNs.all fun endNs => decide (row.time ≤ endNs))

def plain (q : Query) (spec : SchemaSpec) : Bool := plainNames spec q.symbol q.exchange

section Languages

variable [Uppercase]

def matching (q : Query) (spec : SchemaSpec) (row : Row) : Bool :=
  ((tests spec q.symbol q.exchange).all fun test => (row.get test.1).isStr test.2) &&
    (!spec.cols.contains "IsEmpty" || (row.get "IsEmpty").isBool false)

variable [QueryLanguage]

def rangeRows (q : Query) (spec : SchemaSpec) (table : List Row) : Option (List Row) :=
  if q.answered spec then some (q.rows spec table) else none

/-- The call returns the rows between the exact bounds, inclusive, in the order of their times. -/
def RangeExact (q : Query) (spec : SchemaSpec) (table : List Row) : Prop :=
  ∃ rows, q.rangeRows spec table = some rows ∧
    rows.Perm (table.filter fun row => q.matching spec row && between q.startNs q.endNs row) ∧
    rows.Pairwise fun a b => a.time ≤ b.time

variable {q : Query} {spec : SchemaSpec} {table : List Row}

theorem rows_ordered (q : Query) (spec : SchemaSpec) (table : List Row) :
    (q.rows spec table).Pairwise fun a b => a.time ≤ b.time := by
  have total : Std.Total fun a b : Row => a.time ≤ b.time := ⟨fun a b => le_total a.time b.time⟩
  have trans : IsTrans Row fun a b => a.time ≤ b.time := ⟨fun _ _ _ => le_trans⟩
  exact List.pairwise_insertionSort _ _

theorem selects_of_plain (column : spec.symbolCol = "Symbol") (plain : q.plain spec = true)
    (row : Row) :
    q.selects spec row =
      (q.matching spec row && between (q.startNs.map wholeSecond) (q.endNs.map wholeSecond) row) := by
  unfold selects matching between
  rw [filters, holds_all_of_tests (filters_tests column plain).2]
  cases q.startNs <;> cases q.endNs <;> simp [Bool.and_assoc]

theorem answered_of_plain (column : spec.symbolCol = "Symbol") (plain : q.plain spec = true) :
    q.answered spec = q.bounds.all printable := by
  rw [answered, filters, compiles_all_of_tests (filters_tests column plain).2, Bool.and_true]

theorem rangeExact_of_same (column : spec.symbolCol = "Symbol") (plain : q.plain spec = true)
    (printed : q.bounds.all printable = true)
    (same : ∀ row ∈ table, q.matching spec row = true →
      between (q.startNs.map wholeSecond) (q.endNs.map wholeSecond) row =
        between q.startNs q.endNs row) : q.RangeExact spec table := by
  have answered : q.answered spec = true := (answered_of_plain column plain).trans printed
  refine ⟨q.rows spec table, if_pos answered, ?_, rows_ordered q spec table⟩
  refine (List.perm_insertionSort _ _).trans (.of_eq (List.filter_congr ?_))
  intro row member
  rw [selects_of_plain column plain]
  cases matched : q.matching spec row with
  | false => rfl
  | true => rw [same row member matched]

theorem rangeExact_plain_iff (column : spec.symbolCol = "Symbol") (plain : q.plain spec = true) :
    q.RangeExact spec table ↔ q.bounds.all printable = true ∧
      ∀ row ∈ table, q.matching spec row = true →
        between (q.startNs.map wholeSecond) (q.endNs.map wholeSecond) row =
          between q.startNs q.endNs row := by
  constructor
  · rintro ⟨rows, returned, perm, _⟩
    unfold rangeRows at returned
    split at returned
    next answered =>
      cases returned
      rw [answered_of_plain column plain] at answered
      refine ⟨answered, ?_⟩
      intro row member matched
      have same := perm.mem_iff (a := row)
      rw [mem_rows, List.mem_filter, selects_of_plain column plain, matched] at same
      simpa [member] using same
    next => cases returned
  · rintro ⟨printed, same⟩
    exact rangeExact_of_same column plain printed same

theorem rangeExact_of_whole (column : spec.symbolCol = "Symbol") (plain : q.plain spec = true)
    (printed : q.bounds.all printable = true) (whole : ∀ ns ∈ q.bounds, ns % 1000000000 = 0)
    (table : List Row) : q.RangeExact spec table := by
  refine rangeExact_of_same column plain printed ?_
  intro row _ _
  have starts : q.startNs.map wholeSecond = q.startNs := by
    cases start : q.startNs with
    | none => rfl
    | some ns => rw [Option.map_some, wholeSecond_eq_self (whole ns (by simp [bounds, start]))]
  have ends : q.endNs.map wholeSecond = q.endNs := by
    cases end_ : q.endNs with
    | none => rfl
    | some ns => rw [Option.map_some, wholeSecond_eq_self (whole ns (by simp [bounds, end_]))]
  rw [starts, ends]

end Languages

section Requests

variable [Uppercase] {q : Query} {spec : SchemaSpec}

theorem plain_of_compiles (column : spec.symbolCol = "Symbol")
    (all : ∀ text ∈ q.filters spec, @compiles equalityTests text = true) : q.plain spec = true := by
  refine plainNames_iff.mpr ⟨?_, ?_⟩
  · intro inside
    obtain ⟨col, value, tested⟩ := compiles_equalityTests.mp (all _ List.mem_cons_self)
    rw [rangeSymbolFilter_eq column] at tested
    exact not_equalityTest_quoted (by decide) (by decide) inside tested
  · intro name given shown inside
    have some_ : name ≠ "" := by
      rintro rfl
      cases inside
    have member : "Exchange == `" ++ upper name ++ "`" ∈ q.filters spec := by
      rw [filters, given, exchangeFilters_given some_ shown]
      simp
    obtain ⟨col, value, tested⟩ := compiles_equalityTests.mp (all _ member)
    exact not_equalityTest_quoted (by decide) (by decide) ((backtick_mem_upper name).mpr inside)
      (exchange_text _ ▸ tested)

-- The names have no backtick: otherwise there is a server that refuses the filters. Then the rows are
-- exact, whatever the server makes of other texts, if the bounds are printed and no row that is asked
-- for is between them on one side of the printing only.
theorem rangeExact_iff {provider dataSchema : String}
    (registered : schemas provider dataSchema = some spec) (q : Query) (table : List Row) :
    (∀ _ : QueryLanguage, RangeExact q spec table) ↔
      q.plain spec = true ∧ q.bounds.all printable = true ∧
        ∀ row ∈ table, q.matching spec row = true →
          between (q.startNs.map wholeSecond) (q.endNs.map wholeSecond) row =
            between q.startNs q.endNs row := by
  have column := symbolCol_of_registered registered
  constructor
  · intro exact_
    have plain : q.plain spec = true := by
      obtain ⟨rows, returned, _⟩ := exact_ equalityTests
      unfold rangeRows at returned
      split at returned
      next answered =>
        have both := Bool.and_eq_true_iff.mp answered
        exact plain_of_compiles column (List.all_eq_true.mp both.2)
      next => cases returned
    exact ⟨plain, (@rangeExact_plain_iff _ equalityTests _ _ _ column plain).mp (exact_ _)⟩
  · rintro ⟨plain, printed, same⟩ language
    exact rangeExact_of_same column plain printed same

end Requests

attribute [local instance] asciiUppercase

-- A trade in the first half of a second, asked for from the middle of it.
def halfSecond : Row :=
  { time := 1700000000250000000, cells := [("Symbol", .str "BTCUSDT"), ("TradeID", .int 1)]
    distinct := by decide }

theorem rangeExact_from_second :
    plain { symbol := "BTCUSDT" } binanceTrades = true ∧ ∀ _ : QueryLanguage,
      RangeExact { symbol := "BTCUSDT", startNs := some 1700000000000000000 } binanceTrades
        [halfSecond] := by
  have registered : schemas "binance" "trades" = some binanceTrades := rfl
  exact ⟨by decide, (rangeExact_iff registered _ _).mpr ⟨by decide, by decide +kernel,
    by decide +kernel⟩⟩

theorem range_starts_early :
    ¬ ∃ _ : QueryLanguage,
      RangeExact { symbol := "BTCUSDT", startNs := some 1700000000500000000 } binanceTrades
        [halfSecond] := by
  rintro ⟨language, exact_⟩
  have column : binanceTrades.symbolCol = "Symbol" := rfl
  have same := ((rangeExact_plain_iff column (by decide)).mp exact_).2 halfSecond
    List.mem_cons_self (by decide)
  revert same
  decide +kernel

end Query

end DeepFeeder
