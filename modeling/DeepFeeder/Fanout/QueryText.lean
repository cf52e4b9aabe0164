import DeepFeeder.Fanout.Core
import DeepFeeder.Fanout.Snapshot

set_option autoImplicit false

namespace DeepFeeder

/-- The filters of `snapshot_range`; `strftime` prints a bound. -/
def rangeFilters [Uppercase] (strftime : Int → String) (spec : SchemaSpec) (timeCol : String)
    (q : Query) : List String :=
  q.filters spec ++
    (if spec.cols.contains "IsEmpty" then ["IsEmpty == false"] else []) ++
    (q.startNs.toList.map fun ns =>
      timeCol ++ " >= Instant.parse(\"" ++ strftime ns ++ "\")") ++
    q.endNs.toList.map fun ns => timeCol ++ " <= Instant.parse(\"" ++ strftime ns ++ "\")"

def wherever [QueryLanguage] (filters : List String) (table : List Row) : List Row :=
  table.filter fun row => filters.all fun text => holds text row

/-- Each filter made from the request is the equality test it is there for, and whatever the rest of
the language does, a subscription and a snapshot have rows of the symbol only. -/
structure FiltersTest [Uppercase] (spec : SchemaSpec) (q : Query) : Prop where
  listener : List.Forall₂ (fun text test => EqualityTest text test.1 test.2)
    (listenerView spec q.symbol q.exchange).filters (tests spec q.symbol q.exchange)
  range : List.Forall₂ (fun text test => EqualityTest text test.1 test.2) (q.filters spec)
    (tests spec q.symbol q.exchange)
  subscribed : ∀ [QueryLanguage] (table : List Row),
    ∀ row ∈ wherever (listenerView spec q.symbol q.exchange).filters table,
      (row.get spec.symbolCol).isStr q.symbol = true
  snapshot : ∀ [QueryLanguage] (strftime : Int → String) (timeCol : String) (table : List Row),
    ∀ row ∈ wherever (rangeFilters strftime spec timeCol q) table,
      (row.get spec.symbolCol).isStr q.symbol = true

variable {spec : SchemaSpec} {symbol : String}

theorem wherever_symbol [QueryLanguage] {text : String} {others : List String} {table : List Row}
    (tested : EqualityTest text spec.symbolCol symbol) :
    ∀ row ∈ wherever (text :: others) table, (row.get spec.symbolCol).isStr symbol = true := by
  intro row member
  have all := (List.mem_filter.mp member).2
  rw [List.all_cons, Bool.and_eq_true, holds_of_test tested] at all
  exact all.1

theorem filtersTest_iff [Uppercase] {provider dataSchema : String}
    (registered : schemas provider dataSchema = some spec) (q : Query) :
    FiltersTest spec q ↔ backtick ∉ q.symbol.toList ∧
      ∀ exchange, q.exchange = some exchange → spec.cols.contains "Exchange" = true →
        backtick ∉ exchange.toList := by
  have column := symbolCol_of_registered registered
  rw [← exchangeFilters_test_iff spec q.symbol]
  constructor
  · intro quoted
    obtain ⟨symbolTest, exchangeTests⟩ := List.forall₂_cons.mp quoted.listener
    exact ⟨(symbolFilterExpr_test_iff column).mp symbolTest, exchangeTests⟩
  · rintro ⟨plain, exchangeTests⟩
    have listener := (symbolFilterExpr_test_iff column).mpr plain
    have range := (rangeSymbolFilter_test_iff column).mpr plain
    exact
      { listener := .cons listener exchangeTests
        range := .cons range exchangeTests
        subscribed := fun _ => wherever_symbol listener
        snapshot := fun _ _ _ => wherever_symbol range }

attribute [local instance] asciiUppercase

theorem filtersTest_plain :
    FiltersTest tradingviewOhlcv1m { symbol := "AAPL", exchange := some "nasdaq" } := by
  have registered : schemas "tradingview" "ohlcv_1m" = some tradingviewOhlcv1m := rfl
  refine (filtersTest_iff registered { symbol := "AAPL", exchange := some "nasdaq" }).mpr ⟨by decide, ?_⟩
  rintro exchange chosen _
  cases chosen
  decide

-- The symbol closes its literal and goes on with a disjunction.
theorem symbol_breaks_out :
    ¬ FiltersTest binanceTrades { symbol := "X` || Symbol==`BTCUSDT" } := by
  intro quoted
  obtain ⟨⟨code, split, _⟩, _⟩ := List.forall₂_cons.mp quoted.listener
  have parts : (QuotedText.pieces backtick
      (symbolFilterExpr binanceTrades "X` || Symbol==`BTCUSDT").toList).length = 4 := by decide
  rw [split] at parts
  cases parts

end DeepFeeder
