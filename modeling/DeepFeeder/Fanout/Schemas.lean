import DeepFeeder.Fanout.Listener

set_option autoImplicit false

namespace DeepFeeder

def binanceOhlcvFilledSchemaCols : List String :=
  ["Timestamp", "Symbol", "BarId", "Open", "High", "Low", "Close", "Volume", "Trades", "Vwap",
    "BuyerMakerCount", "IsEmpty"]

def binanceOhlcv1m : SchemaSpec :=
  { symbolCol := "Symbol", cols := binanceOhlcvFilledSchemaCols, binPeriodMinutes := some 1 }

def binanceOhlcv5m : SchemaSpec :=
  { symbolCol := "Symbol", cols := binanceOhlcvFilledSchemaCols, binPeriodMinutes := some 5 }

def tradingviewQuotes : SchemaSpec :=
  { symbolCol := "Symbol"
    cols := ["LpTime", "Symbol", "LastPrice", "Bid", "Ask", "Volume", "Change", "ChangePct",
      "VolDelta"]
    binPeriodMinutes := none }

def tradingviewOhlcv5m : SchemaSpec := { tradingviewOhlcv1m with binPeriodMinutes := some 5 }

def schemas (provider dataSchema : String) : Option SchemaSpec :=
  match provider, dataSchema with
  | "binance", "trades" => some binanceTrades
  | "binance", "ohlcv_1m" => some binanceOhlcv1m
  | "binance", "ohlcv_5m" => some binanceOhlcv5m
  | "tradingview", "quotes" => some tradingviewQuotes
  | "tradingview", "ohlcv_1m" => some tradingviewOhlcv1m
  | "tradingview", "ohlcv_5m" => some tradingviewOhlcv5m
  | _, _ => none

def schemaItems : List (String × String × SchemaSpec) :=
  [("binance", "trades", binanceTrades), ("binance", "ohlcv_1m", binanceOhlcv1m),
    ("binance", "ohlcv_5m", binanceOhlcv5m), ("tradingview", "quotes", tradingviewQuotes),
    ("tradingview", "ohlcv_1m", tradingviewOhlcv1m), ("tradingview", "ohlcv_5m", tradingviewOhlcv5m)]

theorem mem_schemaItems {provider dataSchema : String} {spec : SchemaSpec}
    (registered : schemas provider dataSchema = some spec) :
    (provider, dataSchema, spec) ∈ schemaItems := by
  unfold schemas at registered
  split at registered
  all_goals first
    | simp only [Option.some.injEq] at registered
      subst registered
      simp [schemaItems]
    | cases registered

theorem symbolCol_of_registered {provider dataSchema : String} {spec : SchemaSpec}
    (registered : schemas provider dataSchema = some spec) : spec.symbolCol = "Symbol" := by
  have all : ∀ item ∈ schemaItems, item.2.2.symbolCol = "Symbol" := by decide
  exact all _ (mem_schemaItems registered)

end DeepFeeder
