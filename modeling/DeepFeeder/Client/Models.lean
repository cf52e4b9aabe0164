import DeepFeeder.Core.Values
import DeepFeeder.Shared.IsoText
import DeepFeeder.Fanout.RuntimeBridge

set_option autoImplicit false

namespace DeepFeeder.Client

open IsoText (DateTime)

-- What `datetime.now(timezone.utc)` returns at a time in microseconds.
def utc (micros : Int) : DateTime := { local_ := micros, offset := some 0 }

section Values

-- `datetime.fromtimestamp(t, tz=timezone.utc)`; none where the year is out of range.
def fromtimestamp (t : Rat) : Option DateTime :=
  let micros := timestampMicros t
  if Calendar.dayNumber ⟨1, 1, 1⟩ * IsoText.dayMicros ≤ micros ∧
      micros < Calendar.dayNumber ⟨10000, 1, 1⟩ * IsoText.dayMicros then some (utc micros)
  else none

def parseNumber (val : Rat) : Option (Option DateTime) :=
  let ns := if 0 ≤ val then val.floor else val.ceil
  if 10000000000000 < ns then (fromtimestamp (Binary64.round (ns / 1000000000))).map some
  else (fromtimestamp (Binary64.round val)).map some

def parseText (s : List Char) : Option DateTime :=
  if s.getLast? = some 'Z' then
    IsoText.fromisoformat (IsoText.replace "Z".toList "+00:00".toList s)
  else IsoText.fromisoformat s

/-- `_parse_ts`; none where it raises. A list or a dict is not printed as a time. -/
def parseTs : Value → Option (Option DateTime)
  | .none => some none
  | .bool b => parseNumber (if b then 1 else 0)
  | .int n => parseNumber n
  | .float q => parseNumber q
  -- `int` raises on these.
  | .inf _ | .nan => none
  | .str s => some (parseText s.toList)
  | .list _ | .dict _ => some none

-- What `float` does not read, `Decimal` does not either.
def coerceFloat (x : Value) : Option PyFloat := pyFloat x

def coerceInt (x : Value) : Option Int := pyInt x

def coerceBool : Value → Option Bool
  | .none => none
  | x => some x.truthy

end Values

structure Bar where
  provider : Value
  symbol : String
  timestamp : DateTime
  openPrice : Option PyFloat
  high : Option PyFloat
  low : Option PyFloat
  close : Option PyFloat
  volume : Option PyFloat
  exchange : Value
  barId : Option Int
  res : Value
  closed : Option Bool

structure Trade where
  provider : Value
  symbol : String
  timestamp : DateTime
  price : Option PyFloat
  quantity : Option PyFloat
  tradeId : Value
  exchange : Value
  isBuyerMaker : Option Bool
  buyerId : Value
  sellerId : Value

inductive TypedRow where
  | bar (bar : Bar)
  | trade (trade : Trade)

structure Envelope where
  version : Int
  phase : Value
  part : Value
  provider : Value
  schema : Value
  symbol : Value
  rows : List TypedRow
  rowType : Value
  seq : Option Int
  watermarkNs : Option Int
  rawMeta : Record

section Decoding

variable (print : Value → String) (now : Int)

def strOf : Value → String
  | .str s => s
  | .none => "None"
  | value => print value

def Bar.fromRow (provider : Value) (row : Record) : Option Bar := do
  let timestamp ← parseTs (row.get "Timestamp")
  return {
    provider
    symbol := strOf print (row.get "Symbol")
    timestamp := timestamp.getD (utc now)
    openPrice := coerceFloat (row.get "Open")
    high := coerceFloat (row.get "High")
    low := coerceFloat (row.get "Low")
    close := coerceFloat (row.get "Close")
    volume := coerceFloat (row.get "Volume")
    exchange := row.get "Exchange"
    barId := coerceInt (row.get "BarId")
    res := row.get "Res"
    closed := coerceBool (row.get "Closed") }

def Trade.fromRow (provider : Value) (row : Record) : Option Trade := do
  let timestamp ← parseTs
    (if (row.get "Timestamp").truthy then row.get "Timestamp" else row.get "Ts")
  return {
    provider
    symbol := strOf print (row.get "Symbol")
    timestamp := timestamp.getD (utc now)
    price := coerceFloat (row.get "Price")
    quantity := coerceFloat (row.get "Quantity")
    tradeId := row.get "TradeID"
    exchange := row.get "Exchange"
    isBuyerMaker := coerceBool (row.get "IsBuyerMaker")
    buyerId := row.get "BuyerID"
    sellerId := row.get "SellerID" }

def asDict : Value → Option Record
  | .dict items => some items
  | _ => none

def rowDicts (rows : Value) : Option (List Record) :=
  if rows.truthy then
    match rows with
    | .list items => items.mapM asDict
    | _ => none
  else some []

def metaDict (data : Value) : Option Record :=
  if data.truthy then asDict data else some []

def rowTypeOf (rowType schema : Value) : Option Value :=
  if rowType.truthy then some rowType
  else if schema.truthy then
    match schema with
    | .str name => some (.str (if "ohlcv_".toList.isPrefixOf name.toList then "bar" else "trade"))
    | _ => none
  else some (.str "trade")

def fromRow (rowType provider : Value) (row : Record) : Option TypedRow :=
  if rowType.isStr "bar" then (Bar.fromRow print now provider row).map .bar
  else (Trade.fromRow print now provider row).map .trade

/-- `adapt_envelope`; none where it raises. A version that is too new is only warned of. -/
def adaptEnvelope (env : Record) : Option Envelope := do
  let version ← pyInt ((env.lookup "version").getD (.int 1))
  if version < 1 then none
  let rows ← rowDicts (env.get "rows")
  let data ← metaDict (env.get "meta")
  let rowType ← rowTypeOf (env.get "row_type") (env.get "data_schema")
  let parsed ← rows.mapM (fromRow print now rowType (env.get "provider"))
  return {
    version
    phase := if (env.get "phase").truthy then env.get "phase" else .str "live"
    part := env.get "part"
    provider := env.get "provider"
    schema := env.get "data_schema"
    symbol := env.get "symbol"
    rows := parsed
    rowType
    seq := coerceInt (data.get "seq")
    watermarkNs := coerceInt (env.get "watermark_ns")
    rawMeta := data }

end Decoding

theorem parseText_zulu {ns : Int} (near : (ns / 1000 / IsoText.dayMicros).natAbs < 120000) :
    parseText (IsoText.isoformat 'T' ns ++ "Z".toList) =
      if ns % 1000 = 0 then some (utc (ns / 1000)) else none := by
  have last : (IsoText.isoformat 'T' ns ++ "Z".toList).getLast? = some 'Z' := by simp
  unfold parseText
  rw [if_pos last, IsoText.replace_zulu, IsoText.fromisoformat_isoformat 'T' near]
  rfl

theorem parseText_offset {ns : Int} (sep : Char)
    (near : (ns / 1000 / IsoText.dayMicros).natAbs < 120000) :
    parseText (IsoText.isoformat sep ns ++ "+00:00".toList) =
      if ns % 1000 = 0 then some (utc (ns / 1000)) else none := by
  have last : ¬ (IsoText.isoformat sep ns ++ "+00:00".toList).getLast? = some 'Z' := by simp
  unfold parseText
  rw [if_neg last, IsoText.fromisoformat_isoformat sep near]
  rfl

end DeepFeeder.Client
