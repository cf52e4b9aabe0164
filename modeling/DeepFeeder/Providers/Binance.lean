import DeepFeeder.Core.Values

set_option autoImplicit false

namespace DeepFeeder

structure ExchangeTrade where
  id : Int
  price : String
  qty : String
  time : Int
  isBuyerMaker : Bool

def ExchangeTrade.row (t : ExchangeTrade) : Payload :=
  [("id", .int t.id), ("price", .str t.price), ("qty", .str t.qty), ("time", .int t.time),
    ("isBuyerMaker", .bool t.isBuyerMaker)]

structure Exchange where
  trades : String → List ExchangeTrade
  ascending : ∀ symbol, (trades symbol).Pairwise fun a b => a.id < b.id

/-- The outcome of one `requests.get`: status 200 with at most `n` of the trades asked for, another
status, or an exception of `requests`. -/
inductive Attempt where
  | ok (n : Nat)
  | status (code : Nat)
  | requestException

def maxRetries : Nat := 5

-- How many trades the first answer with status 200 may hold.
def request (attempts : Nat → Attempt) : Option Nat :=
  (List.range maxRetries).findSome? fun i =>
    match attempts i with
    | .ok n => some n
    | .status _ | .requestException => none

namespace Exchange

variable [Uppercase]

def tradesFrom (exchange : Exchange) (symbol : String) (fromId : Int) : List ExchangeTrade :=
  (exchange.trades (upper symbol)).filter fun t => decide (fromId ≤ t.id)

def getTrades (exchange : Exchange) (attempts : Nat → Attempt) (symbol : String)
    (fromId limit : Int) : List Payload :=
  match request attempts with
  | none => []
  | some n => ((exchange.tradesFrom symbol fromId).take (min n limit.toNat)).map ExchangeTrade.row

end Exchange

def textOf : Value → Option String
  | .str s => some s
  | _ => none

/-- The tick of a message of the trade stream; none where the conversion raises. Symbols are strings
there. -/
def tradeJsonToTick (msg : Payload) : Option Tick := do
  let symbol ← (msg.lookup "s").bind textOf
  let tsMs ← (msg.lookup "T").bind pyInt
  let seq ← (msg.lookup "t").bind pyInt
  let price ← (msg.lookup "p").bind pyFloat
  let qty ← (msg.lookup "q").bind pyFloat
  let buyer ← pyInt ((msg.lookup "b").getD (.int 0))
  let seller ← pyInt ((msg.lookup "a").getD (.int 0))
  let isBuyerMaker := (msg.lookup "m").getD (.bool false)
  some
    { provider := "binance", stream := "trades", symbol, tsNs := tsMs * 1000000, seq := some seq
      payload :=
        [("Price", .ofFloat price), ("Quantity", .ofFloat qty), ("BuyerID", .int buyer),
          ("SellerID", .int seller), ("IsBuyerMaker", .bool isBuyerMaker.truthy)] }

def tradeColumns : List (String × Kind) :=
  [("Price", .float), ("Quantity", .float), ("BuyerID", .int), ("SellerID", .int),
    ("IsBuyerMaker", .bool)]

theorem tradeJsonToTick_typed {msg : Payload} {tick : Tick} (parsed : tradeJsonToTick msg = some tick) :
    Typed tradeColumns tick.payload := by
  unfold tradeJsonToTick at parsed
  simp only [Option.bind_eq_bind, Option.bind_eq_some_iff, Option.some.injEq] at parsed
  obtain ⟨_, _, _, _, _, _, price, _, qty, _, _, _, _, _, rfl⟩ := parsed
  exact .cons ⟨rfl, .inr (kind_ofFloat price)⟩ <| .cons ⟨rfl, .inr (kind_ofFloat qty)⟩ <|
    .cons ⟨rfl, .inr rfl⟩ <| .cons ⟨rfl, .inr rfl⟩ <| .cons ⟨rfl, .inr rfl⟩ .nil

def restTsNs (r : Payload) : Option Int :=
  match (field r "time").or ((field r "T").or ((field r "tradeTime").or (field r "timestamp"))) with
  | .none => some 0
  | ts => (pyInt ts).map (· * 1000000)

-- `int(d.get("id") or d.get("t") or d.get("tradeId") or 0)`.
def tradeId (d : Payload) : Option Int :=
  pyInt ((field d "id").or ((field d "t").or ((field d "tradeId").or (.int 0))))

theorem int_or (n : Int) (other : Value) :
    (Value.int n).or other = if n = 0 then other else .int n := by
  by_cases zero : n = 0
  · simp [Value.or, Value.truthy, zero]
  · simp [Value.or, Value.truthy, zero]

theorem none_or (other : Value) : Value.none.or other = other := rfl

theorem field_row (t : ExchangeTrade) :
    field t.row "id" = .int t.id ∧ field t.row "t" = .none ∧ field t.row "tradeId" = .none :=
  ⟨rfl, rfl, rfl⟩

theorem tradeId_row (t : ExchangeTrade) : tradeId t.row = some t.id := by
  obtain ⟨id, t', tradeId'⟩ := field_row t
  unfold tradeId
  rw [id, t', tradeId', none_or, none_or, int_or]
  split
  next zero => rw [zero]; rfl
  next => rfl

variable [Uppercase]

def restSymbol (r : Payload) (symbol : String) : Option String :=
  match (Value.str symbol).or ((field r "symbol").or ((field r "s").or (.str ""))) with
  | .str s => some (upper s)
  | _ => none

-- `float(value) if value is not None else 0.0`.
def floatOrZero : Value → Option PyFloat
  | .none => some (.finite 0)
  | value => pyFloat value

/-- The tick of a REST row; none where the conversion raises. -/
def restTradeJsonToTick (r : Payload) (symbol : String) : Option Tick := do
  let tid ← pyInt ((field r "id").or ((field r "tradeId").or (field r "t")))
  let tsNs ← restTsNs r
  let sym ← restSymbol r symbol
  let price ← floatOrZero ((field r "price").or (field r "p"))
  let qty ← floatOrZero ((field r "qty").or (field r "q"))
  let buyer ← pyInt ((r.lookup "b").getD (.int 0))
  let seller ← pyInt ((r.lookup "a").getD (.int 0))
  let isBuyerMaker := (field r "isBuyerMaker").or ((r.lookup "m").getD (.bool false))
  some
    { provider := "binance", stream := "trades", symbol := sym, tsNs, seq := some tid
      payload :=
        [("Price", .ofFloat price), ("Quantity", .ofFloat qty), ("BuyerID", .int buyer),
          ("SellerID", .int seller), ("IsBuyerMaker", .bool isBuyerMaker.truthy)] }

theorem restTradeJsonToTick_seq {t : ExchangeTrade} {symbol : String} {tick : Tick}
    (parsed : restTradeJsonToTick t.row symbol = some tick) : tick.seq = some t.id := by
  obtain ⟨id, t', tradeId'⟩ := field_row t
  unfold restTradeJsonToTick at parsed
  simp only [Option.bind_eq_bind, Option.bind_eq_some_iff, Option.some.injEq] at parsed
  obtain ⟨tid, isId, _, _, _, _, _, _, _, _, _, _, _, _, rfl⟩ := parsed
  rw [id, t', tradeId', none_or, int_or] at isId
  split at isId
  · cases isId
  · exact isId.symm

end DeepFeeder
