import DeepFeeder.Shared.Dict
import DeepFeeder.Core.Values

set_option autoImplicit false

namespace DeepFeeder

/-- What is left open of Python: the float that a number is rounded to, the floats that there are, and
the text of a value that is not a string. -/
structure Python where
  round : Rat → PyFloat
  reads : PyFloat → Bool
  text : Value → String

namespace Python

variable (py : Python)

def rounded : PyFloat → PyFloat
  | .finite q => py.round q
  | other => other

-- `float(value)`; none where it raises, as on an integer that is too large.
def toFloat (value : Value) : Option PyFloat :=
  Option.filter py.reads <|
    match value with
    | .int n => match py.round n with
        | .inf _ => none
        | q => some q
    | .str s => (Numeral.parseFloat s).map py.rounded
    | value => pyFloat value

def sub : PyFloat → PyFloat → PyFloat
  | .finite a, .finite b => py.round (a - b)
  | .nan, _ | _, .nan => .nan
  | .inf negative, .inf other => if negative = other then .nan else .inf negative
  | .inf negative, .finite _ => .inf negative
  | .finite _, .inf negative => .inf !negative

end Python

def PyFloat.isPositive : PyFloat → Bool
  | .finite q => 0 < q
  | .inf negative => !negative
  | .nan => false

def ofFloat : Option PyFloat → Value
  | none => .none
  | some q => .ofFloat q

def stripText (s : String) : String := String.ofList (Numeral.strip s.toList)

def splitExchangeSymbol [Uppercase] (raw : String) : Option String × String :=
  let letters := Numeral.strip raw.toList
  let first := letters.takeWhile (· ≠ ':')
  match letters.drop first.length with
  | [] => (none, upper (String.ofList letters))
  | _ :: rest => (some (upper (String.ofList first)), upper (String.ofList rest))

-- `f"{exch}:{sym}" if exch else sym`.
def subscribeKey : Option String × String → String
  | (none, sym) | (some "", sym) => sym
  | (some exch, sym) => exch ++ ":" ++ sym

structure SymState where
  lpTimeNs : Option Int := none
  lastPrice : Option PyFloat := none
  bid : Option PyFloat := none
  ask : Option PyFloat := none
  volume : Option PyFloat := none
  change : Option PyFloat := none
  changePct : Option PyFloat := none
  lastVolume : Option PyFloat := none

structure QuoteSub where
  exchange : Option String
  symbol : String
  st : SymState := {}

variable (py : Python)

-- `int(float(ts_seconds) * 1_000_000_000)`.
def tsSToNs (tsSeconds : Value) : Option Int :=
  (py.toFloat tsSeconds).bind fun seconds =>
    match seconds with
    | .finite q => pyInt (.ofFloat (py.round (q * 1000000000)))
    -- `int` raises on an infinity and on NaN.
    | .inf _ | .nan => none

namespace SymState

-- A time that cannot be read is forgotten; without one the last is used again.
def quoteTime (st : SymState) (v : Payload) (now : Int) : Option Int :=
  match field v "lp_time" with
  | .none => some (st.lpTimeNs.getD now)
  | lpTime => tsSToNs py lpTime

-- A value that is missing, null or cannot be read leaves the last one.
def latest (v : Payload) (key : String) (last : Option PyFloat) : Option PyFloat :=
  match field v key with
  | .none => last
  | value => (py.toFloat value).or last

def refresh (st : SymState) (v : Payload) (now : Int) : SymState :=
  { st with
    lpTimeNs := st.quoteTime py v now
    lastPrice := latest py v "lp" st.lastPrice
    bid := latest py v "bid" st.bid
    ask := latest py v "ask" st.ask
    volume := latest py v "volume" st.volume
    change := latest py v "ch" st.change
    changePct := latest py v "chp" st.changePct }

def volDelta (st : SymState) : Option PyFloat :=
  st.volume.map fun volume =>
    match st.lastVolume with
    | none => .finite 0
    | some last => let d := py.sub volume last; if d.isPositive then d else .finite 0

def keepVolume (st : SymState) : SymState :=
  { st with lastVolume := st.volume.or st.lastVolume }

def material (st : SymState) (volDelta : Option PyFloat) : Bool :=
  st.lastPrice.isSome || st.bid.isSome || st.ask.isSome || (volDelta.any PyFloat.isPositive)

def quote (st : SymState) (v : Payload) : Payload :=
  [("lp_time", field v "lp_time"), ("lp", ofFloat st.lastPrice), ("bid", ofFloat st.bid),
    ("ask", ofFloat st.ask), ("volume", ofFloat st.volume), ("ch", ofFloat st.change),
    ("chp", ofFloat st.changePct)]

end SymState

def optFloat : Value → Value
  | .none => .none
  | value => ofFloat (py.toFloat value)

def tvQuoteWsToTick [Uppercase] (exchange : Option String) (symbolRaw : String) (v : Payload)
    (tsNsOverride : Option Int) (volDelta : PyFloat) : Option Tick :=
  let tsNs := match tsNsOverride, field v "lp_time" with
    | some tsNs, _ => some tsNs
    | none, .none => none
    | none, lpTime => tsSToNs py lpTime
  tsNs.map fun tsNs =>
    { provider := "tradingview", stream := "quotes", symbol := upper symbolRaw, tsNs, seq := none
      isFinal := false
      payload :=
        [("exchange", .str (upper (exchange.getD ""))), ("last_price", optFloat py (field v "lp")),
          ("bid", optFloat py (field v "bid")), ("ask", optFloat py (field v "ask")),
          ("volume", optFloat py (field v "volume")), ("change", optFloat py (field v "ch")),
          ("change_pct", optFloat py (field v "chp")), ("vol_delta", .ofFloat volDelta)] }

def quoteColumns : List (String × Kind) :=
  [("exchange", .str), ("last_price", .float), ("bid", .float), ("ask", .float), ("volume", .float),
    ("change", .float), ("change_pct", .float), ("vol_delta", .float)]

theorem optFloat_kind (value : Value) :
    (optFloat py value).kind = .none ∨ (optFloat py value).kind = .float := by
  have read (q : Option PyFloat) : (ofFloat q).kind = .none ∨ (ofFloat q).kind = .float := by
    cases q with
    | none => exact .inl rfl
    | some q => exact .inr (kind_ofFloat q)
  unfold optFloat
  split
  next => exact .inl rfl
  next => exact read _

theorem tvQuoteWsToTick_typed [Uppercase] {exchange : Option String} {symbolRaw : String}
    {v : Payload} {tsNsOverride : Option Int} {volDelta : PyFloat} {tick : Tick}
    (made : tvQuoteWsToTick py exchange symbolRaw v tsNsOverride volDelta = some tick) :
    Typed quoteColumns tick.payload := by
  obtain ⟨tsNs, _, rfl⟩ := Option.map_eq_some_iff.mp made
  exact .cons ⟨rfl, .inr rfl⟩ <| .cons ⟨rfl, optFloat_kind py _⟩ <| .cons ⟨rfl, optFloat_kind py _⟩ <|
    .cons ⟨rfl, optFloat_kind py _⟩ <| .cons ⟨rfl, optFloat_kind py _⟩ <|
    .cons ⟨rfl, optFloat_kind py _⟩ <| .cons ⟨rfl, optFloat_kind py _⟩ <|
    .cons ⟨rfl, .inr (kind_ofFloat volDelta)⟩ .nil

structure TvQuotes where
  subs : Dict String QuoteSub

namespace TvQuotes

def init [Uppercase] (symbols : List String) : TvQuotes where
  subs := symbols.foldl (fun subs s =>
    let (exch, sym) := splitExchangeSymbol (stripText s)
    subs.set (subscribeKey (exch, sym)) { exchange := exch, symbol := sym }) ∅

-- `str(it.get("n", "")).strip()`.
def subKey (it : Payload) : String :=
  match it.lookup "n" with
  | none => ""
  | some (.str s) => stripText s
  | some n => stripText (py.text n)

def subOf (producer : TvQuotes) (it : Payload) : Option QuoteSub :=
  if subKey py it = "" then none else producer.subs.lookup (subKey py it)

def update [Uppercase] (sub : QuoteSub) (v : Payload) (now : Int) : Option Tick × SymState :=
  let st := sub.st.refresh py v now
  let volDelta := st.volDelta py
  let tick :=
    if st.material volDelta then
      tvQuoteWsToTick py sub.exchange sub.symbol (st.quote v) st.lpTimeNs (volDelta.getD (.finite 0))
    else none
  (tick, st.keepVolume)

/-- One turn of the loop of `_handle_qsd`; none where it raises, with nothing changed. -/
def handleItem [Uppercase] (producer : TvQuotes) (it : Value) (now : Int) :
    Option (Option Tick × TvQuotes) :=
  match it with
  | .dict it =>
      match producer.subOf py it with
      | none => some (none, producer)
      | some sub =>
          match (field it "v").or (.dict []) with
          | .dict v =>
              let (tick, st) := update py sub v now
              some (tick, { subs := producer.subs.set (subKey py it) { sub with st } })
          | _ => none
  | _ => none

theorem update_typed [Uppercase] {sub : QuoteSub} {v : Payload} {now : Int} {tick : Tick}
    (made : (update py sub v now).1 = some tick) : Typed quoteColumns tick.payload := by
  unfold update at made
  simp only at made
  split at made
  · exact tvQuoteWsToTick_typed py made
  · cases made

theorem handleItem_typed [Uppercase] {producer next : TvQuotes} {it : Value} {now : Int}
    {tick : Tick}
    (handled : producer.handleItem py it now = some (some tick, next)) :
    Typed quoteColumns tick.payload := by
  unfold handleItem at handled
  split at handled
  · split at handled
    · cases handled
    · split at handled
      · rw [Option.some.injEq, Prod.mk.injEq] at handled
        exact update_typed py handled.1
      · cases handled
  · cases handled

-- The loop ends at the first update that raises.
def handleItems [Uppercase] : TvQuotes → List (Value × Int) → List Tick × TvQuotes
  | producer, [] => ([], producer)
  | producer, (it, now) :: rest =>
      match producer.handleItem py it now with
      | none => ([], producer)
      | some (tick, next) =>
          let later := handleItems next rest
          (tick.toList ++ later.1, later.2)

end TvQuotes

/-- A `qsd` message, and the time at which each of its updates is handled. -/
structure Qsd where
  obj : Payload
  clock : Nat → Int

namespace Qsd

-- Where `p` or its second item has another type, nothing is handled: the code returns or raises.
def updates (obj : Payload) : List Value :=
  match (obj.lookup "p").getD (.list []) with
  | .list (_ :: .dict update :: _) => [.dict update]
  | .list (_ :: .list updates :: _) => updates
  | _ => []

def items (message : Qsd) : List (Value × Int) :=
  (updates message.obj).zipIdx.map fun entry => (entry.1, message.clock entry.2)

end Qsd

namespace TvQuotes

def handleQsd [Uppercase] (producer : TvQuotes) (message : Qsd) : List Tick × TvQuotes :=
  producer.handleItems py message.items

def handleAll [Uppercase] : TvQuotes → List Qsd → List Tick × TvQuotes
  | producer, [] => ([], producer)
  | producer, message :: rest =>
      let now := producer.handleQsd py message
      let later := handleAll now.2 rest
      (now.1 ++ later.1, later.2)

def exactFloats : Python := { round := .finite, reads := fun _ => true, text := fun _ => "" }

end TvQuotes

end DeepFeeder
