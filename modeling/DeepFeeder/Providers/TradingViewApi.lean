import DeepFeeder.Shared.Ranks
import DeepFeeder.Providers.TradingView

set_option autoImplicit false

namespace DeepFeeder.TvBars

structure Prices where
  open_ : Value
  high : Value
  low : Value
  close : Value
  volume : Value

/-- A row of the API; no datetime stands for `NaT`. -/
structure ApiRow where
  datetime : Option Int
  prices : Prices

structure ApiBar where
  datetime : Int
  prices : Prices

-- A frame without rows stands for none as well, and one without a needed column for an exception.
inductive ApiResult where
  | raised
  | frame (rows : List ApiRow)

/-- What one turn of the loop meets: the time, the answer of the API, and whether `bus.publish`
returns. -/
structure Response where
  now : Int
  result : ApiResult
  publishes : Bool

structure BarSettings where
  overlapBars : Int
  daysBackFull : Int

structure Feed where
  exchange : Option String
  symbol : String

abbrev Watermarks := Dict String (Option Int)

def Watermarks.get (wm : Watermarks) (symbol : String) : Option Int := (wm.lookup symbol).join

section Constructor

-- `s.split(":", 1)`, with nothing before the colon where there is none.
def parseSymbol (s : String) : Option String × String :=
  let first := s.toList.takeWhile (· ≠ ':')
  match s.toList.drop first.length with
  | [] => (none, s)
  | _ :: rest => (some (String.ofList first), String.ofList rest)

inductive ExchangeArg where
  | none
  | one (exchange : String)
  | list (exchanges : List String)

def exchangesError : String :=
  "exchange must be None/str/list[str] with same length as symbols"

def feeds (symbols : List String) : ExchangeArg → Except String (List Feed)
  | .none => .ok (symbols.map fun s => ⟨(parseSymbol s).1, (parseSymbol s).2⟩)
  | .one exchange => .ok (symbols.map fun s => ⟨some exchange, (parseSymbol s).2⟩)
  | .list exchanges =>
      if exchanges.length = symbols.length then
        .ok (List.zipWith (fun exchange s => ⟨some exchange, (parseSymbol s).2⟩) exchanges symbols)
      else .error exchangesError

-- The watermarks of `state` that are kept are those of the symbols, where they are not empty.
def initWatermarks (feeds : List Feed) (state : List (String × Option Int)) : Watermarks :=
  let wm : Watermarks := feeds.foldl (fun wm feed => wm.set feed.symbol none) ∅
  state.foldl (fun wm entry =>
    match entry.2 with
    | some v => if entry.1 ∈ wm then wm.set entry.1 (some v) else wm
    | none => wm) wm

end Constructor

def minute : Int := 60 * 1000000000

def day : Int := 24 * 60 * minute

def calcWindow (settings : BarSettings) (wm : Option Int) (now : Int) : Int × Int :=
  let start := match wm with
    | none => now - settings.daysBackFull * day
    | some wm => wm - settings.overlapBars * minute
  (start, now)

def within (rows : List ApiRow) (start end_ : Int) : List ApiBar :=
  rows.filterMap fun row => row.datetime.bind fun datetime =>
    if start ≤ datetime ∧ datetime ≤ end_ then some { datetime, prices := row.prices } else none

-- `values.iloc[i]`; none where it raises.
def iloc (values : List Int) (i : Int) : Option Int :=
  if 0 ≤ i then values[i.toNat]?
  else if -i ≤ values.length then values[values.length - (-i).toNat]?
  else none

def recentCutoff (settings : BarSettings) (wm : Option Int) (bars : List ApiBar) : Option Int :=
  let datetimes := bars.map ApiBar.datetime
  match wm with
  | none => datetimes.min?
  | some _ =>
      if settings.overlapBars < bars.length then
        iloc (datetimes.insertionSort (· ≤ ·)) (-settings.overlapBars)
      else datetimes.min?

def tickOf (feed : Feed) (bar : ApiBar) : Tick :=
  { provider := "tradingview", stream := "bars"
    symbol := subscribeKey (feed.exchange, feed.symbol)
    tsNs := bar.datetime, seq := none, isFinal := true
    payload :=
      [("exchange", match feed.exchange with | none => .none | some exchange => .str exchange),
        ("symbol", .str feed.symbol), ("open", bar.prices.open_), ("high", bar.prices.high),
        ("low", bar.prices.low), ("close", bar.prices.close), ("volume", bar.prices.volume)] }

def newer (latest : Option Int) (datetime : Int) : Option Int :=
  match latest with
  | none => some datetime
  | some latest => some (if latest < datetime then datetime else latest)

def toTicks (feed : Feed) (cutoff : Int) : Option Int → List ApiBar → List Tick × Option Int
  | latest, [] => ([], latest)
  | latest, bar :: rest =>
      if bar.datetime < cutoff then toTicks feed cutoff latest rest
      else
        let later := toTicks feed cutoff (newer latest bar.datetime) rest
        (tickOf feed bar :: later.1, later.2)

/-- What a turn publishes and its latest datetime; none where the turn ends before. -/
def attempt (settings : BarSettings) (feed : Feed) (wm : Option Int) (response : Response) :
    Option (List Tick × Option Int) :=
  match response.result with
  | .raised => none
  | .frame rows =>
      let (start, end_) := calcWindow settings wm response.now
      let bars := within rows start end_
      if bars.isEmpty then none
      else
        match recentCutoff settings wm bars with
        | none => none
        | some cutoff =>
            let (ticks, latest) := toTicks feed cutoff wm bars
            if ticks.isEmpty || !response.publishes then none else some (ticks, latest)

def turn (settings : BarSettings) (wm : Watermarks) (feed : Feed) (response : Response) :
    List Tick × Watermarks :=
  match attempt settings feed (wm.get feed.symbol) response with
  | none => ([], wm)
  | some (ticks, none) => (ticks, wm)
  | some (ticks, some latest) => (ticks, wm.set feed.symbol (some latest))

def runOnceBatch (settings : BarSettings) :
    Watermarks → List (Feed × Response) → List (List Tick) × Watermarks
  | wm, [] => ([], wm)
  | wm, (feed, response) :: rest =>
      let (ticks, next) := turn settings wm feed response
      let later := runOnceBatch settings next rest
      (ticks :: later.1, later.2)

section Specs

variable {settings : BarSettings} {feed : Feed} {wm : Watermarks}

theorem Watermarks.get_set {symbol other : String} {latest : Int} :
    Watermarks.get (wm.set symbol (some latest)) other =
      if other = symbol then some latest else wm.get other := by
  unfold Watermarks.get
  rw [Dict.lookup_set]
  split
  next => rfl
  next => rfl

theorem toTicks_eq (feed : Feed) (cutoff : Int) (latest : Option Int) (bars : List ApiBar) :
    let kept := bars.filter fun bar => cutoff ≤ bar.datetime
    toTicks feed cutoff latest bars =
      (kept.map (tickOf feed), (kept.map ApiBar.datetime).foldl newer latest) := by
  induction bars generalizing latest with
  | nil => rfl
  | cons bar rest ih =>
      unfold toTicks
      split
      next old =>
          rw [ih, List.filter_cons_of_neg (by simpa using old)]
      next recent =>
          rw [ih, List.filter_cons_of_pos (by simpa using recent)]
          rfl

theorem attempt_eq_some {last : Option Int} {response : Response} {ticks : List Tick}
    {latest : Option Int} (published : attempt settings feed last response = some (ticks, latest)) :
    ∃ rows cutoff, response.result = .frame rows ∧
      let window := calcWindow settings last response.now
      let bars := within rows window.1 window.2
      let kept := bars.filter fun bar => cutoff ≤ bar.datetime
      recentCutoff settings last bars = some cutoff ∧ kept ≠ [] ∧
        ticks = kept.map (tickOf feed) ∧ latest = (kept.map ApiBar.datetime).foldl newer last := by
  unfold attempt at published
  split at published
  next => cases published
  next rows result =>
      simp only at published
      split at published
      next => cases published
      next =>
          split at published
          next => cases published
          next cutoff isCutoff =>
              rw [toTicks_eq] at published
              simp only at published
              split at published
              next => cases published
              next some_ =>
                  obtain ⟨rfl, rfl⟩ := Prod.mk.inj (Option.some.inj published)
                  refine ⟨rows, cutoff, result, isCutoff, ?_, rfl, rfl⟩
                  intro none
                  rw [none] at some_
                  exact some_ rfl

theorem turn_spec (settings : BarSettings) (wm : Watermarks) (feed : Feed) (response : Response) :
    let last := wm.get feed.symbol
    let out := attempt settings feed last response
    (turn settings wm feed response).1 = (out.map Prod.fst).getD [] ∧
      ∀ symbol, (turn settings wm feed response).2.get symbol =
        if symbol = feed.symbol then ((out.bind Prod.snd).or last) else wm.get symbol := by
  intro last out
  have kept (symbol : String) :
      wm.get symbol = if symbol = feed.symbol then last else wm.get symbol := by
    split
    next same => rw [same]
    next => rfl
  unfold turn
  split
  next silent =>
      rw [show out = none from silent]
      exact ⟨rfl, kept⟩
  next ticks published =>
      rw [show out = some (ticks, none) from published]
      exact ⟨rfl, kept⟩
  next ticks latest published =>
      rw [show out = some (ticks, some latest) from published]
      exact ⟨rfl, fun symbol => Watermarks.get_set⟩

end Specs

section Batch

variable (settings : BarSettings)

theorem runOnceBatch_append (wm : Watermarks) (before after : List (Feed × Response)) :
    runOnceBatch settings wm (before ++ after) =
      let first := runOnceBatch settings wm before
      let second := runOnceBatch settings first.2 after
      (first.1 ++ second.1, second.2) := by
  induction before generalizing wm with
  | nil => rfl
  | cons item rest ih =>
      rw [List.cons_append]
      simp only [runOnceBatch, ih, List.cons_append]

theorem length_runOnceBatch (wm : Watermarks) (items : List (Feed × Response)) :
    (runOnceBatch settings wm items).1.length = items.length := by
  induction items generalizing wm with
  | nil => rfl
  | cons item rest ih =>
      simp only [runOnceBatch, List.length_cons, ih]

theorem runOnceBatch_at (wm : Watermarks) (before after : List (Feed × Response)) (feed : Feed)
    (response : Response) :
    (runOnceBatch settings wm (before ++ (feed, response) :: after)).1[before.length]? =
      some (turn settings (runOnceBatch settings wm before).2 feed response).1 := by
  rw [runOnceBatch_append]
  simp only [runOnceBatch]
  rw [List.getElem?_append_right (length_runOnceBatch settings wm before).le,
    length_runOnceBatch, Nat.sub_self]
  rfl

end Batch

end DeepFeeder.TvBars
