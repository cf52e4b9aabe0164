import DeepFeeder.Shared.NestedGroups
import DeepFeeder.Client.Models
import DeepFeeder.Providers.Binance
import DeepFeeder.Sinks.AllOrNothing

set_option autoImplicit false

namespace DeepFeeder.TradeColumns

open DhSink Fallible
open IsoText (DateTime)

section Instants

def inst (toJInstant : DateTime → Value) (ns : Int) : Option Value :=
  (Client.fromtimestamp (Binary64.round (ns / 1000000000))).map toJInstant

/-- The year of a time in milliseconds is from 1 to 9999, and the double nearest to it in seconds is no
more than half a microsecond away. -/
def Datable (ms : Int) : Prop :=
  (-62135596800000 ≤ ms ∧ ms < 253402300800000) ∧
    |Binary64.round (ms / 1000) - ms / 1000| ≤ 1 / 2000000

theorem round_close {ms : Int} (near : |(ms : Rat) / 1000| < Binary64.pow2 33) :
    |Binary64.round (ms / 1000) - ms / 1000| ≤ 1 / 2097152 := by
  have unit : Binary64.pow2 (33 - 54) = 1 / 2097152 := by decide +kernel
  exact unit ▸ Binary64.abs_round_sub_le near

theorem datable_of_near {ms : Int} (near : ms.natAbs < 2 ^ 33 * 1000)
    (year : -62135596800000 ≤ ms) : Datable ms := by
  have bound : Binary64.pow2 33 = 8589934592 := by decide +kernel
  have range : |(ms : Rat)| < 8589934592000 := by
    rw [← Int.cast_abs, Int.abs_eq_natAbs]
    exact_mod_cast near
  have close := round_close (show |(ms : Rat) / 1000| < Binary64.pow2 33 by
    rw [bound, abs_div, abs_of_pos (show (0 : Rat) < 1000 by norm_num)]
    linarith)
  exact ⟨by omega, close.trans (by norm_num)⟩

theorem abs_sub_wholeSeconds (t : Rat) : |t - (if t < 0 then t.ceil else t.floor : Int)| < 1 := by
  have low : ((t.floor : Int) : Rat) ≤ t := Int.floor_le t
  have high : t < (t.floor : Int) + 1 := Int.lt_floor_add_one t
  have above : t ≤ (t.ceil : Int) := Rat.le_ceil
  have under : ((t.ceil : Int) : Rat) < t + 1 := Rat.ceil_lt
  rw [abs_lt]
  split
  next => constructor <;> linarith
  next => constructor <;> linarith

theorem timestampMicros_of_near {ms : Int} (near : |(ms : Rat) / 1000| < Binary64.pow2 33) :
    timestampMicros (Binary64.round (ms / 1000)) = ms * 1000 := by
  have first := round_close near
  generalize Binary64.round (ms / 1000) = t at first
  have part := abs_sub_wholeSeconds t
  unfold timestampMicros
  simp only
  generalize (if t < 0 then t.ceil else t.floor : Int) = seconds at part
  have scaled : |(t - seconds) * 1000000| < Binary64.pow2 20 := by
    have bound : Binary64.pow2 20 = 1048576 := by decide +kernel
    rw [bound, abs_mul, abs_of_pos (show (0 : Rat) < 1000000 by norm_num)]
    linarith
  have second := Binary64.abs_round_sub_le scaled
  have whole : Binary64.roundHalfEven (Binary64.round ((t - seconds) * 1000000)) =
      ms * 1000 - seconds * 1000000 := by
    apply Binary64.roundHalfEven_eq
    have unit : Binary64.pow2 (20 - 54) = 1 / 17179869184 := by decide +kernel
    rw [abs_le] at first
    rw [unit, abs_le] at second
    push_cast
    rw [abs_lt]
    constructor <;> linarith
  rw [whole]
  omega

theorem timestampMicros_of_far {ms : Int} (far : Binary64.pow2 33 ≤ |(ms : Rat) / 1000|) :
    timestampMicros (Binary64.round (ms / 1000)) = ms * 1000 ↔
      |Binary64.round (ms / 1000) - ms / 1000| ≤ 1 / 2000000 := by
  have unit19 : Binary64.pow2 (-19) = 1 / 524288 := by decide +kernel
  have unit13 : Binary64.pow2 (-13) = 1 / 8192 := by decide +kernel
  obtain ⟨n, value⟩ := Binary64.round_multiple (a := -19) far
  rw [unit19] at value
  generalize Binary64.round (ms / 1000) = t at value
  have part := abs_sub_wholeSeconds t
  unfold timestampMicros
  simp only
  generalize (if t < 0 then t.ceil else t.floor : Int) = seconds at part
  have few : (n - seconds * 524288).natAbs < 524288 := by
    have below : |((n - seconds * 524288 : Int) : Rat)| < 524288 := by
      push_cast
      rw [abs_lt] at part ⊢
      constructor <;> linarith
    rw [← Int.cast_abs, Int.abs_eq_natAbs] at below
    exact_mod_cast below
  have lossless : Binary64.round ((t - seconds) * 1000000) = (t - seconds) * 1000000 := by
    have dyadic : (t - seconds) * 1000000 =
        (((n - seconds * 524288) * 15625 : Int) : Rat) * Binary64.pow2 (-13) := by
      rw [unit13, value]
      push_cast
      ring
    rw [dyadic]
    exact Binary64.round_dyadic (by omega) (-13)
  have micros : seconds * 1000000 + Binary64.roundHalfEven ((t - seconds) * 1000000) = ms * 1000 ↔
      Binary64.roundHalfEven ((t - seconds) * 1000000) = ms * 1000 - seconds * 1000000 := by
    omega
  rw [lossless, micros, Binary64.roundHalfEven_eq_iff (by omega), abs_le, abs_le]
  push_cast
  constructor
  next =>
      intro ⟨low, high⟩
      constructor <;> linarith
  next =>
      intro ⟨low, high⟩
      constructor <;> linarith

theorem fromtimestamp_iff (ms : Int) :
    Client.fromtimestamp (Binary64.round ((ms * 1000000 : Int) / 1000000000)) =
      some (Client.utc (ms * 1000)) ↔ Datable ms := by
  have seconds : ((ms * 1000000 : Int) : Rat) / 1000000000 = ms / 1000 := by
    push_cast
    ring
  have first : Calendar.dayNumber ⟨1, 1, 1⟩ * IsoText.dayMicros = -62135596800000000 := by
    decide +kernel
  have last : Calendar.dayNumber ⟨10000, 1, 1⟩ * IsoText.dayMicros = 253402300800000000 := by
    decide +kernel
  have micros : timestampMicros (Binary64.round (ms / 1000)) = ms * 1000 ↔
      |Binary64.round (ms / 1000) - ms / 1000| ≤ 1 / 2000000 := by
    by_cases near : |(ms : Rat) / 1000| < Binary64.pow2 33
    next =>
        exact iff_of_true (timestampMicros_of_near near) ((round_close near).trans (by norm_num))
    next => exact timestampMicros_of_far (not_lt.mp near)
  unfold Datable Client.fromtimestamp
  rw [seconds, ← micros]
  simp only [first, last]
  generalize timestampMicros (Binary64.round (ms / 1000)) = us
  split
  next inside =>
      have same : some (Client.utc us) = some (Client.utc (ms * 1000)) ↔ us = ms * 1000 := by
        simp [Client.utc]
      rw [same]
      omega
  next outside =>
      refine iff_of_false (by simp) fun ⟨range, same⟩ => outside ?_
      omega

end Instants

structure TradeValues where
  symbol : String
  tradeId : Int
  price : PyFloat
  quantity : PyFloat
  timeMs : Int
  buyerId : Int
  sellerId : Int
  isBuyerMaker : Bool

/-- A message of the stream, or a row of the REST API with the symbol it was asked for. -/
inductive TradeMessage where
  | ws (msg : Payload)
  | rest (r : Payload) (symbol : String)

def OneOf (r : Payload) (keys : List String) (value : Value) : Prop :=
  ∃ key ∈ keys, field r key = value ∧ ∀ other ∈ keys, other ≠ key → field r other = .none

def Optional (r : Payload) (key : String) (value absent : Value) : Prop :=
  r.lookup key = some value ∨ r.lookup key = none ∧ value = absent

structure WsShape (msg : Payload) (v : TradeValues) : Prop where
  symbol : msg.lookup "s" = some (.str v.symbol)
  tradeId : msg.lookup "t" = some (.int v.tradeId)
  time : msg.lookup "T" = some (.int v.timeMs)
  price : ∃ text, msg.lookup "p" = some (.str text) ∧ Numeral.parseFloat text = some v.price
  quantity : ∃ text, msg.lookup "q" = some (.str text) ∧ Numeral.parseFloat text = some v.quantity
  buyer : Optional msg "b" (.int v.buyerId) (.int 0)
  seller : Optional msg "a" (.int v.sellerId) (.int 0)
  maker : Optional msg "m" (.bool v.isBuyerMaker) (.bool false)

/-- A REST row with any of the fallback keys. -/
structure RestShape [Uppercase] (r : Payload) (symbol : String) (v : TradeValues) : Prop where
  symbol : symbol ≠ "" ∧ v.symbol = upper symbol
  tradeId : OneOf r ["id", "tradeId", "t"] (.int v.tradeId)
  time : OneOf r ["time", "T", "tradeTime", "timestamp"] (.int v.timeMs)
  price : ∃ text, OneOf r ["price", "p"] (.str text) ∧ Numeral.parseFloat text = some v.price
  quantity : ∃ text, OneOf r ["qty", "q"] (.str text) ∧ Numeral.parseFloat text = some v.quantity
  buyer : Optional r "b" (.int v.buyerId) (.int 0)
  seller : Optional r "a" (.int v.sellerId) (.int 0)
  maker : OneOf r ["isBuyerMaker", "m"] (.bool v.isBuyerMaker)

def TradeMessage.Means [Uppercase] : TradeMessage → TradeValues → Prop
  | .ws msg, v => WsShape msg v
  | .rest r symbol, v => RestShape r symbol v

def TradeMessage.toTick [Uppercase] : TradeMessage → Option Tick
  | .ws msg => tradeJsonToTick msg
  | .rest r symbol => restTradeJsonToTick r symbol

def meantRow (toJInstant : DateTime → Value) (v : TradeValues) : List Value :=
  [.str "trade", toJInstant (Client.utc (v.timeMs * 1000)), .str v.symbol, .int v.tradeId,
    .ofFloat v.price, .ofFloat v.quantity, .int v.buyerId, .int v.sellerId,
    toJInstant (Client.utc (v.timeMs * 1000)), .bool v.isBuyerMaker]

def written [Uppercase] (toJInstant : DateTime → Value) (messages : List TradeMessage) :
    Option (List (Write DhTable)) :=
  (messages.mapM TradeMessage.toTick).bind fun ticks =>
    let out := writeEnvelope (fun _ _ => false) (registerWriters (inst toJInstant))
      { batchId := 1, producedAtNs := 0, firstOffset := none, lastOffset := none, rows := ticks } []
    if out.raised then none else some out.log

def tickOf (v : TradeValues) : Tick :=
  { provider := "binance", stream := "trades", symbol := v.symbol, tsNs := v.timeMs * 1000000
    seq := some v.tradeId
    payload :=
      [("Price", .ofFloat v.price), ("Quantity", .ofFloat v.quantity), ("BuyerID", .int v.buyerId),
        ("SellerID", .int v.sellerId), ("IsBuyerMaker", .bool v.isBuyerMaker)] }

section Adapters

variable {r : Payload} {v : TradeValues}

theorem Optional.getD {key : String} {value absent : Value} (said : Optional r key value absent) :
    (r.lookup key).getD absent = value := by
  rcases said with found | ⟨missing, same⟩
  next => rw [found, Option.getD_some]
  next => rw [missing, Option.getD_none, same]

theorem truthy_bool (b : Bool) : (Value.bool b).truthy = b := rfl

theorem OneOf.or {key : String} {keys : List String} {value rest : Value}
    (only : OneOf r (key :: keys) value) (truthy : value.truthy = true)
    (later : OneOf r keys value → rest = value) : (field r key).or rest = value := by
  obtain ⟨own, member, here, others⟩ := only
  rcases List.mem_cons.mp member with same | further
  next =>
      rw [← same, here]
      exact if_pos truthy
  next =>
      by_cases same : own = key
      next =>
          rw [← same, here]
          exact if_pos truthy
      next =>
          rw [others key List.mem_cons_self (Ne.symm same), none_or]
          exact later ⟨own, further, here, fun other inside =>
            others other (List.mem_cons_of_mem _ inside)⟩

theorem OneOf.single {key : String} {value : Value} (only : OneOf r [key] value) :
    field r key = value := by
  obtain ⟨own, member, here, _⟩ := only
  rwa [List.mem_singleton.mp member] at here

theorem OneOf.falsy {key : String} {keys : List String} {value : Value} (only : OneOf r keys value)
    (zero : value.truthy = false) (member : key ∈ keys) : (field r key).truthy = false := by
  obtain ⟨own, _, here, others⟩ := only
  by_cases same : key = own
  next => rwa [same, here]
  next =>
      rw [others key member same]
      rfl

theorem OneOf.last {key : String} {keys : List String} {value : Value} (only : OneOf r keys value)
    (member : key ∈ keys) : field r key = value ∨ field r key = .none := by
  obtain ⟨own, _, here, others⟩ := only
  by_cases same : key = own
  next => exact .inl (same ▸ here)
  next => exact .inr (others key member same)

theorem toTick_ws [Uppercase] (shape : WsShape r v) :
    (TradeMessage.ws r).toTick = some (tickOf v) := by
  obtain ⟨price, isPrice, priceValue⟩ := shape.price
  obtain ⟨quantity, isQuantity, quantityValue⟩ := shape.quantity
  simp only [TradeMessage.toTick, tradeJsonToTick, shape.symbol, shape.tradeId, shape.time, isPrice,
    isQuantity, shape.buyer.getD, shape.seller.getD, shape.maker.getD, textOf, pyInt, pyFloat,
    priceValue, quantityValue, truthy_bool, Option.bind_eq_bind, Option.bind_some]
  rfl

-- An id of 0 is taken for a missing one, except under the last of the keys.
def TradeMessage.IdRead (v : TradeValues) : TradeMessage → Prop
  | .ws _ => True
  | .rest r _ => v.tradeId ≠ 0 ∨ field r "t" ≠ .none

theorem int_truthy {n : Int} : (Value.int n).truthy = true ↔ n ≠ 0 := by
  simp [Value.truthy]

theorem rest_id {n : Int} (only : OneOf r ["id", "tradeId", "t"] (.int n)) :
    let tid := pyInt ((field r "id").or ((field r "tradeId").or (field r "t")))
    (n ≠ 0 ∨ field r "t" ≠ .none → tid = some n) ∧
      (¬ (n ≠ 0 ∨ field r "t" ≠ .none) → tid = none) := by
  intro tid
  by_cases zero : n = 0
  next =>
      have falsy : (Value.int n).truthy = false := by rw [zero]; rfl
      have chain : tid = pyInt (field r "t") := by
        unfold tid
        rw [Value.or_of_falsy (only.falsy falsy (by simp)),
          Value.or_of_falsy (only.falsy falsy (by simp))]
      rw [chain]
      have member : "t" ∈ ["id", "tradeId", "t"] := by simp
      rcases only.last member with here | missing
      next => simp [here, pyInt]
      next => simp [missing, zero, pyInt]
  next =>
      have read : tid = some n := by
        have value := only.or (int_truthy.mpr zero) fun only =>
          only.or (int_truthy.mpr zero) fun only => only.single
        unfold tid
        rw [value]
        rfl
      exact ⟨fun _ => read, fun neither => absurd (.inl zero) neither⟩

theorem rest_time {ms : Int}
    (only : OneOf r ["time", "T", "tradeTime", "timestamp"] (.int ms)) :
    restTsNs r = some (ms * 1000000) := by
  unfold restTsNs
  by_cases zero : ms = 0
  next =>
      have falsy : (Value.int ms).truthy = false := by rw [zero]; rfl
      rw [Value.or_of_falsy (only.falsy falsy (by simp)),
        Value.or_of_falsy (only.falsy falsy (by simp)),
        Value.or_of_falsy (only.falsy falsy (by simp))]
      have member : "timestamp" ∈ ["time", "T", "tradeTime", "timestamp"] := by simp
      rcases only.last member with here | missing
      next => simp [here, pyInt]
      next => simp [missing, zero]
  next =>
      have value := only.or (int_truthy.mpr zero) fun only =>
        only.or (int_truthy.mpr zero) fun only =>
          only.or (int_truthy.mpr zero) fun only => only.single
      simp [value, pyInt]

theorem rest_float {first second text : String} {q : PyFloat}
    (only : OneOf r [first, second] (.str text))
    (parsed : Numeral.parseFloat text = some q) :
    floatOrZero ((field r first).or (field r second)) = some q := by
  have some : (Value.str text).truthy = true := by
    have unread : Numeral.parseFloat "" = none := by decide +kernel
    refine decide_eq_true fun empty => ?_
    rw [empty, unread] at parsed
    cases parsed
  rw [only.or some fun only => only.single]
  exact parsed

theorem rest_maker {b : Bool} (only : OneOf r ["isBuyerMaker", "m"] (.bool b)) :
    ((field r "isBuyerMaker").or ((r.lookup "m").getD (.bool false))).truthy = b := by
  have second : ((r.lookup "m").getD (.bool false)).truthy = (field r "m").truthy := by
    unfold field
    cases r.lookup "m" <;> rfl
  cases b with
  | false =>
      rw [Value.or_of_falsy (only.falsy rfl (by simp)), second]
      exact only.falsy rfl (by simp)
  | true =>
      unfold Value.or
      split
      next first => exact first
      next unset =>
          rw [second, ← Value.or_of_falsy (Bool.eq_false_iff.mpr unset) (field r "m"),
            only.or rfl fun only => only.single]
          rfl

theorem toTick_rest [Uppercase] {symbol : String} (shape : RestShape r symbol v) :
    ((TradeMessage.rest r symbol).IdRead v →
        (TradeMessage.rest r symbol).toTick = some (tickOf v)) ∧
      (¬ (TradeMessage.rest r symbol).IdRead v → (TradeMessage.rest r symbol).toTick = none) := by
  obtain ⟨price, isPrice, priceValue⟩ := shape.price
  obtain ⟨quantity, isQuantity, quantityValue⟩ := shape.quantity
  obtain ⟨given, upper⟩ := shape.symbol
  obtain ⟨read, unread⟩ := rest_id shape.tradeId
  have symbolRead : restSymbol r symbol = some v.symbol := by
    have some : (Value.str symbol).truthy = true := decide_eq_true given
    unfold restSymbol Value.or
    rw [if_pos some, upper]
  have buyer : pyInt ((r.lookup "b").getD (.int 0)) = some v.buyerId := by
    rw [shape.buyer.getD]
    rfl
  have seller : pyInt ((r.lookup "a").getD (.int 0)) = some v.sellerId := by
    rw [shape.seller.getD]
    rfl
  constructor
  next =>
      intro idRead
      simp only [TradeMessage.toTick, restTradeJsonToTick, read idRead, rest_time shape.time,
        symbolRead, rest_float isPrice priceValue, rest_float isQuantity quantityValue,
        buyer, seller, rest_maker shape.maker, Option.bind_eq_bind, Option.bind_some]
      rfl
  next =>
      intro idUnread
      simp only [TradeMessage.toTick, restTradeJsonToTick, unread idUnread, Option.bind_eq_bind,
        Option.bind_none]

end Adapters

section Rows

variable {toJInstant : DateTime → Value} {v : TradeValues}

def binanceTrades : WriterKey := ("binance", "trades")

theorem row_tickOf (toJInstant : DateTime → Value) (v : TradeValues) :
    (flattenTrades (inst toJInstant)).row (tickOf v) =
      (Client.fromtimestamp (Binary64.round ((v.timeMs * 1000000 : Int) / 1000000000))).map
        fun d => [.str "trade", toJInstant d, .str v.symbol, .int v.tradeId, .ofFloat v.price,
          .ofFloat v.quantity, .int 0, .int 0, toJInstant d, .bool v.isBuyerMaker] := by
  have price : pyFloat (DhSink.get "Price" (.float 0) (tickOf v)) = some v.price :=
    pyFloat_ofFloat v.price
  have quantity : pyFloat (DhSink.get "Quantity" (.float 0) (tickOf v)) = some v.quantity :=
    pyFloat_ofFloat v.quantity
  unfold Flattener.row flattenTrades inst
  simp only [mapM_cons_map, price, quantity]
  unfold tickOf
  cases Client.fromtimestamp (Binary64.round ((v.timeMs * 1000000 : Int) / 1000000000)) with
  | none => rfl
  | some d => rfl

theorem row_tickOf_iff (injective : Function.Injective fun micros => toJInstant (Client.utc micros)) :
    (flattenTrades (inst toJInstant)).row (tickOf v) = some (meantRow toJInstant v) ↔
      v.buyerId = 0 ∧ v.sellerId = 0 ∧ Datable v.timeMs := by
  rw [row_tickOf, ← fromtimestamp_iff]
  unfold Client.fromtimestamp
  simp only
  generalize timestampMicros _ = micros
  split
  next =>
      have sameTime : toJInstant (Client.utc micros) = toJInstant (Client.utc (v.timeMs * 1000)) ↔
          micros = v.timeMs * 1000 := injective.eq_iff
      have sameDate : Client.utc micros = Client.utc (v.timeMs * 1000) ↔
          micros = v.timeMs * 1000 := by simp [Client.utc]
      simp only [meantRow, Option.map_some, Option.some.injEq, List.cons.injEq, Value.int.injEq,
        sameTime, sameDate, true_and, and_true]
      constructor
      next => exact fun ⟨time, buyer, seller, _⟩ => ⟨buyer.symm, seller.symm, time⟩
      next => exact fun ⟨buyer, seller, time⟩ => ⟨time, buyer.symm, seller.symm, time⟩
  next => simp

theorem registered_binanceTrades {toInstant : Int → Option Value} {ticks : List Tick}
    (pairs : ∀ t ∈ ticks, tickPair t = binanceTrades) (some : ticks ≠ []) :
    registered (registerWriters toInstant) (Dict.groupBy tickPair ticks).entries =
      [(⟨.binanceTrades, flattenTrades toInstant⟩, ticks)] := by
  have one : NestedGroups.firstSeen (ticks.map tickPair) = [binanceTrades] :=
    NestedGroups.firstSeen_of_same (List.forall_mem_map.mpr pairs) (mt List.map_eq_nil_iff.mp some)
  have all : (ticks.filter fun t => tickPair t = binanceTrades) = ticks :=
    List.filter_eq_self.mpr fun t member => decide_eq_true (pairs t member)
  rw [NestedGroups.entries_groupBy, one, List.map_singleton, all]
  rfl

theorem accepts_all {log writes : List (Write DhTable)} : Accepts (fun _ _ => false) log writes := by
  induction writes generalizing log with
  | nil => trivial
  | cons w rest ih => exact ⟨rfl, ih⟩

theorem writeEnvelope_binanceTrades {toInstant : Int → Option Value} {ticks : List Tick}
    (pairs : ∀ t ∈ ticks, tickPair t = binanceTrades) {env : Envelope} (rows : env.rows = ticks) :
    let out := writeEnvelope (fun _ _ => false) (registerWriters toInstant) env []
    (if out.raised then none else some out.log) =
      (ticks.mapM (flattenTrades toInstant).row).map fun rows =>
        rows.map fun row => { writer := .binanceTrades, row } := by
  by_cases empty : ticks = []
  next =>
      unfold writeEnvelope buckets
      rw [rows, empty]
      rfl
  next =>
      unfold writeEnvelope buckets
      rw [rows, writeBuckets_eq_writePlans, registered_binanceTrades pairs empty]
      unfold writePlans bucketWrites
      simp only
      cases ticks.mapM (flattenTrades toInstant).row with
      | none => rfl
      | some made => simp [writeRows_of_accepts accepts_all, writePlans]

def TradeMessage.row [Uppercase] (toJInstant : DateTime → Value) (m : TradeMessage) :
    Option (List Value) :=
  m.toTick.bind (flattenTrades (inst toJInstant)).row

theorem toTick_of_means [Uppercase] {m : TradeMessage} (means : m.Means v) :
    (m.IdRead v → m.toTick = some (tickOf v)) ∧ (¬ m.IdRead v → m.toTick = none) := by
  cases m with
  | ws msg => exact ⟨fun _ => toTick_ws means, fun unread => absurd trivial unread⟩
  | rest r symbol => exact toTick_rest means

theorem written_eq [Uppercase] {messages : List TradeMessage}
    (means : ∀ m ∈ messages, ∃ v, m.Means v) :
    written toJInstant messages = (messages.mapM (TradeMessage.row toJInstant)).map fun rows =>
      rows.map fun row => { writer := .binanceTrades, row } := by
  unfold written TradeMessage.row
  rw [← mapM_bind]
  cases made : messages.mapM TradeMessage.toTick with
  | none => rfl
  | some ticks =>
      refine writeEnvelope_binanceTrades (fun t member => ?_) rfl
      have member : some t ∈ messages.map TradeMessage.toTick :=
        map_some_of_mapM made ▸ List.mem_map_of_mem member
      obtain ⟨m, inside, toTick⟩ := List.mem_map.mp member
      obtain ⟨v, said⟩ := means m inside
      obtain ⟨read, unread⟩ := toTick_of_means said
      by_cases idRead : m.IdRead v
      next =>
          rw [read idRead, Option.some.injEq] at toTick
          rw [← toTick]
          rfl
      next =>
          rw [unread idRead] at toTick
          cases toTick

theorem row_iff [Uppercase]
    (injective : Function.Injective fun micros => toJInstant (Client.utc micros))
    {m : TradeMessage} (means : m.Means v) :
    m.row toJInstant = some (meantRow toJInstant v) ↔
      v.buyerId = 0 ∧ v.sellerId = 0 ∧ Datable v.timeMs ∧ m.IdRead v := by
  obtain ⟨read, unread⟩ := toTick_of_means means
  unfold TradeMessage.row
  by_cases idRead : m.IdRead v
  next =>
      rw [read idRead, Option.bind_some, row_tickOf_iff injective]
      simp only [idRead, and_true]
  next =>
      rw [unread idRead]
      simp [idRead]

end Rows

theorem mapM_map_eq_some_iff {α β γ : Type} {f : α → Option β} {g : α → β} {h : β → γ}
    (injective : Function.Injective h) {items : List α} :
    (items.mapM f).map (List.map h) = some (items.map fun a => h (g a)) ↔
      ∀ a ∈ items, f a = some (g a) := by
  induction items with
  | nil => simp
  | cons a rest ih =>
      rw [mapM_cons_map, List.forall_mem_cons, ← ih, List.map_cons]
      cases f a with
      | none => simp
      | some b =>
          cases rest.mapM f with
          | none => simp
          | some made => simp [injective.eq_iff]

/-- The trades table gets a row with the values of each message, in order, exactly when no message
names a buyer or a seller, every time keeps its millisecond as a double in seconds, and no id of a REST
row is a 0 that is taken for a missing one. -/
theorem written_eq_meantRows_iff [Uppercase] {toJInstant : DateTime → Value}
    (injective : Function.Injective fun micros => toJInstant (Client.utc micros))
    (messages : List (TradeMessage × TradeValues)) (means : ∀ x ∈ messages, x.1.Means x.2) :
    written toJInstant (messages.map Prod.fst) =
        some (messages.map fun x => ⟨.binanceTrades, meantRow toJInstant x.2⟩) ↔
      ∀ x ∈ messages, x.2.buyerId = 0 ∧ x.2.sellerId = 0 ∧ Datable x.2.timeMs ∧ x.1.IdRead x.2 := by
  have same : Function.Injective fun row : List Value => Write.mk DhTable.binanceTrades row :=
    fun _ _ same => congrArg Write.row same
  rw [written_eq (List.forall_mem_map.mpr fun x member => ⟨x.2, means x member⟩), List.mapM_map,
    mapM_map_eq_some_iff same]
  exact forall₂_congr fun x member => row_iff injective (means x member)

section Messages

def micros (d : DateTime) : Value := .int d.local_

theorem micros_injective : Function.Injective fun us => micros (Client.utc us) :=
  fun _ _ same => Value.int.inj same

theorem OneOf.of_lookup {r : Payload} {keys : List String} {value : Value} (key : String)
    (member : key ∈ keys) (found : r.lookup key = some value)
    (alone : ∀ other ∈ keys, other ≠ key → (r.lookup other).isNone = true) : OneOf r keys value := by
  refine ⟨key, member, ?_, fun other inside different => ?_⟩
  next =>
      unfold field
      rw [found, Option.getD_some]
  next =>
      unfold field
      rw [Option.isNone_iff_eq_none.mp (alone other inside different), Option.getD_none]

-- A row of the REST API under fallback keys, and a message of the stream; neither names an order.
def bothShapes : List (TradeMessage × TradeValues) :=
  [ (.rest [("tradeId", .int 7), ("p", .str "12.5"), ("qty", .str "2"), ("tradeTime", .int 1000),
        ("m", .bool true)] "ethusdt",
      { symbol := "ETHUSDT", tradeId := 7, price := .finite (25 / 2), quantity := .finite 2
        timeMs := 1000
        buyerId := 0, sellerId := 0, isBuyerMaker := true }),
    (.ws [("s", .str "BTCUSDT"), ("t", .int 0), ("p", .str "3"), ("q", .str "0.5"), ("T", .int 2000)],
      { symbol := "BTCUSDT", tradeId := 0, price := .finite 3, quantity := .finite (1 / 2)
        timeMs := 2000
        buyerId := 0, sellerId := 0, isBuyerMaker := false }) ]

attribute [local instance] asciiUppercase

theorem bothShapes_mean : ∀ x ∈ bothShapes, x.1.Means x.2 := by
  refine List.forall_mem_cons.mpr ⟨?_, List.forall_mem_singleton.mpr ?_⟩
  next =>
      exact
        { symbol := by decide +kernel
          tradeId := .of_lookup "tradeId" (by decide) rfl (by decide)
          time := .of_lookup "tradeTime" (by decide) rfl (by decide)
          price := ⟨"12.5", .of_lookup "p" (by decide) rfl (by decide), by decide +kernel⟩
          quantity := ⟨"2", .of_lookup "qty" (by decide) rfl (by decide), by decide +kernel⟩
          buyer := .inr ⟨rfl, rfl⟩
          seller := .inr ⟨rfl, rfl⟩
          maker := .of_lookup "m" (by decide) rfl (by decide) }
  next =>
      exact
        { symbol := rfl
          tradeId := rfl
          time := rfl
          price := ⟨"3", rfl, by decide +kernel⟩
          quantity := ⟨"0.5", rfl, by decide +kernel⟩
          buyer := .inr ⟨rfl, rfl⟩
          seller := .inr ⟨rfl, rfl⟩
          maker := .inr ⟨rfl, rfl⟩ }

theorem written_eq_meantRows_bothShapes :
    written micros (bothShapes.map Prod.fst) =
      some (bothShapes.map fun x => ⟨.binanceTrades, meantRow micros x.2⟩) := by
  refine (written_eq_meantRows_iff micros_injective bothShapes bothShapes_mean).mpr ?_
  refine List.forall_mem_cons.mpr ⟨?_, List.forall_mem_singleton.mpr ?_⟩
  next => exact ⟨rfl, rfl, datable_of_near (by decide) (by decide), .inl (by decide)⟩
  next => exact ⟨rfl, rfl, datable_of_near (by decide) (by decide), trivial⟩

def namedOrders : Payload :=
  [("s", .str "BTCUSDT"), ("t", .int 7), ("p", .str "3"), ("q", .str "0.5"), ("T", .int 2000),
    ("b", .int 88), ("a", .int 50), ("m", .bool true)]

def namedOrdersValues : TradeValues :=
  { symbol := "BTCUSDT", tradeId := 7, price := .finite 3, quantity := .finite (1 / 2), timeMs := 2000
    buyerId := 88, sellerId := 50, isBuyerMaker := true }

-- The order ids are in the payload under the names of the columns and are read under the names of the
-- stream.
theorem order_ids_lost :
    (TradeMessage.ws namedOrders).Means namedOrdersValues ∧
      ∃ row, written micros [.ws namedOrders] = some [⟨.binanceTrades, row⟩] ∧
        row[6]? = some (.int 0) ∧ row[7]? = some (.int 0) ∧
          row ≠ meantRow micros namedOrdersValues := by
  have means : WsShape namedOrders namedOrdersValues :=
    { symbol := rfl
      tradeId := rfl
      time := rfl
      price := ⟨"3", rfl, by decide +kernel⟩
      quantity := ⟨"0.5", rfl, by decide +kernel⟩
      buyer := .inl rfl
      seller := .inl rfl
      maker := .inl rfl }
  have date := (fromtimestamp_iff 2000).mpr (datable_of_near (by decide) (by decide))
  have made := row_tickOf micros namedOrdersValues
  rw [show namedOrdersValues.timeMs = 2000 from rfl, date, Option.map_some] at made
  refine ⟨means, [.str "trade", .int 2000000, .str "BTCUSDT", .int 7, .float 3, .float (1 / 2),
    .int 0, .int 0, .int 2000000, .bool true], ?_, rfl, rfl, fun same => ?_⟩
  next =>
      have each : ∀ m ∈ [TradeMessage.ws namedOrders], ∃ v, m.Means v :=
        List.forall_mem_singleton.mpr ⟨namedOrdersValues, means⟩
      rw [written_eq each, mapM_cons_map]
      unfold TradeMessage.row
      rw [toTick_ws means, Option.bind_some, made]
      rfl
  next =>
      have buyer : some (Value.int 0) = some (Value.int 88) := congrArg (·[6]?) same
      cases buyer

end Messages

end DeepFeeder.TradeColumns
