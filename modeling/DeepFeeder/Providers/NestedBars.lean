import Mathlib.Algebra.Order.BigOperators.Group.List
import Mathlib.Algebra.Order.Field.Rat
import DeepFeeder.Shared.NestedGroups
import DeepFeeder.Providers.BinanceBars

set_option autoImplicit false

namespace DeepFeeder.BinanceBars

open NestedGroups

section FiveMinutes

def fiveMinutes : Int := 5 * minute

def fiveKey (bar : Bar) : String × Int := (bar.symbol, lowerBin bar.timestamp fiveMinutes)

-- The column `PriceQty` of a one-minute bar; a null factor gives null.
def priceQty (bar : Bar) : Option Rat :=
  if bar.volume = 0 then some 0 else bar.vwap.map (· * bar.volume)

-- The aggregates of the one-minute bars of one symbol and five minutes. Null is left out of sums and
-- extremes.
def aggFive (key : String × Int) (group : List Bar) : Bar :=
  let volume := (group.map Bar.volume).sum
  let priceQty := (group.filterMap priceQty).sum
  { timestamp := key.2
    symbol := key.1
    barId := (key.2 - lowerBin key.2 day) / fiveMinutes
    openPrice := group.head?.bind Bar.openPrice
    high := (group.filterMap Bar.high).max?
    low := (group.filterMap Bar.low).min?
    close := group.getLast?.bind Bar.close
    volume
    trades := (group.map Bar.trades).sum
    vwap := if volume = 0 then none else some (priceQty / volume)
    buyerMakerCount := (group.map Bar.buyerMakerCount).sum }

def binanceOhlcv5m (table : List Trade) : List Bar :=
  (Dict.groupBy fiveKey (binanceOhlcv1m table)).entries.map fun entry => aggFive entry.1 entry.2

end FiveMinutes

section Direct

def binKey (period : Int) (trade : Trade) : String × Int :=
  (trade.symbol, lowerBin trade.timestamp period)

def aggBins (period : Int) (key : String × Int) (group : List Trade) : Bar :=
  { aggBy key group with barId := (key.2 - lowerBin key.2 day) / period }

def barsOf (period : Int) (table : List Trade) : List Bar :=
  (Dict.groupBy (binKey period) table).entries.map fun entry => aggBins period entry.1 entry.2

theorem barsOf_minute (table : List Trade) : barsOf minute table = binanceOhlcv1m table := rfl

end Direct

variable {own : List Trade}

theorem lowerBin_lowerBin (timestamp : Int) :
    lowerBin (lowerBin timestamp minute) fiveMinutes = lowerBin timestamp fiveMinutes := by
  have nested : timestamp / minute * minute / (5 * minute) = timestamp / (5 * minute) := by
    have positive : (0 : Int) < minute := by decide
    rw [Int.mul_comm 5 minute, ← Int.ediv_ediv_of_nonneg positive.le,
      Int.mul_ediv_cancel _ positive.ne', Int.ediv_ediv_of_nonneg positive.le]
  unfold lowerBin fiveMinutes
  rw [nested]

def minuteBars (own : List Trade) : List Bar :=
  (firstSeen (own.map barKey)).map fun key => aggBy key (own.filter fun trade => barKey trade = key)

section Aggregates

theorem minuteBars_open (own : List Trade) :
    (minuteBars own).head?.bind Bar.openPrice = own.head?.map Trade.price := by
  cases own with
  | nil => rfl
  | cons trade rest =>
      unfold minuteBars
      rw [List.map_cons, firstSeen_cons, List.map_cons, List.head?_cons, Option.bind_some]
      simp [aggBy]

theorem minuteBars_close (sorted : own.Pairwise fun a b =>
      a.symbol = b.symbol ∧ a.timestamp ≤ b.timestamp) :
    (minuteBars own).getLast?.bind Bar.close = own.getLast?.map Trade.price := by
  have keys : (own.map barKey).Pairwise fun a b => a.1 = b.1 ∧ a.2 ≤ b.2 := by
    refine List.pairwise_map.mpr (sorted.imp fun {a b} before => ⟨before.1, ?_⟩)
    have positive : (0 : Int) < minute := by decide
    exact Int.mul_le_mul_of_nonneg_right (Int.ediv_le_ediv positive before.2) positive.le
  have lastKey := getLast?_firstSeen (fun a b first second =>
    Prod.ext first.1 (le_antisymm first.2 second.2)) keys
  rcases List.eq_nil_or_concat own with rfl | ⟨front, trade, rfl⟩
  next => rfl
  next =>
      rw [List.concat_eq_append] at lastKey ⊢
      unfold minuteBars
      rw [List.getLast?_map, lastKey, List.map_append, List.map_singleton, List.getLast?_concat,
        List.getLast?_concat, Option.map_some, Option.bind_some]
      simp [aggBy, List.filter_append]

theorem minuteBars_high (own : List Trade) :
    ((minuteBars own).filterMap Bar.high).max? = (own.map Trade.price).max? := by
  unfold minuteBars
  rw [List.filterMap_map]
  exact @extreme_groups _ _ _ _ (· ≤ ·) (fun _ _ _ => le_trans) _ (fun _ _ => List.max?_eq_some_iff)
    (fun values some_ => by
      rw [Option.isSome_iff_ne_none]
      exact fun none => some_ (List.max?_eq_none_iff.mp none)) barKey own Trade.price

theorem minuteBars_low (own : List Trade) :
    ((minuteBars own).filterMap Bar.low).min? = (own.map Trade.price).min? := by
  unfold minuteBars
  rw [List.filterMap_map]
  exact @extreme_groups _ _ _ _ (fun a b => b ≤ a) (fun _ _ _ first second => le_trans second first) _
    (fun _ _ => List.min?_eq_some_iff)
    (fun values some_ => by
      rw [Option.isSome_iff_ne_none]
      exact fun none => some_ (List.min?_eq_none_iff.mp none)) barKey own Trade.price

theorem minuteBars_volume (own : List Trade) :
    ((minuteBars own).map Bar.volume).sum = (own.map Trade.quantity).sum := by
  unfold minuteBars
  rw [List.map_map]
  exact sum_groups barKey own Trade.quantity

theorem minuteBars_trades (own : List Trade) :
    ((minuteBars own).map Bar.trades).sum = own.length := by
  unfold minuteBars
  rw [List.map_map]
  exact length_groups barKey own

theorem minuteBars_buyerMakerCount (own : List Trade) :
    ((minuteBars own).map Bar.buyerMakerCount).sum =
      (own.map fun trade => if trade.isBuyerMaker then (1 : Int) else 0).sum := by
  unfold minuteBars
  rw [List.map_map]
  exact sum_groups barKey own fun trade => if trade.isBuyerMaker then (1 : Int) else 0

-- Multiplying back gives the sum that was divided; where the volume is 0, nothing was traded.
theorem priceQty_aggBy (key : String × Int) {group : List Trade}
    (nonneg : ∀ trade ∈ group, 0 ≤ trade.quantity) :
    priceQty (aggBy key group) =
      some (group.map fun trade => trade.price * trade.quantity).sum := by
  unfold priceQty aggBy
  simp only
  split
  next zero =>
      have none (trade : Trade) (member : trade ∈ group) : trade.quantity = 0 :=
        List.all_zero_of_le_zero_le_of_sum_eq_zero
          (fun _ inside => by
            obtain ⟨other, isOther, rfl⟩ := List.mem_map.mp inside
            exact nonneg other isOther)
          zero (List.mem_map_of_mem member)
      have zeros : (group.map fun trade => trade.price * trade.quantity) =
          group.map fun _ => (0 : Rat) :=
        List.map_congr_left fun trade member => by rw [none trade member, mul_zero]
      rw [zeros, List.map_const', List.sum_replicate, nsmul_zero]
  next some_ => rw [Option.map_some, div_mul_cancel₀ _ some_]

theorem minuteBars_priceQty (nonneg : ∀ trade ∈ own, 0 ≤ trade.quantity) :
    ((minuteBars own).filterMap priceQty).sum =
      (own.map fun trade => trade.price * trade.quantity).sum := by
  have each : (minuteBars own).filterMap priceQty = (firstSeen (own.map barKey)).map fun key =>
      ((own.filter fun trade => barKey trade = key).map fun trade =>
        trade.price * trade.quantity).sum := by
    have made (key : String × Int) : (priceQty ∘ fun key => aggBy key
        (own.filter fun trade => barKey trade = key)) key =
          some ((own.filter fun trade => barKey trade = key).map fun trade =>
            trade.price * trade.quantity).sum :=
      priceQty_aggBy key fun trade member => nonneg trade (List.mem_of_mem_filter member)
    unfold minuteBars
    rw [List.filterMap_map, funext made]
    exact congrFun List.filterMap_eq_map _
  rw [each]
  exact sum_groups barKey own fun trade => trade.price * trade.quantity

end Aggregates

theorem aggFive_minuteBars (key : String × Int) (nonneg : ∀ trade ∈ own, 0 ≤ trade.quantity)
    (sorted : own.Pairwise fun a b => a.symbol = b.symbol ∧ a.timestamp ≤ b.timestamp) :
    aggFive key (minuteBars own) = aggBins fiveMinutes key own := by
  unfold aggFive aggBins aggBy
  rw [minuteBars_open, minuteBars_close sorted, minuteBars_high, minuteBars_low,
    minuteBars_volume, minuteBars_trades, minuteBars_buyerMakerCount, minuteBars_priceQty nonneg]

/-- In exact arithmetic, five-minute bars made of the one-minute bars are those made of the trades,
column by column and in the same order. -/
theorem binanceOhlcv5m_eq_barsOf (table : List Trade)
    (nonneg : ∀ trade ∈ table, 0 ≤ trade.quantity)
    (sorted : table.Pairwise fun a b => a.symbol = b.symbol → a.timestamp ≤ b.timestamp) :
    binanceOhlcv5m table = barsOf fiveMinutes table := by
  have nested : (Dict.groupBy fiveKey (binanceOhlcv1m table)).entries =
      (firstSeen (table.map (binKey fiveMinutes))).map fun key =>
        Dict.entry key (minuteBars (table.filter fun trade => binKey fiveMinutes trade = key)) := by
    have keys (trade : Trade) : (trade.symbol, lowerBin (barKey trade).2 fiveMinutes) =
        binKey fiveMinutes trade := by rw [barKey, lowerBin_lowerBin, binKey]
    have grouped := groupBy_groupBy barKey (fun key => (key.1, lowerBin key.2 fiveMinutes)) aggBy
      fiveKey (fun _ _ => rfl) table
    simp only [show ∀ trade, (barKey trade).1 = trade.symbol from fun _ => rfl, keys] at grouped
    exact grouped
  unfold binanceOhlcv5m barsOf
  rw [nested, entries_groupBy, List.map_map, List.map_map]
  refine List.map_congr_left fun key _ => ?_
  refine aggFive_minuteBars key (fun trade member => nonneg trade (List.mem_of_mem_filter member)) ?_
  have inside := sorted.filter fun trade => binKey fiveMinutes trade = key
  refine inside.imp_of_mem fun {a b} aIn bIn before => ?_
  have aKey := of_decide_eq_true (List.mem_filter.mp aIn).2
  have bKey := of_decide_eq_true (List.mem_filter.mp bIn).2
  have same : a.symbol = b.symbol := congrArg Prod.fst (aKey.trans bKey.symm)
  exact ⟨same, before same⟩

def crossing : List Trade :=
  [{ tradeOf 1 10 59000000000 with quantity := 0 },
   { tradeOf 7 3 61000000000 with symbol := "ETHUSDT" }, tradeOf 2 30 62000000000,
   { tradeOf 3 20 119000000000 with quantity := 3, isBuyerMaker := true },
   { tradeOf 8 4 30000000000 with symbol := "XRPUSDT" }]

theorem binanceOhlcv5m_eq_barsOf_crossing :
    binanceOhlcv5m crossing = barsOf fiveMinutes crossing ∧
      (binanceOhlcv5m crossing).map (fun bar => (bar.symbol, bar.openPrice, bar.close, bar.vwap)) =
        [("BTCUSDT", some 10, some 20, some (45 / 2)), ("ETHUSDT", some 3, some 3, some 3),
          ("XRPUSDT", some 4, some 4, some 4)] :=
  ⟨binanceOhlcv5m_eq_barsOf crossing (by decide +kernel) (by decide +kernel), by decide +kernel⟩

end DeepFeeder.BinanceBars
