import Mathlib.Algebra.BigOperators.Ring.List
import DeepFeeder.Providers.NestedBars

set_option autoImplicit false

namespace DeepFeeder.BinanceBars

open NestedGroups

structure Fits (bar : Bar) : Prop where
  prices : ∃ low high, bar.low = some low ∧ bar.high = some high ∧ ∀ price,
    bar.openPrice = some price ∨ bar.close = some price ∨ bar.vwap = some price →
      low ≤ price ∧ price ≤ high
  known : bar.openPrice.isSome ∧ bar.close.isSome ∧ (bar.vwap.isSome ↔ bar.volume ≠ 0)
  volume : 0 ≤ bar.volume
  trades : 1 ≤ bar.trades
  buyerMakerCount : 0 ≤ bar.buyerMakerCount ∧ bar.buyerMakerCount ≤ bar.trades

structure Summary (own : List Trade) (bar : Bar) : Prop where
  low : bar.low = (own.map Trade.price).min?
  high : bar.high = (own.map Trade.price).max?
  openPrice : ∃ trade ∈ own, bar.openPrice = some trade.price
  close : ∃ trade ∈ own, bar.close = some trade.price
  volume : bar.volume = (own.map Trade.quantity).sum
  vwap : bar.vwap = if bar.volume = 0 then none
    else some ((own.map fun trade => trade.price * trade.quantity).sum / bar.volume)
  trades : bar.trades = own.length
  buyerMakerCount : bar.buyerMakerCount =
    (own.map fun trade => if trade.isBuyerMaker then (1 : Int) else 0).sum

section Fitting

variable {own : List Trade} {bar : Bar} {low high : Rat}

theorem mean_within (nonneg : ∀ trade ∈ own, 0 ≤ trade.quantity)
    (within : ∀ trade ∈ own, low ≤ trade.price ∧ trade.price ≤ high)
    (positive : 0 < (own.map Trade.quantity).sum) :
    low ≤ (own.map fun trade => trade.price * trade.quantity).sum / (own.map Trade.quantity).sum ∧
      (own.map fun trade => trade.price * trade.quantity).sum / (own.map Trade.quantity).sum ≤
        high := by
  constructor
  next =>
    rw [le_div_iff₀ positive, ← List.sum_map_mul_left]
    refine List.sum_le_sum fun trade member => ?_
    exact mul_le_mul_of_nonneg_right (within trade member).1 (nonneg trade member)
  next =>
    rw [div_le_iff₀ positive, ← List.sum_map_mul_left]
    refine List.sum_le_sum fun trade member => ?_
    exact mul_le_mul_of_nonneg_right (within trade member).2 (nonneg trade member)

theorem Summary.fits (summary : Summary own bar) (nonneg : ∀ trade ∈ own, 0 ≤ trade.quantity) :
    Fits bar := by
  obtain ⟨first, member, opened⟩ := summary.openPrice
  obtain ⟨last, member', closed⟩ := summary.close
  have some_ : own.map Trade.price ≠ [] := by
    simpa using List.ne_nil_of_mem member
  obtain ⟨low, least⟩ := Option.ne_none_iff_exists'.mp (mt List.min?_eq_none_iff.mp some_)
  obtain ⟨high, most⟩ := Option.ne_none_iff_exists'.mp (mt List.max?_eq_none_iff.mp some_)
  have within : ∀ trade ∈ own, low ≤ trade.price ∧ trade.price ≤ high := by
    intro trade inside
    have price := List.mem_map_of_mem (f := Trade.price) inside
    exact ⟨(List.min?_eq_some_iff.mp least).2 _ price, (List.max?_eq_some_iff.mp most).2 _ price⟩
  have volume : 0 ≤ bar.volume := by
    rw [summary.volume]
    refine List.sum_nonneg fun quantity inside => ?_
    obtain ⟨trade, isTrade, rfl⟩ := List.mem_map.mp inside
    exact nonneg trade isTrade
  refine ⟨⟨low, high, summary.low.trans least, summary.high.trans most, ?_⟩, ?_, volume, ?_, ?_, ?_⟩
  next =>
    rintro price (own' | own' | mean)
    next =>
      rw [opened, Option.some.injEq] at own'
      exact own' ▸ within first member
    next =>
      rw [closed, Option.some.injEq] at own'
      exact own' ▸ within last member'
    next =>
      rw [summary.vwap] at mean
      split at mean
      next => cases mean
      next traded =>
        have positive : 0 < (own.map Trade.quantity).sum := by
          rw [← summary.volume]
          exact lt_of_le_of_ne volume (Ne.symm traded)
        have between := mean_within nonneg within positive
        rw [summary.volume, Option.some.injEq] at mean
        rwa [mean] at between
  next =>
    rw [opened, closed, summary.vwap]
    refine ⟨rfl, rfl, ?_⟩
    split
    next zero => simp [zero]
    next traded => simp [traded]
  next =>
    rw [summary.trades]
    exact List.length_pos_of_mem member
  next =>
    rw [summary.buyerMakerCount]
    refine List.sum_nonneg fun count inside => ?_
    obtain ⟨trade, _, rfl⟩ := List.mem_map.mp inside
    split <;> decide
  next =>
    rw [summary.buyerMakerCount, summary.trades]
    have ones : ((own.map fun _ => (1 : Int)).sum) = own.length := by simp
    rw [← ones]
    refine List.sum_le_sum fun trade _ => ?_
    split <;> decide

theorem aggBy_summary (key : String × Int) (some_ : own ≠ []) : Summary own (aggBy key own) where
  low := rfl
  high := rfl
  openPrice := by
    obtain ⟨first, rest, rfl⟩ := List.exists_cons_of_ne_nil some_
    exact ⟨first, List.mem_cons_self, rfl⟩
  close := ⟨own.getLast some_, List.getLast_mem some_, by
    simp [aggBy, List.getLast?_eq_getLast_of_ne_nil some_]⟩
  volume := rfl
  vwap := rfl
  trades := rfl
  buyerMakerCount := rfl

theorem minuteBars_fromTrades {minuteBar : Bar} (member : minuteBar ∈ minuteBars own) :
    ∃ trade ∈ own, minuteBar.close = some trade.price := by
  unfold minuteBars at member
  obtain ⟨key, inside, rfl⟩ := List.mem_map.mp member
  obtain ⟨trade, isTrade, rfl⟩ := List.mem_map.mp (mem_firstSeen.mp inside)
  have some_ : (own.filter fun other => barKey other = barKey trade) ≠ [] :=
    List.ne_nil_of_mem (List.mem_filter.mpr ⟨isTrade, decide_eq_true rfl⟩)
  obtain ⟨last, from_, closed⟩ := (aggBy_summary (barKey trade) some_).close
  exact ⟨last, List.mem_of_mem_filter from_, closed⟩

theorem aggFive_summary (key : String × Int) (some_ : own ≠ [])
    (nonneg : ∀ trade ∈ own, 0 ≤ trade.quantity) : Summary own (aggFive key (minuteBars own)) where
  low := minuteBars_low own
  high := minuteBars_high own
  openPrice := by
    obtain ⟨first, rest, rfl⟩ := List.exists_cons_of_ne_nil some_
    exact ⟨first, List.mem_cons_self, minuteBars_open _⟩
  close := by
    have bars : minuteBars own ≠ [] := by
      obtain ⟨first, rest, rfl⟩ := List.exists_cons_of_ne_nil some_
      unfold minuteBars
      rw [List.map_cons, firstSeen_cons, List.map_cons]
      exact List.cons_ne_nil _ _
    obtain ⟨trade, member, closed⟩ := minuteBars_fromTrades (List.getLast_mem bars)
    refine ⟨trade, member, ?_⟩
    change (minuteBars own).getLast?.bind Bar.close = _
    rw [List.getLast?_eq_getLast_of_ne_nil bars]
    exact closed
  volume := minuteBars_volume own
  vwap := by
    simp only [aggFive]
    rw [minuteBars_priceQty nonneg]
    rfl
  trades := minuteBars_trades own
  buyerMakerCount := minuteBars_buyerMakerCount own

end Fitting

section Tables

structure Grouped (rows : List Trade) (bars : List Bar) : Prop where
  made : ∃ key : Trade → String × Int, ∃ make : String × Int → Bar,
    (∀ trade, (key trade).1 = trade.symbol) ∧ (∀ k, (make k).symbol = k.1) ∧
    bars = (firstSeen (rows.map key)).map make ∧
    ∀ trade ∈ rows, Summary (rows.filter fun other => key other = key trade) (make (key trade))

def total {M : Type} [AddCommMonoid M] (column : Bar → M) (symbol : String) (bars : List Bar) : M :=
  ((bars.filter fun bar => bar.symbol = symbol).map column).sum

variable {rows : List Trade} {bars : List Bar}

theorem Grouped.fits (grouped : Grouped rows bars) (nonneg : ∀ trade ∈ rows, 0 ≤ trade.quantity) :
    ∀ bar ∈ bars, Fits bar := by
  obtain ⟨key, make, _, _, rfl, summary⟩ := grouped.made
  intro bar member
  obtain ⟨k, inside, rfl⟩ := List.mem_map.mp member
  obtain ⟨trade, isTrade, rfl⟩ := List.mem_map.mp (mem_firstSeen.mp inside)
  exact (summary trade isTrade).fits fun other from_ => nonneg other (List.mem_of_mem_filter from_)

theorem Grouped.total_eq {M : Type} [AddCommMonoid M] (grouped : Grouped rows bars)
    {column : Bar → M} {f : Trade → M}
    (adds : ∀ own bar, Summary own bar → (∀ trade ∈ own, trade ∈ rows) →
      column bar = (own.map f).sum) (symbol : String) :
    total column symbol bars = ((rows.filter fun trade => trade.symbol = symbol).map f).sum := by
  obtain ⟨key, make, keySymbol, makeSymbol, rfl, summary⟩ := grouped.made
  have sums := sum_some_groups key (fun k => decide (k.1 = symbol)) rows f
  simp only [keySymbol] at sums
  rw [← sums, total, List.filter_map, List.map_map]
  have keys : (firstSeen (rows.map key)).filter ((fun bar => decide (bar.symbol = symbol)) ∘ make) =
      (firstSeen (rows.map key)).filter fun k => decide (k.1 = symbol) := by
    refine List.filter_congr fun k _ => ?_
    simp only [Function.comp_apply, makeSymbol]
  rw [keys]
  refine congrArg List.sum (List.map_congr_left fun k member => ?_)
  obtain ⟨trade, isTrade, rfl⟩ := List.mem_map.mp (mem_firstSeen.mp (List.mem_of_mem_filter member))
  exact adds _ _ (summary trade isTrade) fun other from_ => List.mem_of_mem_filter from_

theorem binanceOhlcv1m_grouped (rows : List Trade) : Grouped rows (binanceOhlcv1m rows) where
  made := by
    refine ⟨barKey, fun key => aggBy key (rows.filter fun trade => barKey trade = key),
      fun _ => rfl, fun _ => rfl, ?_, ?_⟩
    next =>
      rw [binanceOhlcv1m, entries_groupBy, List.map_map]
      rfl
    next =>
      intro trade member
      exact aggBy_summary _ (List.ne_nil_of_mem (List.mem_filter.mpr ⟨member, decide_eq_true rfl⟩))

theorem binanceOhlcv5m_grouped (nonneg : ∀ trade ∈ rows, 0 ≤ trade.quantity) :
    Grouped rows (binanceOhlcv5m rows) where
  made := by
    refine ⟨binKey fiveMinutes, fun key => aggFive key
      (minuteBars (rows.filter fun trade => binKey fiveMinutes trade = key)),
      fun _ => rfl, fun _ => rfl, ?_, ?_⟩
    next =>
      have grouped := groupBy_groupBy barKey (fun key => (key.1, lowerBin key.2 fiveMinutes)) aggBy
        fiveKey (fun _ _ => rfl) rows
      have keys (trade : Trade) : ((barKey trade).1, lowerBin (barKey trade).2 fiveMinutes) =
          binKey fiveMinutes trade := by
        rw [barKey, lowerBin_lowerBin, binKey]
      simp only [keys] at grouped
      rw [binanceOhlcv5m, binanceOhlcv1m, grouped, List.map_map]
      rfl
    next =>
      intro trade member
      exact aggFive_summary _ (List.ne_nil_of_mem (List.mem_filter.mpr ⟨member, decide_eq_true rfl⟩))
        fun other from_ => nonneg other (List.mem_of_mem_filter from_)

-- The notional value of a bar; none was traded where the volume is 0.
def notional (bar : Bar) : Rat := bar.vwap.getD 0 * bar.volume

theorem Summary.notional {own : List Trade} {bar : Bar} (summary : Summary own bar)
    (nonneg : ∀ trade ∈ own, 0 ≤ trade.quantity) :
    notional bar = (own.map fun trade => trade.price * trade.quantity).sum := by
  have back := priceQty_aggBy ("", 0) nonneg
  unfold priceQty aggBy at back
  simp only at back
  unfold BinanceBars.notional
  rw [summary.vwap, summary.volume]
  split
  next zero =>
    rw [if_pos zero, Option.some.injEq] at back
    rw [zero, mul_zero, back]
  next traded =>
    exact div_mul_cancel₀ _ traded

/-- Whatever order the trades come in, the columns of every one-minute and every five-minute bar fit
together, and the bars of a symbol have its volume, its notional value and its trades. -/
theorem bars_fit (nonneg : ∀ trade ∈ rows, 0 ≤ trade.quantity) :
    ∀ bars ∈ [binanceOhlcv1m rows, binanceOhlcv5m rows], (∀ bar ∈ bars, Fits bar) ∧
      ∀ symbol, let own := rows.filter fun trade => trade.symbol = symbol
        total Bar.volume symbol bars = (own.map Trade.quantity).sum ∧
          total notional symbol bars = (own.map fun trade => trade.price * trade.quantity).sum ∧
          total Bar.trades symbol bars = own.length ∧
          total Bar.buyerMakerCount symbol bars = own.countP Trade.isBuyerMaker := by
  have sound {bars : List Bar} (grouped : Grouped rows bars) : (∀ bar ∈ bars, Fits bar) ∧
      ∀ symbol, let own := rows.filter fun trade => trade.symbol = symbol
        total Bar.volume symbol bars = (own.map Trade.quantity).sum ∧
          total notional symbol bars = (own.map fun trade => trade.price * trade.quantity).sum ∧
          total Bar.trades symbol bars = own.length ∧
          total Bar.buyerMakerCount symbol bars = own.countP Trade.isBuyerMaker := by
    refine ⟨grouped.fits nonneg, fun symbol => ⟨?_, ?_, ?_, ?_⟩⟩
    next => exact grouped.total_eq (fun _ _ summary _ => summary.volume) symbol
    next =>
      exact grouped.total_eq (fun _ _ summary inside =>
        summary.notional fun trade member => nonneg trade (inside trade member)) symbol
    next =>
      rw [grouped.total_eq (f := fun _ => 1) (fun _ _ summary _ => by simp [summary.trades]) symbol]
      simp
    next =>
      rw [grouped.total_eq (fun _ _ summary _ => summary.buyerMakerCount) symbol]
      generalize rows.filter (fun trade => decide (trade.symbol = symbol)) = own
      induction own with
      | nil => rfl
      | cons trade rest ih =>
          rw [List.map_cons, List.sum_cons, ih, List.countP_cons]
          cases trade.isBuyerMaker <;> simp [add_comm]
  intro bars member
  rcases List.mem_cons.mp member with rfl | member
  next => exact sound (binanceOhlcv1m_grouped rows)
  next =>
    rw [List.mem_singleton.mp member]
    exact sound (binanceOhlcv5m_grouped nonneg)

-- A backfilled trade after a newer one, and a minute without volume.
theorem bars_fit_backfilled :
    (∀ bar ∈ binanceOhlcv5m [tradeOf 3 30 130000000000, { tradeOf 4 9 190000000000 with quantity := 0 },
      tradeOf 1 10 59000000000], Fits bar) ∧
      (binanceOhlcv5m [tradeOf 3 30 130000000000, { tradeOf 4 9 190000000000 with quantity := 0 },
        tradeOf 1 10 59000000000]).map (fun bar => (bar.low, bar.openPrice, bar.vwap, bar.trades)) =
        [(some 9, some 30, some 20, 3)] := by
  refine ⟨(bars_fit ?_ _ (List.mem_cons_of_mem _ List.mem_cons_self)).1, by decide +kernel⟩
  decide +kernel

end Tables

end DeepFeeder.BinanceBars
