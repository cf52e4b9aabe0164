import Mathlib.Algebra.Order.Ring.Rat
import Mathlib.Algebra.BigOperators.Group.List.Basic
import DeepFeeder.Shared.Grouping
import DeepFeeder.Shared.OnceInOrder

set_option autoImplicit false

namespace DeepFeeder.BinanceBars

/-- The columns of a row of the trades table that the bars are made of, and its number; the sums of
quantities are taken as exact. -/
structure Trade where
  symbol : String
  tradeId : Int
  price : Rat
  quantity : Rat
  timestamp : Int
  isBuyerMaker : Bool
  deriving DecidableEq

structure Bar where
  timestamp : Int
  symbol : String
  barId : Int
  openPrice : Option Rat
  high : Option Rat
  low : Option Rat
  close : Option Rat
  volume : Rat
  trades : Nat
  vwap : Option Rat
  buyerMakerCount : Int
  deriving DecidableEq

def minute : Int := 60 * 1000000000

def day : Int := 24 * 60 * minute

def lowerBin (timestamp period : Int) : Int := timestamp / period * period

def barKey (trade : Trade) : String × Int := (trade.symbol, lowerBin trade.timestamp minute)

def aggBy (key : String × Int) (group : List Trade) : Bar :=
  let volume := (group.map Trade.quantity).sum
  let priceQty := (group.map fun trade => trade.price * trade.quantity).sum
  { timestamp := key.2
    symbol := key.1
    barId := (key.2 - lowerBin key.2 day) / minute
    openPrice := group.head?.map Trade.price
    high := (group.map Trade.price).max?
    low := (group.map Trade.price).min?
    close := group.getLast?.map Trade.price
    volume
    trades := group.length
    vwap := if volume = 0 then none else some (priceQty / volume)
    buyerMakerCount := (group.map fun trade => if trade.isBuyerMaker then (1 : Int) else 0).sum }

def binanceOhlcv1m (table : List Trade) : List Bar :=
  (Dict.groupBy barKey table).entries.map fun entry => aggBy entry.1 entry.2

/-- The rows of the trades table in the order in which they were written. A trade that is delivered
again has the same row again. -/
structure TradesTable where
  rows : List Trade
  numbered : ∀ a ∈ rows, ∀ b ∈ rows, a.symbol = b.symbol → a.tradeId = b.tradeId → a = b

namespace TradesTable

def group (table : TradesTable) (key : String × Int) : List Trade :=
  table.rows.filter fun trade => barKey trade = key

def trades (table : TradesTable) : List Trade := onceInOrder Trade.tradeId table.rows

end TradesTable

/-- No trade is there twice, the first row has the price of the trade with the lowest number, and the
last row that of the trade with the greatest. -/
def InOrder (group : List Trade) : Prop :=
  group.Nodup ∧
    (∀ lowest ∈ group, (∀ other ∈ group, lowest.tradeId ≤ other.tradeId) →
      group.head?.map Trade.price = some lowest.price) ∧
    ∀ greatest ∈ group, (∀ other ∈ group, other.tradeId ≤ greatest.tradeId) →
      group.getLast?.map Trade.price = some greatest.price

variable {group ordered : List Trade} {key : String × Int}

section Aggregates

theorem extremes_eq (once : OnceInOrder Trade.tradeId ordered group) :
    (ordered.map Trade.price).max? = (group.map Trade.price).max? ∧
      (ordered.map Trade.price).min? = (group.map Trade.price).min? := by
  have same (price : Rat) : price ∈ ordered.map Trade.price ↔ price ∈ group.map Trade.price := by
    simp only [List.mem_map, once.mem_iff]
  constructor
  · apply Option.ext
    intro price
    rw [List.max?_eq_some_iff, List.max?_eq_some_iff]
    simp only [same]
  · apply Option.ext
    intro price
    rw [List.min?_eq_some_iff, List.min?_eq_some_iff]
    simp only [same]

theorem open_eq_iff (once : OnceInOrder Trade.tradeId ordered group)
    (numbered : ∀ a ∈ group, ∀ b ∈ group, a.tradeId = b.tradeId → a = b) :
    group.head?.map Trade.price = ordered.head?.map Trade.price ↔
      ∀ lowest ∈ group, (∀ other ∈ group, lowest.tradeId ≤ other.tradeId) →
        group.head?.map Trade.price = some lowest.price := by
  cases first : ordered.head? with
  | none =>
      have empty : group = [] := once.eq_nil_iff.mp (List.head?_eq_none_iff.mp first)
      simp [empty]
  | some trade =>
      obtain ⟨member, below⟩ := once.head?_lowest first
      constructor
      · intro same lowest inside least
        have this : lowest = trade := numbered lowest inside trade member
          (le_antisymm (least trade member) (below lowest inside))
        rw [same, this]
        rfl
      · exact fun opens => opens trade member below

theorem close_eq_iff (once : OnceInOrder Trade.tradeId ordered group)
    (numbered : ∀ a ∈ group, ∀ b ∈ group, a.tradeId = b.tradeId → a = b) :
    group.getLast?.map Trade.price = ordered.getLast?.map Trade.price ↔
      ∀ greatest ∈ group, (∀ other ∈ group, other.tradeId ≤ greatest.tradeId) →
        group.getLast?.map Trade.price = some greatest.price := by
  cases last : ordered.getLast? with
  | none =>
      have empty : group = [] := once.eq_nil_iff.mp (List.getLast?_eq_none_iff.mp last)
      simp [empty]
  | some trade =>
      obtain ⟨member, above⟩ := once.getLast?_greatest last
      constructor
      · intro same greatest inside most
        have this : greatest = trade := numbered greatest inside trade member
          (le_antisymm (above greatest inside) (most trade member))
        rw [same, this]
        rfl
      · exact fun closes => closes trade member above

theorem aggBy_eq_iff (once : OnceInOrder Trade.tradeId ordered group)
    (numbered : ∀ a ∈ group, ∀ b ∈ group, a.tradeId = b.tradeId → a = b) (key : String × Int) :
    aggBy key group = aggBy key ordered ↔ InOrder group := by
  constructor
  · intro same
    refine ⟨once.length_eq_iff.mp ?_, (open_eq_iff once numbered).mp ?_,
      (close_eq_iff once numbered).mp ?_⟩
    · exact (congrArg Bar.trades same).symm
    · exact congrArg Bar.openPrice same
    · exact congrArg Bar.close same
  · rintro ⟨distinct, opens, closes⟩
    have perm := once.perm distinct
    obtain ⟨high, low⟩ := extremes_eq once
    unfold aggBy
    rw [(open_eq_iff once numbered).mpr opens, (close_eq_iff once numbered).mpr closes, high, low,
      (perm.map Trade.quantity).sum_eq, perm.length_eq,
      (perm.map fun trade => trade.price * trade.quantity).sum_eq,
      (perm.map fun trade => if trade.isBuyerMaker then (1 : Int) else 0).sum_eq]

end Aggregates

section Bars

theorem mem_binanceOhlcv1m {rows : List Trade} {bar : Bar} :
    bar ∈ binanceOhlcv1m rows ↔
      ∃ key ∈ rows.map barKey, bar = aggBy key (rows.filter fun trade => barKey trade = key) := by
  unfold binanceOhlcv1m
  rw [List.mem_map]
  constructor
  · rintro ⟨entry, member, rfl⟩
    obtain ⟨present, group⟩ := Dict.mem_entries_groupBy member
    exact ⟨entry.1, present, by rw [← group]⟩
  · rintro ⟨key, present, rfl⟩
    have found := Dict.lookup_groupBy barKey rows key
    rw [if_pos present] at found
    exact ⟨_, AList.mem_lookup_iff.mp found, rfl⟩

theorem binanceOhlcv1m_distinct (rows : List Trade) :
    ((binanceOhlcv1m rows).map fun bar => (bar.symbol, bar.timestamp)).Nodup := by
  unfold binanceOhlcv1m
  rw [List.map_map]
  exact (Dict.groupBy barKey rows).nodupKeys

theorem binanceOhlcv1m_nodup (rows : List Trade) : (binanceOhlcv1m rows).Nodup :=
  (binanceOhlcv1m_distinct rows).of_map _

theorem TradesTable.group_numbered (table : TradesTable) (key : String × Int) :
    ∀ a ∈ table.group key, ∀ b ∈ table.group key, a.tradeId = b.tradeId → a = b := by
  intro a first b second same
  obtain ⟨stored, own⟩ := List.mem_filter.mp first
  obtain ⟨stored', own'⟩ := List.mem_filter.mp second
  have keys : barKey a = barKey b :=
    (of_decide_eq_true own).trans (of_decide_eq_true own').symm
  exact table.numbered a stored b stored' (congrArg Prod.fst keys) same

theorem TradesTable.group_once (table : TradesTable) (key : String × Int) :
    OnceInOrder Trade.tradeId (table.trades.filter fun trade => barKey trade = key)
      (table.group key) :=
  (OnceInOrder.of_items Trade.tradeId table.rows).filter _

/-- The bars are those of the trades taken once each in the order of their numbers exactly if every
symbol's rows of every minute came in order. -/
theorem bars_of_trades_iff (table : TradesTable) :
    (binanceOhlcv1m table.rows).Perm (binanceOhlcv1m table.trades) ↔
      ∀ key, InOrder (table.group key) := by
  have keys (key : String × Int) :
      key ∈ table.trades.map barKey ↔ key ∈ table.rows.map barKey := by
    simp only [List.mem_map, TradesTable.trades,
      (OnceInOrder.of_items Trade.tradeId table.rows).mem_iff]
  rw [List.perm_ext_iff_of_nodup (binanceOhlcv1m_nodup _) (binanceOhlcv1m_nodup _)]
  have aggregate (key : String × Int) := aggBy_eq_iff (table.group_once key)
    (table.group_numbered key) key
  constructor
  · intro same key
    by_cases present : key ∈ table.rows.map barKey
    · have bar := (same _).mp (mem_binanceOhlcv1m.mpr ⟨key, present, rfl⟩)
      obtain ⟨other, _, equal⟩ := mem_binanceOhlcv1m.mp bar
      have this : key = other := Prod.ext (congrArg Bar.symbol equal) (congrArg Bar.timestamp equal)
      subst this
      exact (aggregate key).mp equal
    · have empty : table.group key = [] := by
        apply List.filter_eq_nil_iff.mpr
        intro trade member own
        exact present (List.mem_map.mpr ⟨trade, member, of_decide_eq_true own⟩)
      rw [empty]
      simp [InOrder]
  · intro inOrder bar
    rw [mem_binanceOhlcv1m, mem_binanceOhlcv1m]
    apply exists_congr
    intro key
    rw [keys, ← (aggregate key).mpr (inOrder key)]
    rfl

end Bars

def tradeOf (tradeId : Int) (price : Rat) (timestamp : Int) : Trade :=
  { symbol := "BTCUSDT", tradeId, price, quantity := 1, timestamp, isBuyerMaker := false }

def recovered : TradesTable where
  rows := [tradeOf 2 20 1000000000, tradeOf 1 10 500000000, tradeOf 2 20 1000000000]
  numbered := by decide

def prices (bars : List Bar) : List (Option Rat × Option Rat × Rat × Nat) :=
  bars.map fun bar => (bar.openPrice, bar.close, bar.volume, bar.trades)

theorem redelivered_trade_counts_twice :
    prices (binanceOhlcv1m recovered.rows) = [(some 20, some 20, 3, 3)] ∧
      prices (binanceOhlcv1m recovered.trades) = [(some 10, some 20, 2, 2)] ∧
      ¬ (binanceOhlcv1m recovered.rows).Perm (binanceOhlcv1m recovered.trades) := by
  have rows : prices (binanceOhlcv1m recovered.rows) = [(some 20, some 20, 3, 3)] := by
    decide +kernel
  have trades : prices (binanceOhlcv1m recovered.trades) = [(some 10, some 20, 2, 2)] := by
    decide +kernel
  refine ⟨rows, trades, ?_⟩
  intro same
  have opened := same.map fun bar => (bar.openPrice, bar.close, bar.volume, bar.trades)
  change (prices _).Perm (prices _) at opened
  rw [rows, trades, List.singleton_perm_singleton] at opened
  revert opened
  decide +kernel

end DeepFeeder.BinanceBars
