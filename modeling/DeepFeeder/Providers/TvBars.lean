import Mathlib.Data.Prod.Lex
import Mathlib.Algebra.Order.Field.Rat
import Mathlib.Tactic.Ring
import Mathlib.Tactic.Tauto
import DeepFeeder.Shared.LastBy
import DeepFeeder.Providers.BinanceBars

set_option autoImplicit false

namespace DeepFeeder.TvBars

open LastBy
open BinanceBars (minute day lowerBin)

variable {Name : Type} [LinearOrder Name]

/-- The columns of a row of the quotes table that the bars are made of. Exchanges and symbols are of any
type with an order; the sums are taken as exact. -/
structure QuoteRow (Name : Type) where
  exchange : Name
  symbol : Name
  lpTime : Int
  lastPrice : Option Rat
  volDelta : Rat
  deriving DecidableEq

structure BarRow (Name : Type) where
  exchange : Name
  symbol : Name
  timestamp : Int
  openPrice : Option Rat
  high : Option Rat
  low : Option Rat
  close : Option Rat
  volume : Option Rat
  isFinal : Bool
  deriving DecidableEq

abbrev BarKey (Name : Type) := Name × Name × Int

def BarRow.key (bar : BarRow Name) : BarKey Name := (bar.exchange, bar.symbol, bar.timestamp)

def QuoteRow.key (quote : QuoteRow Name) : BarKey Name :=
  (quote.exchange, quote.symbol, lowerBin quote.lpTime minute)

def sortKey (k : BarKey Name) : Name ×ₗ Name ×ₗ Int := toLex (k.1, toLex (k.2.1, k.2.2))

section Tables

def barsTable (upper : Name → Name) (written : List (BarRow Name)) : List (BarRow Name) :=
  written.map fun bar => { bar with exchange := upper bar.exchange, symbol := upper bar.symbol }

def barsTableDeduped (bars : List (BarRow Name)) : List (BarRow Name) :=
  lastBy BarRow.key (bars.insertionSort fun a b => sortKey a.key ≤ sortKey b.key)

-- The aggregates of the quotes of one exchange, symbol and minute. Extremes leave null out.
def quoteBar (k : BarKey Name) (group : List (QuoteRow Name)) : BarRow Name :=
  { exchange := k.1
    symbol := k.2.1
    timestamp := k.2.2
    openPrice := group.head?.bind QuoteRow.lastPrice
    high := (group.filterMap QuoteRow.lastPrice).max?
    low := (group.filterMap QuoteRow.lastPrice).min?
    close := group.getLast?.bind QuoteRow.lastPrice
    volume := some (group.map QuoteRow.volDelta).sum
    isFinal := false }

def barsFromQuotes (quotes : List (QuoteRow Name)) : List (BarRow Name) :=
  (Dict.groupBy QuoteRow.key quotes).entries.map fun entry => quoteBar entry.1 entry.2

def lastBarTs (deduped : List (BarRow Name)) (exchange symbol : Name) : Option Int :=
  ((deduped.filter fun bar => bar.exchange = exchange ∧ bar.symbol = symbol).map
    BarRow.timestamp).max?

def quotesAfterCutoff (deduped barQuotes : List (BarRow Name)) : List (BarRow Name) :=
  barQuotes.filter fun bar => match lastBarTs deduped bar.exchange bar.symbol with
    | none => true
    | some lastTs => lastTs < bar.timestamp

def priority (bar : BarRow Name) : Int := if bar.isFinal then 2 else 1

def stitched (bars : List (BarRow Name)) (quotes : List (QuoteRow Name)) : List (BarRow Name) :=
  let deduped := barsTableDeduped bars
  let merged := deduped ++ quotesAfterCutoff deduped (barsFromQuotes quotes)
  lastBy BarRow.key (merged.insertionSort fun a b =>
    toLex (sortKey a.key, priority a) ≤ toLex (sortKey b.key, priority b))

structure OhlcvRow (Name : Type) extends BarRow Name where
  barId : Int
  deriving DecidableEq

def numbered (period : Int) (bar : BarRow Name) : OhlcvRow Name :=
  { bar with barId := (bar.timestamp - lowerBin bar.timestamp day) / period }

def tvOhlcv1m (upper : Name → Name) (written : List (BarRow Name)) (quotes : List (QuoteRow Name)) :
    List (OhlcvRow Name) :=
  (stitched (barsTable upper written) quotes).map (numbered minute)

end Tables

section Stitching

variable {bars : List (BarRow Name)} {quotes : List (QuoteRow Name)} {k : BarKey Name}
  {bar : BarRow Name}

def quoteBarOf (quotes : List (QuoteRow Name)) (k : BarKey Name) : Option (BarRow Name) :=
  match quotes.filter fun quote => quote.key = k with
  | [] => none
  | group => some (quoteBar k group)

def AfterBars (bars : List (BarRow Name)) (k : BarKey Name) : Prop :=
  ∀ bar ∈ bars, bar.exchange = k.1 → bar.symbol = k.2.1 → bar.timestamp < k.2.2

instance (bars : List (BarRow Name)) (k : BarKey Name) : Decidable (AfterBars bars k) :=
  inferInstanceAs (Decidable (∀ bar ∈ bars, _))

/-- What the stitched table has for a minute: the bar that was written last, or else the bar made of
quotes, as long as no bar of the exchange and symbol is as late. -/
def bestBar (bars : List (BarRow Name)) (quotes : List (QuoteRow Name)) (k : BarKey Name) :
    Option (BarRow Name) :=
  (lastOf BarRow.key bars k).or (if AfterBars bars k then quoteBarOf quotes k else none)

theorem quoteBarOf_key (made : quoteBarOf quotes k = some bar) : bar.key = k := by
  unfold quoteBarOf at made
  split at made
  · cases made
  · cases made
    rfl

theorem mem_barsFromQuotes : bar ∈ barsFromQuotes quotes ↔ quoteBarOf quotes bar.key = some bar := by
  have group_ne {quote : QuoteRow Name} (member : quote ∈ quotes) :
      quotes.filter (fun other => other.key = quote.key) ≠ [] :=
    List.ne_nil_of_mem (List.mem_filter.mpr ⟨member, decide_eq_true rfl⟩)
  unfold barsFromQuotes
  rw [List.mem_map]
  constructor
  · rintro ⟨⟨k, group⟩, member, rfl⟩
    obtain ⟨present, rfl⟩ := Dict.mem_entries_groupBy member
    obtain ⟨quote, inside, rfl⟩ := List.mem_map.mp present
    unfold quoteBarOf
    change (match quotes.filter fun other => other.key = quote.key with
      | [] => none
      | group => some (quoteBar quote.key group)) = _
    split
    next none => exact absurd none (group_ne inside)
    next => rfl
  · intro made
    unfold quoteBarOf at made
    split at made
    · cases made
    next group some =>
      have found := Dict.lookup_groupBy QuoteRow.key quotes bar.key
      obtain ⟨quote, inside⟩ := List.exists_mem_of_ne_nil _ some
      obtain ⟨member, own⟩ := List.mem_filter.mp inside
      rw [if_pos (List.mem_map.mpr ⟨quote, member, of_decide_eq_true own⟩)] at found
      exact ⟨_, AList.mem_lookup_iff.mp found, Option.some.inj made⟩

theorem barsFromQuotes_distinct (quotes : List (QuoteRow Name)) :
    ((barsFromQuotes quotes).map BarRow.key).Nodup := by
  unfold barsFromQuotes
  rw [List.map_map]
  exact (Dict.groupBy QuoteRow.key quotes).nodupKeys

theorem lastOf_deduped (bars : List (BarRow Name)) (k : BarKey Name) :
    lastOf BarRow.key (barsTableDeduped bars) k = lastOf BarRow.key bars k := by
  unfold barsTableDeduped
  rw [lastOf_lastBy, lastOf_insertionSort]
  intro a b same
  rw [same]

theorem mem_deduped_iff : bar ∈ barsTableDeduped bars ↔ lastOf BarRow.key bars bar.key = some bar := by
  have member := lastOf_deduped bars bar.key
  unfold barsTableDeduped at member ⊢
  rw [lastOf_lastBy] at member
  rw [mem_lastBy, member]

theorem lastBarTs_lt_iff {timestamp : Int} {exchange symbol : Name} :
    (match lastBarTs (barsTableDeduped bars) exchange symbol with
      | none => true
      | some lastTs => decide (lastTs < timestamp)) = true ↔
      AfterBars bars (exchange, symbol, timestamp) := by
  have times (ts : Int) : ts ∈ ((barsTableDeduped bars).filter fun bar =>
      bar.exchange = exchange ∧ bar.symbol = symbol).map BarRow.timestamp ↔
        ∃ bar ∈ bars, bar.exchange = exchange ∧ bar.symbol = symbol ∧ bar.timestamp = ts := by
    rw [List.mem_map]
    constructor
    · rintro ⟨bar, member, rfl⟩
      obtain ⟨inside, own⟩ := List.mem_filter.mp member
      obtain ⟨sameExchange, sameSymbol⟩ := of_decide_eq_true own
      exact ⟨bar, (lastOf_eq_some (mem_deduped_iff.mp inside)).2, sameExchange, sameSymbol, rfl⟩
    · rintro ⟨bar, member, sameExchange, sameSymbol, rfl⟩
      cases found : lastOf BarRow.key bars bar.key with
      | none => exact absurd rfl (lastOf_eq_none.mp found bar member)
      | some last =>
          have same := (lastOf_eq_some found).1
          refine ⟨last, List.mem_filter.mpr ⟨mem_deduped_iff.mpr (by rw [same, found]), ?_⟩, ?_⟩
          · have first := congrArg Prod.fst same
            have second := congrArg (fun k => k.2.1) same
            exact decide_eq_true ⟨first.trans sameExchange, second.trans sameSymbol⟩
          · exact congrArg (fun k => k.2.2) same
  unfold lastBarTs AfterBars
  split
  next none =>
    rw [List.max?_eq_none_iff] at none
    refine iff_of_true rfl fun bar member sameExchange sameSymbol => ?_
    have inside := (times bar.timestamp).mpr ⟨bar, member, sameExchange, sameSymbol, rfl⟩
    rw [none] at inside
    cases inside
  next lastTs top =>
    obtain ⟨isTime, above⟩ := List.max?_eq_some_iff.mp top
    rw [decide_eq_true_eq]
    constructor
    · intro after bar member sameExchange sameSymbol
      exact lt_of_le_of_lt
        (above _ ((times _).mpr ⟨bar, member, sameExchange, sameSymbol, rfl⟩)) after
    · intro after
      obtain ⟨bar, member, sameExchange, sameSymbol, rfl⟩ := (times lastTs).mp isTime
      exact after bar member sameExchange sameSymbol

theorem lastOf_afterCutoff (bars : List (BarRow Name)) (quotes : List (QuoteRow Name))
    (k : BarKey Name) :
    lastOf BarRow.key (quotesAfterCutoff (barsTableDeduped bars) (barsFromQuotes quotes)) k =
      if AfterBars bars k then quoteBarOf quotes k else none := by
  have member (bar : BarRow Name) :
      bar ∈ quotesAfterCutoff (barsTableDeduped bars) (barsFromQuotes quotes) ↔
        quoteBarOf quotes bar.key = some bar ∧ AfterBars bars bar.key := by
    unfold quotesAfterCutoff
    rw [List.mem_filter, mem_barsFromQuotes]
    exact and_congr_right fun _ => lastBarTs_lt_iff
  cases found : lastOf BarRow.key (quotesAfterCutoff (barsTableDeduped bars)
      (barsFromQuotes quotes)) k with
  | none =>
      have absent := lastOf_eq_none.mp found
      split
      next after =>
        cases made : quoteBarOf quotes k with
        | none => rfl
        | some bar =>
            have own := quoteBarOf_key made
            exact absurd own (absent bar ((member bar).mpr ⟨by rw [own, made], own ▸ after⟩))
      next => rfl
  | some bar =>
      obtain ⟨own, inside⟩ := lastOf_eq_some found
      obtain ⟨made, after⟩ := (member bar).mp inside
      rw [own] at made after
      rw [if_pos after, made]

-- A minute that has a bar is not after the bars, so the priority never decides.
theorem not_after_of_bar (found : lastOf BarRow.key bars k = some bar) : ¬ AfterBars bars k := by
  intro after
  obtain ⟨own, member⟩ := lastOf_eq_some found
  have less := after bar member (congrArg Prod.fst own) (congrArg (fun k => k.2.1) own)
  have same : bar.timestamp = k.2.2 := congrArg (fun k => k.2.2) own
  omega

theorem stitched_single (bars : List (BarRow Name)) (quotes : List (QuoteRow Name))
    (k : BarKey Name) :
    ((barsTableDeduped bars ++ quotesAfterCutoff (barsTableDeduped bars)
      (barsFromQuotes quotes)).filter fun bar => bar.key = k).length ≤ 1 := by
  have fromBars := length_filter_le_one (lastBy_distinct BarRow.key
    (bars.insertionSort fun a b => sortKey a.key ≤ sortKey b.key)) k
  have fromQuotes := length_filter_le_one ((barsFromQuotes_distinct quotes).sublist
    (List.filter_sublist (p := fun bar => match lastBarTs (barsTableDeduped bars) bar.exchange
      bar.symbol with
        | none => true
        | some lastTs => decide (lastTs < bar.timestamp)) |>.map BarRow.key)) k
  rw [List.filter_append, List.length_append]
  cases found : lastOf BarRow.key bars k with
  | none =>
      have none : ((barsTableDeduped bars).filter fun bar => bar.key = k) = [] := by
        rw [← List.getLast?_eq_none_iff]
        exact (lastOf_deduped bars k).trans found
      rw [none, List.length_nil, Nat.zero_add]
      exact fromQuotes
  | some bar =>
      have none : ((quotesAfterCutoff (barsTableDeduped bars) (barsFromQuotes quotes)).filter
          fun bar => bar.key = k) = [] := by
        rw [← List.getLast?_eq_none_iff]
        refine (lastOf_afterCutoff bars quotes k).trans ?_
        rw [if_neg (not_after_of_bar found)]
      rw [none, List.length_nil, Nat.add_zero]
      exact fromBars

theorem mem_stitched : bar ∈ stitched bars quotes ↔ bestBar bars quotes bar.key = some bar := by
  unfold stitched
  simp only
  rw [mem_lastBy, lastOf_perm (List.perm_insertionSort _ _)]
  · rw [lastOf_append, lastOf_deduped, lastOf_afterCutoff]
    unfold bestBar
    cases found : lastOf BarRow.key bars bar.key with
    | none => simp
    | some last => simp [not_after_of_bar found]
  · refine le_of_eq_of_le ?_ (stitched_single bars quotes bar.key)
    exact ((List.perm_insertionSort _ _).filter _).length_eq

theorem stitched_distinct (bars : List (BarRow Name)) (quotes : List (QuoteRow Name)) :
    ((stitched bars quotes).map BarRow.key).Nodup :=
  lastBy_distinct _ _

/-- `tv_ohlcv_1m` has one row for each minute that has a bar, and it is the best bar. -/
theorem tvOhlcv1m_exact (upper : Name → Name) (written : List (BarRow Name))
    (quotes : List (QuoteRow Name)) :
    (∀ row, row ∈ tvOhlcv1m upper written quotes ↔
        bestBar (barsTable upper written) quotes row.key = some row.toBarRow ∧
          row = numbered minute row.toBarRow) ∧
      ((tvOhlcv1m upper written quotes).map fun row => row.key).Nodup := by
  constructor
  · intro row
    unfold tvOhlcv1m
    rw [List.mem_map]
    constructor
    · rintro ⟨bar, member, rfl⟩
      exact ⟨mem_stitched.mp member, rfl⟩
    · rintro ⟨best, numbering⟩
      exact ⟨row.toBarRow, mem_stitched.mpr best, numbering.symm⟩
  · unfold tvOhlcv1m
    rw [List.map_map]
    exact stitched_distinct _ _

end Stitching

section Replay

variable {bars : List (BarRow Name)} {quotes : List (QuoteRow Name)} {k : BarKey Name}

def again {Row : Type} (before block after : List Row) : List Row := before ++ block ++ block ++ after

theorem mem_again {Row : Type} {before block after : List Row} {row : Row} :
    row ∈ again before block after ↔ row ∈ before ++ block ++ after := by
  simp only [again, List.mem_append]
  tauto

def volumeOf (quotes : List (QuoteRow Name)) (k : BarKey Name) : Rat :=
  ((quotes.filter fun quote => quote.key = k).map QuoteRow.volDelta).sum

def BarRow.addVolume (bar : BarRow Name) (more : Rat) : BarRow Name :=
  { bar with volume := bar.volume.map (· + more) }

theorem extreme_again {values values' : List Rat} (same : ∀ price, price ∈ values ↔ price ∈ values') :
    values.max? = values'.max? ∧ values.min? = values'.min? := by
  constructor
  · apply Option.ext
    intro price
    rw [List.max?_eq_some_iff, List.max?_eq_some_iff]
    simp only [same]
  · apply Option.ext
    intro price
    rw [List.min?_eq_some_iff, List.min?_eq_some_iff]
    simp only [same]

omit [LinearOrder Name] in
theorem quoteBar_again (k : BarKey Name) (before block after : List (QuoteRow Name)) :
    quoteBar k (again before block after) =
      (quoteBar k (before ++ block ++ after)).addVolume (block.map QuoteRow.volDelta).sum := by
  have first : (again before block after).head? = (before ++ block ++ after).head? := by
    cases before <;> cases block <;> rfl
  have last : (again before block after).getLast? = (before ++ block ++ after).getLast? := by
    simp only [again, List.getLast?_append]
    cases after.getLast? <;> cases block.getLast? <;> rfl
  have prices : ∀ price, price ∈ (again before block after).filterMap QuoteRow.lastPrice ↔
      price ∈ (before ++ block ++ after).filterMap QuoteRow.lastPrice := by
    intro price
    simp only [List.mem_filterMap, mem_again]
  obtain ⟨high, low⟩ := extreme_again prices
  have volume : ((again before block after).map QuoteRow.volDelta).sum =
      ((before ++ block ++ after).map QuoteRow.volDelta).sum +
        (block.map QuoteRow.volDelta).sum := by
    simp only [again, List.map_append, List.sum_append]
    ring
  unfold quoteBar BarRow.addVolume
  rw [first, last, high, low, volume, Option.map_some]

theorem quoteBarOf_again (before block after : List (QuoteRow Name)) (k : BarKey Name) :
    quoteBarOf (again before block after) k =
      (quoteBarOf (before ++ block ++ after) k).map fun bar =>
        bar.addVolume (volumeOf block k) := by
  have own : (again before block after).filter (fun quote => quote.key = k) =
      again (before.filter fun quote => quote.key = k) (block.filter fun quote => quote.key = k)
        (after.filter fun quote => quote.key = k) := by
    simp only [again, List.filter_append]
  have made (quotes : List (QuoteRow Name)) : quoteBarOf quotes k =
      if (quotes.filter fun quote => quote.key = k) = [] then none
      else some (quoteBar k (quotes.filter fun quote => quote.key = k)) := by
    unfold quoteBarOf
    split
    next none => rw [if_pos none]
    next some => rw [if_neg some]
  rw [made, made, own, quoteBar_again, List.filter_append, List.filter_append]
  by_cases empty : (before.filter fun quote => quote.key = k) ++
      (block.filter fun quote => quote.key = k) ++ (after.filter fun quote => quote.key = k) = []
  · rw [if_pos empty, if_pos, Option.map_none]
    simp only [again, List.append_eq_nil_iff] at empty ⊢
    tauto
  · rw [if_neg empty, if_neg, Option.map_some]
    · rfl
    · simp only [again, List.append_eq_nil_iff] at empty ⊢
      tauto

omit [LinearOrder Name] in
theorem afterBars_of_mem {others : List (BarRow Name)} (same : ∀ bar, bar ∈ bars ↔ bar ∈ others) :
    AfterBars bars k ↔ AfterBars others k := by
  unfold AfterBars
  simp only [same]

theorem bestBar_again (upper : Name → Name) (before block after : List (BarRow Name))
    (quotesBefore quotesBlock quotesAfter : List (QuoteRow Name)) (k : BarKey Name) :
    bestBar (barsTable upper (again before block after))
        (again quotesBefore quotesBlock quotesAfter) k =
      (bestBar (barsTable upper (before ++ block ++ after))
        (quotesBefore ++ quotesBlock ++ quotesAfter) k).map fun bar =>
          if (lastOf BarRow.key (barsTable upper (before ++ block ++ after)) k).isSome then bar
          else bar.addVolume (volumeOf quotesBlock k) := by
  have last : lastOf BarRow.key (barsTable upper (again before block after)) k =
      lastOf BarRow.key (barsTable upper (before ++ block ++ after)) k := by
    unfold barsTable again
    simp only [List.map_append]
    exact lastOf_again _ _ _
  have cutoff : AfterBars (barsTable upper (again before block after)) k ↔
      AfterBars (barsTable upper (before ++ block ++ after)) k := by
    apply afterBars_of_mem
    intro bar
    unfold barsTable
    simp only [List.mem_map, mem_again]
  unfold bestBar
  rw [last, quoteBarOf_again]
  simp only [cutoff]
  cases lastOf BarRow.key (barsTable upper (before ++ block ++ after)) k with
  | some bar => simp
  | none =>
      simp only [Option.none_or, Option.isSome_none, Bool.false_eq_true, if_false]
      split <;> rfl

def counted (bars : List (BarRow Name)) (twice : List (QuoteRow Name)) (row : OhlcvRow Name) :
    OhlcvRow Name :=
  if (lastOf BarRow.key bars row.key).isSome then row
  else { row with toBarRow := row.toBarRow.addVolume (volumeOf twice row.key) }

theorem counted_key (twice : List (QuoteRow Name)) (row : OhlcvRow Name) :
    (counted bars twice row).key = row.key := by
  unfold counted
  split <;> rfl

/-- Bars and quotes that are written twice leave the rows that come from the API as they are, and all of
the rows made of quotes but the volume, which counts the quotes of the minute twice. -/
theorem tvOhlcv1m_again (upper : Name → Name) (before block after : List (BarRow Name))
    (quotesBefore quotesBlock quotesAfter : List (QuoteRow Name)) :
    (tvOhlcv1m upper (again before block after) (again quotesBefore quotesBlock quotesAfter)).Perm
      ((tvOhlcv1m upper (before ++ block ++ after)
          (quotesBefore ++ quotesBlock ++ quotesAfter)).map
        (counted (barsTable upper (before ++ block ++ after)) quotesBlock)) := by
  obtain ⟨replayed, replayedOnce⟩ := tvOhlcv1m_exact upper (again before block after)
    (again quotesBefore quotesBlock quotesAfter)
  obtain ⟨original, originalOnce⟩ := tvOhlcv1m_exact upper (before ++ block ++ after)
    (quotesBefore ++ quotesBlock ++ quotesAfter)
  have mappedOnce : (((tvOhlcv1m upper (before ++ block ++ after)
      (quotesBefore ++ quotesBlock ++ quotesAfter)).map
        (counted (barsTable upper (before ++ block ++ after)) quotesBlock)).map
          fun row => row.key).Nodup := by
    rw [List.map_map]
    have same : ((fun row : OhlcvRow Name => row.key) ∘
        counted (barsTable upper (before ++ block ++ after)) quotesBlock) = fun row => row.key :=
      funext fun row => counted_key quotesBlock row
    rw [same]
    exact originalOnce
  rw [List.perm_ext_iff_of_nodup (replayedOnce.of_map _) (mappedOnce.of_map _)]
  intro row
  rw [replayed, bestBar_again, Option.map_eq_some_iff, List.mem_map]
  constructor
  · rintro ⟨⟨bar, best, made⟩, numbering⟩
    have key : bar.key = row.key := by
      rw [← made]
      split <;> rfl
    rw [← key] at best made
    refine ⟨numbered minute bar, (original _).mpr ⟨best, rfl⟩, ?_⟩
    rw [numbering, ← made]
    unfold counted
    change (if (lastOf BarRow.key _ bar.key).isSome = true then _ else _) = _
    split <;> rfl
  · rintro ⟨first, member, rfl⟩
    obtain ⟨best, numbering⟩ := (original first).mp member
    rw [counted_key]
    refine ⟨⟨first.toBarRow, best, ?_⟩, ?_⟩
    · unfold counted
      split <;> rfl
    · unfold counted
      split
      · exact numbering
      · rw [numbering]
        rfl

end Replay

end DeepFeeder.TvBars
