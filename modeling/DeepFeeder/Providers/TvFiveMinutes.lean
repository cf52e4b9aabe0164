import Mathlib.Data.String.Basic
import DeepFeeder.Providers.NestedBars
import DeepFeeder.Providers.TvBars

set_option autoImplicit false

namespace DeepFeeder.TvBars

open LastBy NestedGroups
open BinanceBars (minute day lowerBin fiveMinutes)

variable {Name : Type} [LinearOrder Name]

def fiveKey (row : OhlcvRow Name) : BarKey Name :=
  (row.exchange, row.symbol, lowerBin row.timestamp fiveMinutes)

-- Null is left out of a sum, and a sum of nothing is null.
def sumOf (values : List (Option Rat)) : Option Rat :=
  match values.filterMap id with
  | [] => none
  | known => some known.sum

def fiveBar (k : BarKey Name) (group : List (OhlcvRow Name)) : BarRow Name :=
  { exchange := k.1
    symbol := k.2.1
    timestamp := k.2.2
    openPrice := group.head?.bind fun row => row.openPrice
    high := (group.filterMap fun row => row.high).max?
    low := (group.filterMap fun row => row.low).min?
    close := group.getLast?.bind fun row => row.close
    volume := sumOf (group.map fun row => row.volume)
    isFinal := group.all fun row => row.isFinal }

def tvOhlcv5m (rows : List (OhlcvRow Name)) : List (OhlcvRow Name) :=
  (Dict.groupBy fiveKey rows).entries.map fun entry =>
    numbered fiveMinutes (fiveBar entry.1 entry.2)

structure Sane (bar : BarRow Name) : Prop where
  both : bar.low.isSome = bar.high.isSome
  ordered : ∀ low high, bar.low = some low → bar.high = some high → low ≤ high
  inside : ∀ price, bar.openPrice = some price ∨ bar.close = some price →
    (∃ low, bar.low = some low ∧ low ≤ price) ∧ ∃ high, bar.high = some high ∧ price ≤ high

section Extremes

variable {Row : Type} {group : List Row} {row : Row} {low high : Row → Option Rat} {price : Rat}

theorem min?_le (member : row ∈ group) (own : low row = some price) :
    ∃ least, (group.filterMap low).min? = some least ∧ least ≤ price := by
  have inside : price ∈ group.filterMap low := List.mem_filterMap.mpr ⟨row, member, own⟩
  cases found : (group.filterMap low).min? with
  | none =>
      rw [List.min?_eq_none_iff.mp found] at inside
      cases inside
  | some least => exact ⟨least, rfl, (List.min?_eq_some_iff.mp found).2 price inside⟩

theorem le_max? (member : row ∈ group) (own : high row = some price) :
    ∃ most, (group.filterMap high).max? = some most ∧ price ≤ most := by
  have inside : price ∈ group.filterMap high := List.mem_filterMap.mpr ⟨row, member, own⟩
  cases found : (group.filterMap high).max? with
  | none =>
      rw [List.max?_eq_none_iff.mp found] at inside
      cases inside
  | some most => exact ⟨most, rfl, (List.max?_eq_some_iff.mp found).2 price inside⟩

theorem extremes_fit (both : ∀ row ∈ group, (low row).isSome = (high row).isSome)
    (ordered : ∀ row ∈ group, ∀ l h, low row = some l → high row = some h → l ≤ h) :
    (group.filterMap low).min?.isSome = (group.filterMap high).max?.isSome ∧
      ∀ l h, (group.filterMap low).min? = some l → (group.filterMap high).max? = some h → l ≤ h := by
  have fits : ∀ h ∈ group.filterMap high, ∃ l, (group.filterMap low).min? = some l ∧ l ≤ h := by
    intro h inside
    obtain ⟨row, member, own⟩ := List.mem_filterMap.mp inside
    obtain ⟨l, ownLow⟩ := Option.isSome_iff_exists.mp
      ((both row member).trans (Option.isSome_iff_exists.mpr ⟨h, own⟩))
    obtain ⟨least, found, le⟩ := min?_le member ownLow
    exact ⟨least, found, le_trans le (ordered row member l h ownLow own)⟩
  constructor
  · rw [Bool.eq_iff_iff, Option.isSome_iff_exists, Option.isSome_iff_exists]
    constructor
    · rintro ⟨l, found⟩
      obtain ⟨row, member, own⟩ := List.mem_filterMap.mp (List.min?_eq_some_iff.mp found).1
      obtain ⟨h, ownHigh⟩ := Option.isSome_iff_exists.mp
        ((both row member).symm.trans (Option.isSome_iff_exists.mpr ⟨l, own⟩))
      obtain ⟨most, found, _⟩ := le_max? member ownHigh
      exact ⟨most, found⟩
    · rintro ⟨h, found⟩
      obtain ⟨l, found, _⟩ := fits h (List.max?_eq_some_iff.mp found).1
      exact ⟨l, found⟩
  · intro l h foundLow foundHigh
    obtain ⟨least, found, le⟩ := fits h (List.max?_eq_some_iff.mp foundHigh).1
    rw [foundLow] at found
    cases found
    exact le

end Extremes

section Minutes

variable {bars : List (BarRow Name)} {quotes : List (QuoteRow Name)} {k : BarKey Name}

omit [LinearOrder Name] in
theorem quoteBar_sane (k : BarKey Name) (group : List (QuoteRow Name)) : Sane (quoteBar k group) where
  both := (extremes_fit (fun _ _ => rfl) fun _ _ l h low high =>
    le_of_eq (Option.some.inj (low.symm.trans high))).1
  ordered := (extremes_fit (fun _ _ => rfl) fun _ _ l h low high =>
    le_of_eq (Option.some.inj (low.symm.trans high))).2
  inside := by
    have fits {quote : QuoteRow Name} {price : Rat} (member : quote ∈ group)
        (own : quote.lastPrice = some price) :=
      And.intro (min?_le member own) (le_max? member own)
    rintro price (opened | closed)
    · obtain ⟨quote, first, own⟩ := Option.bind_eq_some_iff.mp opened
      exact fits (List.mem_of_head? first) own
    · obtain ⟨quote, last, own⟩ := Option.bind_eq_some_iff.mp closed
      exact fits (List.mem_of_getLast? last) own

theorem bestBar_sane {bar : BarRow Name} (sane : ∀ bar ∈ bars, Sane bar)
    (best : bestBar bars quotes k = some bar) : Sane bar := by
  unfold bestBar at best
  rcases Option.or_eq_some_iff.mp best with found | ⟨_, found⟩
  · exact sane bar (lastOf_eq_some found).2
  · split at found
    · unfold quoteBarOf at found
      split at found
      · cases found
      · cases found
        exact quoteBar_sane _ _
    · cases found

theorem tvOhlcv1m_sane {upper : Name → Name} {written : List (BarRow Name)}
    (sane : ∀ bar ∈ written, Sane bar) :
    ∀ row ∈ tvOhlcv1m upper written quotes, Sane row.toBarRow := by
  intro row member
  refine bestBar_sane ?_ (((tvOhlcv1m_exact upper written quotes).1 row).mp member).1
  intro bar inside
  obtain ⟨source, own, rfl⟩ := List.mem_map.mp inside
  exact ⟨(sane source own).both, (sane source own).ordered, (sane source own).inside⟩

end Minutes

section FiveMinutes

variable {rows : List (OhlcvRow Name)} {row : OhlcvRow Name}

omit [LinearOrder Name] in
theorem fiveBar_sane (k : BarKey Name) {group : List (OhlcvRow Name)}
    (sane : ∀ row ∈ group, Sane row.toBarRow) : Sane (fiveBar k group) where
  both := (extremes_fit (fun row member => (sane row member).both)
    fun row member => (sane row member).ordered).1
  ordered := (extremes_fit (fun row member => (sane row member).both)
    fun row member => (sane row member).ordered).2
  inside := by
    have fits {row : OhlcvRow Name} {price : Rat} (member : row ∈ group)
        (own : row.openPrice = some price ∨ row.close = some price) :
        (∃ least, (group.filterMap fun row => row.low).min? = some least ∧ least ≤ price) ∧
          ∃ most, (group.filterMap fun row => row.high).max? = some most ∧ price ≤ most := by
      obtain ⟨⟨low, ownLow, below⟩, high, ownHigh, above⟩ := (sane row member).inside price own
      constructor
      · obtain ⟨least, found, le⟩ : ∃ least,
            (group.filterMap fun row => row.low).min? = some least ∧ least ≤ low := by
          exact min?_le member ownLow
        exact ⟨least, found, le_trans le below⟩
      · obtain ⟨most, found, le⟩ : ∃ most,
            (group.filterMap fun row => row.high).max? = some most ∧ high ≤ most := by
          exact le_max? member ownHigh
        exact ⟨most, found, le_trans above le⟩
    rintro price (opened | closed)
    · obtain ⟨row, first, own⟩ := Option.bind_eq_some_iff.mp opened
      exact fits (List.mem_of_head? first) (.inl own)
    · obtain ⟨row, last, own⟩ := Option.bind_eq_some_iff.mp closed
      exact fits (List.mem_of_getLast? last) (.inr own)

theorem mem_tvOhlcv5m (member : row ∈ tvOhlcv5m rows) :
    row = numbered fiveMinutes
      (fiveBar row.key (rows.filter fun minuteRow => fiveKey minuteRow = row.key)) := by
  obtain ⟨⟨k, group⟩, inside, rfl⟩ := List.mem_map.mp member
  obtain ⟨_, rfl⟩ := Dict.mem_entries_groupBy inside
  rfl

def totalVolume (exchange symbol : Name) (rows : List (OhlcvRow Name)) : Rat :=
  ((rows.filter fun row => row.exchange = exchange ∧ row.symbol = symbol).map fun row =>
    row.volume.getD 0).sum

theorem sumOf_getD (values : List (Option Rat)) :
    (sumOf values).getD 0 = (values.map fun value => value.getD 0).sum := by
  have known : (values.filterMap id).sum = (values.map fun value => value.getD 0).sum := by
    induction values with
    | nil => rfl
    | cons value rest ih =>
        cases value with
        | none => simpa using ih
        | some value => simpa using ih
  rw [← known]
  unfold sumOf
  split
  next none => rw [none]; rfl
  next => rfl

theorem totalVolume_five (exchange symbol : Name) (rows : List (OhlcvRow Name)) :
    totalVolume exchange symbol (tvOhlcv5m rows) = totalVolume exchange symbol rows := by
  let isOwn (k : BarKey Name) : Bool := decide (k.1 = exchange ∧ k.2.1 = symbol)
  have sums := sum_some_groups fiveKey isOwn rows fun row => row.volume.getD 0
  have bars : totalVolume exchange symbol (tvOhlcv5m rows) =
      (((firstSeen (rows.map fiveKey)).filter isOwn).map fun k =>
        ((rows.filter fun row => fiveKey row = k).map fun row => row.volume.getD 0).sum).sum := by
    unfold totalVolume tvOhlcv5m
    rw [entries_groupBy, List.map_map, List.filter_map, List.map_map]
    refine congrArg List.sum (List.map_congr_left fun k _ => ?_)
    change (fiveBar k (rows.filter fun row => fiveKey row = k)).volume.getD 0 = _
    unfold fiveBar
    rw [sumOf_getD, List.map_map]
    rfl
  rw [bars, sums]
  rfl

/-- Whatever order the one-minute rows stand in, the prices of the five-minute rows fit together if those
of the bars from the API do, a row is final exactly if all its minutes are, and no volume is lost or
counted twice. -/
theorem tvOhlcv5m_sound (upper : Name → Name) (written : List (BarRow Name))
    (quotes : List (QuoteRow Name)) (sane : ∀ bar ∈ written, Sane bar)
    (rows : List (OhlcvRow Name)) (order : rows.Perm (tvOhlcv1m upper written quotes)) :
    (∀ row ∈ tvOhlcv5m rows, Sane row.toBarRow ∧
        (row.isFinal = true ↔
          ∀ bar ∈ tvOhlcv1m upper written quotes, fiveKey bar = row.key → bar.isFinal = true)) ∧
      ∀ exchange symbol, totalVolume exchange symbol (tvOhlcv5m rows) =
        totalVolume exchange symbol (tvOhlcv1m upper written quotes) := by
  constructor
  · intro row member
    have made := mem_tvOhlcv5m member
    constructor
    · rw [made]
      refine fiveBar_sane _ fun bar inside => ?_
      exact tvOhlcv1m_sane sane bar (order.mem_iff.mp (List.mem_of_mem_filter inside))
    · have final : row.isFinal =
          (rows.filter fun bar => fiveKey bar = row.key).all fun bar => bar.isFinal :=
        congrArg (fun row => row.isFinal) made
      rw [final, List.all_eq_true]
      simp only [List.mem_filter, decide_eq_true_eq, and_imp, order.mem_iff]
  · intro exchange symbol
    rw [totalVolume_five]
    unfold totalVolume
    exact ((order.filter _).map _).sum_eq

end FiveMinutes

def oneBar : BarRow String :=
  { exchange := "nasdaq", symbol := "aapl", timestamp := 0, openPrice := some 10, high := some 12
    low := some 9, close := some 11, volume := some 100, isFinal := true }

def twoQuotes : List (QuoteRow String) :=
  [⟨"NASDAQ", "AAPL", 30000000000, some 8, 1⟩, ⟨"NASDAQ", "AAPL", 61000000000, some 13, 5⟩]

theorem tvOhlcv5m_sound_two_minutes :
    ((tvOhlcv1m String.toUpper [oneBar] twoQuotes).map fun row =>
        (row.timestamp, row.high, row.isFinal)) =
      [(0, some 12, true), (minute, some 13, false)] ∧
    ((∀ row ∈ tvOhlcv5m (tvOhlcv1m String.toUpper [oneBar] twoQuotes), Sane row.toBarRow ∧
        (row.isFinal = true ↔ ∀ bar ∈ tvOhlcv1m String.toUpper [oneBar] twoQuotes,
          fiveKey bar = row.key → bar.isFinal = true)) ∧
      ∀ exchange symbol,
        totalVolume exchange symbol (tvOhlcv5m (tvOhlcv1m String.toUpper [oneBar] twoQuotes)) =
          totalVolume exchange symbol (tvOhlcv1m String.toUpper [oneBar] twoQuotes)) := by
  refine ⟨by decide +kernel, ?_⟩
  refine tvOhlcv5m_sound String.toUpper [oneBar] twoQuotes ?_ _ (List.Perm.refl _)
  intro bar member
  rw [List.mem_singleton] at member
  subst member
  refine ⟨rfl, ?_, ?_⟩
  · intro low high ownLow ownHigh
    cases ownLow
    cases ownHigh
    decide +kernel
  · rintro price (opened | closed)
    · cases opened
      exact ⟨⟨9, rfl, by decide +kernel⟩, 12, rfl, by decide +kernel⟩
    · cases closed
      exact ⟨⟨9, rfl, by decide +kernel⟩, 12, rfl, by decide +kernel⟩

end DeepFeeder.TvBars
