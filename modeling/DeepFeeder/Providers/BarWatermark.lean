import DeepFeeder.Providers.TradingViewApi

set_option autoImplicit false

namespace DeepFeeder.TvBars

section Cutoff

variable {settings : BarSettings} {bars : List ApiBar} {last cutoff : Int}

def newerThan (bars : List ApiBar) (datetime : Int) : Nat :=
  bars.countP fun bar => datetime < bar.datetime

theorem newerThan_eq (bars : List ApiBar) (datetime : Int) :
    newerThan bars datetime = (bars.map ApiBar.datetime).countP (datetime < ·) := by
  unfold newerThan
  rw [List.countP_map]
  rfl

theorem newerThan_lt {bar : ApiBar} (member : bar ∈ bars) :
    newerThan bars bar.datetime < bars.length := by
  refine lt_of_le_of_ne List.countP_le_length fun all => ?_
  have newer := List.countP_eq_length.mp all bar member
  exact absurd (of_decide_eq_true newer) (lt_irrefl _)

theorem cutoff_le_iff (overlap : 1 ≤ settings.overlapBars)
    (isCutoff : recentCutoff settings (some last) bars = some cutoff) {bar : ApiBar}
    (member : bar ∈ bars) :
    cutoff ≤ bar.datetime ↔ (newerThan bars bar.datetime : Int) < settings.overlapBars := by
  have fewer := newerThan_lt member
  unfold recentCutoff at isCutoff
  simp only at isCutoff
  split at isCutoff
  next many =>
      obtain ⟨k, isK⟩ := Int.eq_ofNat_of_zero_le (show 0 ≤ settings.overlapBars by omega)
      unfold iloc at isCutoff
      rw [if_neg (by omega), isK, neg_neg, Int.toNat_natCast, List.length_insertionSort,
        List.length_map, if_pos (by omega), List.getElem?_eq_some_iff] at isCutoff
      obtain ⟨inside, value⟩ := isCutoff
      have size : (bars.map ApiBar.datetime).length = bars.length := List.length_map ..
      have rank := @Ranks.fromEnd_le_iff _ _ (bars.map ApiBar.datetime) bar.datetime k
        (by omega) (by rwa [size])
      simp only [size] at rank
      rw [← value, rank, newerThan_eq, isK, Nat.cast_lt]
  next few =>
      have lowest := (List.min?_eq_some_iff.mp isCutoff).2 bar.datetime (List.mem_map_of_mem member)
      exact iff_of_true lowest (by omega)

end Cutoff

section Latest

theorem foldl_newer (last : Int) (datetimes : List Int) :
    datetimes.foldl newer (some last) = (last :: datetimes).max? := by
  rw [List.max?_cons']
  induction datetimes generalizing last with
  | nil => rfl
  | cons first rest ih =>
      have step : newer (some last) first = some (max last first) := by
        unfold newer
        simp only [Option.some.injEq]
        split <;> omega
      rw [List.foldl_cons, List.foldl_cons, step, ih]

theorem latest_published_iff {last latest : Int} {datetimes : List Int}
    (isLatest : datetimes.foldl newer (some last) = some latest) :
    (latest ∈ datetimes ∧ ∀ other ∈ datetimes, other ≤ latest) ↔
      ∃ datetime ∈ datetimes, last ≤ datetime := by
  rw [foldl_newer, List.max?_eq_some_iff] at isLatest
  obtain ⟨member, greatest⟩ := isLatest
  have above := greatest last List.mem_cons_self
  constructor
  next => exact fun ⟨published, _⟩ => ⟨latest, published, above⟩
  next =>
      rintro ⟨datetime, published, reached⟩
      refine ⟨?_, fun other inside => greatest other (List.mem_cons_of_mem _ inside)⟩
      rcases List.mem_cons.mp member with same | later
      next =>
          have below := greatest datetime (List.mem_cons_of_mem _ published)
          have equal : latest = datetime := by omega
          rwa [equal]
      next => exact later

end Latest

/-- A turn has published every bar from the watermark on, and the watermark after it is the greatest
datetime that it has published. -/
def KeepsUp (feed : Feed) (bars : List ApiBar) (last : Int) (ticks : List Tick)
    (next : Watermarks) : Prop :=
  (∀ bar ∈ bars, last ≤ bar.datetime → tickOf feed bar ∈ ticks) ∧
    ∃ latest, next.get feed.symbol = some latest ∧ latest ∈ ticks.map Tick.tsNs ∧
      ∀ t ∈ ticks, t.tsNs ≤ latest

section Turn

variable {settings : BarSettings} {wm : Watermarks} {feed : Feed} {response : Response}

theorem tickOf_mem_iff {bars : List ApiBar} {cutoff : Int} {bar : ApiBar} (member : bar ∈ bars) :
    tickOf feed bar ∈ (bars.filter fun bar => cutoff ≤ bar.datetime).map (tickOf feed) ↔
      cutoff ≤ bar.datetime := by
  constructor
  next =>
      intro published
      obtain ⟨other, kept, same⟩ := List.mem_map.mp published
      have time : other.datetime = bar.datetime := congrArg Tick.tsNs same
      rw [← time]
      exact of_decide_eq_true (List.mem_filter.mp kept).2
  next =>
      exact fun recent => List.mem_map_of_mem (List.mem_filter.mpr ⟨member, decide_eq_true recent⟩)

theorem keepsUp_iff {bars : List ApiBar} {last latest cutoff : Int} {next : Watermarks}
    (isLatest : ((bars.filter fun bar => cutoff ≤ bar.datetime).map ApiBar.datetime).foldl newer
      (some last) = some latest) (state : next.get feed.symbol = some latest) :
    KeepsUp feed bars last ((bars.filter fun bar => cutoff ≤ bar.datetime).map (tickOf feed)) next ↔
      (∃ bar ∈ bars, last ≤ bar.datetime) ∧
        ∀ bar ∈ bars, last ≤ bar.datetime → cutoff ≤ bar.datetime := by
  have times : ((bars.filter fun bar => cutoff ≤ bar.datetime).map (tickOf feed)).map Tick.tsNs =
      (bars.filter fun bar => cutoff ≤ bar.datetime).map ApiBar.datetime := by
    rw [List.map_map]
    rfl
  have reached := latest_published_iff isLatest
  unfold KeepsUp
  simp only [state, Option.some.injEq, exists_eq_left', ← List.forall_mem_map (f := Tick.tsNs)
    (P := fun time => time ≤ latest), times]
  rw [reached]
  constructor
  next =>
      rintro ⟨all, _, kept, above⟩
      obtain ⟨bar, inside, rfl⟩ := List.mem_map.mp kept
      exact ⟨⟨bar, List.mem_of_mem_filter inside, above⟩, fun bar member above =>
        (tickOf_mem_iff member).mp (all bar member above)⟩
  next =>
      rintro ⟨⟨bar, member, above⟩, all⟩
      have kept : bar ∈ bars.filter fun bar => cutoff ≤ bar.datetime :=
        List.mem_filter.mpr ⟨member, decide_eq_true (all bar member above)⟩
      exact ⟨fun bar member above => (tickOf_mem_iff member).mpr (all bar member above),
        bar.datetime, List.mem_map_of_mem kept, above⟩

theorem turn_keepsUp_iff (overlap : 1 ≤ settings.overlapBars) {rows : List ApiRow}
    (result : response.result = .frame rows) {last : Int} (known : wm.get feed.symbol = some last)
    (published : (turn settings wm feed response).1 ≠ []) :
    let window := calcWindow settings (some last) response.now
    let bars := within rows window.1 window.2
    let out := turn settings wm feed response
    KeepsUp feed bars last out.1 out.2 ↔
      (∃ bar ∈ bars, last ≤ bar.datetime) ∧
        ∀ bar ∈ bars, last ≤ bar.datetime →
          (newerThan bars bar.datetime : Int) < settings.overlapBars := by
  intro window bars out
  obtain ⟨ticks, state⟩ := turn_spec settings wm feed response
  rw [known] at ticks state
  cases attempted : attempt settings feed (some last) response with
  | none =>
      rw [attempted] at ticks
      exact absurd ticks published
  | some pair =>
      obtain ⟨made, latest⟩ := pair
      obtain ⟨rows', cutoff, result', isCutoff, _, isMade, isLatest⟩ := attempt_eq_some attempted
      rw [result, ApiResult.frame.injEq] at result'
      subst result'
      have after := state feed.symbol
      rw [if_pos rfl, attempted, Option.bind_some] at after
      rw [attempted, Option.map_some, Option.getD_some, isMade] at ticks
      have folded := isLatest.symm
      rw [foldl_newer] at folded
      obtain ⟨newest, isNewest⟩ := Option.isSome_iff_exists.mp
        (List.isSome_max?_of_mem (l := last :: _) List.mem_cons_self)
      rw [folded] at isNewest
      rw [isNewest] at isLatest after
      rw [show out.1 = _ from ticks, keepsUp_iff isLatest.symm after]
      refine and_congr_right fun _ => forall₂_congr fun bar member => ?_
      exact imp_congr_right fun _ => cutoff_le_iff overlap isCutoff member

end Turn

/-- In a batch, a feed whose turn comes with a watermark and publishes has published every bar of its
frame from the watermark on, and has moved the watermark to the greatest datetime published, exactly
when the frame has such a bar and fewer rows than the overlap are newer than each of these. -/
theorem runOnceBatch_keepsUp_iff (settings : BarSettings) (overlap : 1 ≤ settings.overlapBars)
    (wm : Watermarks) (before after : List (Feed × Response)) (feed : Feed) (response : Response)
    {rows : List ApiRow} (result : response.result = .frame rows) {last : Int}
    (known : (runOnceBatch settings wm before).2.get feed.symbol = some last) {ticks : List Tick}
    (published : (runOnceBatch settings wm (before ++ (feed, response) :: after)).1[before.length]? =
      some ticks) (some_ : ticks ≠ []) :
    let window := calcWindow settings (some last) response.now
    let bars := within rows window.1 window.2
    let next := (runOnceBatch settings wm (before ++ [(feed, response)])).2
    KeepsUp feed bars last ticks next ↔
      (∃ bar ∈ bars, last ≤ bar.datetime) ∧
        ∀ bar ∈ bars, last ≤ bar.datetime →
          (newerThan bars bar.datetime : Int) < settings.overlapBars := by
  intro window bars next
  rw [runOnceBatch_at, Option.some.injEq] at published
  have after_ : next = (turn settings (runOnceBatch settings wm before).2 feed response).2 := by
    unfold next
    rw [runOnceBatch_append]
    rfl
  rw [after_, ← published]
  exact turn_keepsUp_iff overlap result known (published ▸ some_)

section Runs

def defaults : BarSettings := { overlapBars := 5, daysBackFull := 10 }

def future : Feed := { exchange := some "BMFBOVESPA", symbol := "INDV2025" }

def reached : Watermarks := Dict.set ∅ "INDV2025" (some (100 * minute))

def minuteRows (first count : Nat) : List ApiRow :=
  (List.range count).map fun i =>
    { datetime := some ((first + i : Nat) * minute)
      prices := ⟨.float 1, .float 2, .float 1, .float 2, .float 10⟩ }

def answered (first count : Nat) : Response :=
  { now := (first + count) * minute, result := .frame (minuteRows first count), publishes := true }

theorem runOnceBatch_keepsUp_overlap :
    let out := runOnceBatch defaults reached [(future, answered 98 6)]
    KeepsUp future (within (minuteRows 98 6) (95 * minute) (104 * minute)) (100 * minute)
      (out.1.headD []) out.2 := by
  intro out
  refine (runOnceBatch_keepsUp_iff defaults (by decide) reached [] [] future (answered 98 6) rfl rfl
    rfl ?_).mpr ?_
  next => exact List.cons_ne_nil _ _
  next => decide +kernel

-- With seven bars from the watermark on, the first two are never published.
theorem outage_bars_skipped :
    let out := runOnceBatch defaults reached [(future, answered 100 7)]
    (out.1.map fun ticks => ticks.map Tick.tsNs) =
        [[102 * minute, 103 * minute, 104 * minute, 105 * minute, 106 * minute]] ∧
      out.2.get "INDV2025" = some (106 * minute) ∧
      ¬ KeepsUp future (within (minuteRows 100 7) (95 * minute) (107 * minute)) (100 * minute)
        (out.1.headD []) out.2 := by
  intro out
  refine ⟨by decide +kernel, by decide +kernel, ?_⟩
  have equivalent := @turn_keepsUp_iff defaults reached future (answered 100 7) (by decide) _ rfl _ rfl
    (List.cons_ne_nil _ _)
  exact equivalent.not.mpr (by decide +kernel)

end Runs

end DeepFeeder.TvBars
