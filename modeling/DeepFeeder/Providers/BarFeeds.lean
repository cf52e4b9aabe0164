import DeepFeeder.Providers.BarWatermark

set_option autoImplicit false

namespace DeepFeeder.TvBars

section Cycles

abbrev Cycle := Nat → Response

def assigned (feeds : List Feed) (cycle : Cycle) : List (Feed × Response) :=
  feeds.zipIdx.map fun item => (item.1, cycle item.2)

def runCycles (settings : BarSettings) (feeds : List Feed) :
    Watermarks → List Cycle → List (List (List Tick))
  | _, [] => []
  | wm, cycle :: rest =>
      let out := runOnceBatch settings wm (assigned feeds cycle)
      out.1 :: runCycles settings feeds out.2 rest

def publishedAt (i : Nat) (run : List (List (List Tick))) : List (List Tick) :=
  run.map fun turns => turns[i]?.getD []

def published (settings : BarSettings) (symbols : List String) (exchange : ExchangeArg)
    (state : List (String × Option Int)) (cycles : List Cycle) (i : Nat) :
    Except String (List (List Tick)) :=
  (feeds symbols exchange).map fun feeds =>
    publishedAt i (runCycles settings feeds (initWatermarks feeds state) cycles)

def ExchangeArg.at (i : Nat) : ExchangeArg → ExchangeArg
  | .none => .none
  | .one exchange => .one exchange
  | .list exchanges => .list exchanges[i]?.toList

theorem length_feeds {symbols : List String} {exchange : ExchangeArg} {fs : List Feed}
    (made : feeds symbols exchange = .ok fs) : fs.length = symbols.length := by
  cases exchange with
  | none | one =>
      cases made
      exact List.length_map ..
  | list exchanges =>
      unfold feeds at made
      simp only at made
      split at made
      next same =>
          cases made
          rw [List.length_zipWith, same, Nat.min_self]
      next => cases made

theorem feeds_at {symbols : List String} {exchange : ExchangeArg} {fs : List Feed}
    (made : feeds symbols exchange = .ok fs) {i : Nat} (inside : i < fs.length)
    (inside' : i < symbols.length) :
    fs[i].symbol = (parseSymbol symbols[i]).2 ∧
      feeds [symbols[i]] (exchange.at i) = .ok [fs[i]] := by
  cases exchange with
  | none | one =>
      cases made
      rw [List.getElem_map]
      exact ⟨rfl, rfl⟩
  | list exchanges =>
      unfold feeds at made
      simp only at made
      split at made
      next same =>
          cases made
          have inside'' : i < exchanges.length := by omega
          rw [List.getElem_zipWith]
          refine ⟨rfl, ?_⟩
          have one : (ExchangeArg.list exchanges).at i = .list [exchanges[i]] := by
            unfold ExchangeArg.at
            simp only
            rw [List.getElem?_eq_getElem inside'']
            rfl
          rw [one]
          rfl
      next => cases made

end Cycles

section Turns

variable {settings : BarSettings} {wm : Watermarks} {feed : Feed} {symbol : String}

theorem runOnceBatch_get {items : List (Feed × Response)}
    (others : ∀ item ∈ items, item.1.symbol ≠ symbol) :
    (runOnceBatch settings wm items).2.get symbol = wm.get symbol := by
  induction items generalizing wm with
  | nil => rfl
  | cons item rest ih =>
      obtain ⟨feed, response⟩ := item
      obtain ⟨apart, others⟩ := List.forall_mem_cons.mp others
      have step := (turn_spec settings wm feed response).2 symbol
      rw [if_neg (Ne.symm apart)] at step
      simp only [runOnceBatch]
      rw [ih others, step]

theorem turn_congr {wm' : Watermarks} (same : wm.get feed.symbol = wm'.get feed.symbol)
    (response : Response) :
    (turn settings wm feed response).1 = (turn settings wm' feed response).1 ∧
      (turn settings wm feed response).2.get feed.symbol =
        (turn settings wm' feed response).2.get feed.symbol := by
  obtain ⟨ticks, state⟩ := turn_spec settings wm feed response
  obtain ⟨ticks', state'⟩ := turn_spec settings wm' feed response
  rw [ticks, ticks', state, state', if_pos rfl, if_pos rfl, same]
  exact ⟨rfl, rfl⟩

theorem length_assigned (fs : List Feed) (cycle : Cycle) :
    (assigned fs cycle).length = fs.length := by
  unfold assigned
  rw [List.length_map, List.length_zipIdx]

theorem getElem_assigned {fs : List Feed} {cycle : Cycle} {i : Nat} (inside : i < fs.length)
    (inside' : i < (assigned fs cycle).length) : (assigned fs cycle)[i] = (fs[i], cycle i) := by
  simp [assigned]

theorem assigned_split {fs : List Feed} {cycle : Cycle} {i : Nat} (inside : i < fs.length) :
    assigned fs cycle =
      (assigned fs cycle).take i ++ (fs[i], cycle i) :: (assigned fs cycle).drop (i + 1) := by
  have inside' : i < (assigned fs cycle).length := by rwa [length_assigned]
  rw [← getElem_assigned inside inside', List.getElem_cons_drop, List.take_append_drop]

theorem assigned_around {fs : List Feed} {cycle : Cycle} {i : Nat} {P : Feed × Response → Prop}
    (others : ∀ j (other : j < fs.length), j ≠ i → P (fs[j], cycle j)) (inside : i < fs.length) :
    (∀ item ∈ (assigned fs cycle).take i, P item) ∧
      ∀ item ∈ (assigned fs cycle).drop (i + 1), P item := by
  constructor
  next =>
      intro item member
      obtain ⟨j, bound, rfl⟩ := List.mem_take_iff_getElem.mp member
      have place : j < fs.length := by omega
      rw [getElem_assigned place]
      exact others j place (by omega)
  next =>
      intro item member
      obtain ⟨j, bound, rfl⟩ := List.mem_drop_iff_getElem.mp member
      have place : i + 1 + j < fs.length := by rw [← length_assigned fs cycle]; omega
      rw [getElem_assigned place]
      exact others _ place (by omega)

theorem assigned_at {fs : List Feed} {cycle : Cycle} {i : Nat} (inside : i < fs.length)
    (apart : ∀ j (other : j < fs.length), j ≠ i → fs[j].symbol ≠ fs[i].symbol) :
    (runOnceBatch settings wm (assigned fs cycle)).1[i]? =
        some (turn settings wm fs[i] (cycle i)).1 ∧
      (runOnceBatch settings wm (assigned fs cycle)).2.get fs[i].symbol =
        (turn settings wm fs[i] (cycle i)).2.get fs[i].symbol := by
  have inside' : i < (assigned fs cycle).length := by rwa [length_assigned]
  obtain ⟨before, after_⟩ :=
    @assigned_around fs cycle i (fun item => item.1.symbol ≠ fs[i].symbol) apart inside
  have known : (runOnceBatch settings wm ((assigned fs cycle).take i)).2.get fs[i].symbol =
      wm.get fs[i].symbol := runOnceBatch_get before
  obtain ⟨ticks, state⟩ := turn_congr known (cycle i)
  have size : ((assigned fs cycle).take i).length = i := List.length_take_of_le inside'.le
  rw [assigned_split inside]
  constructor
  next =>
      have here := runOnceBatch_at settings wm ((assigned fs cycle).take i)
        ((assigned fs cycle).drop (i + 1)) fs[i] (cycle i)
      rw [size] at here
      rw [here, ticks]
  next =>
      rw [runOnceBatch_append]
      simp only [runOnceBatch]
      rw [runOnceBatch_get after_, state]

theorem runCycles_alone {fs : List Feed} {i : Nat} (inside : i < fs.length)
    (apart : ∀ j (other : j < fs.length), j ≠ i → fs[j].symbol ≠ fs[i].symbol)
    {wm' : Watermarks} (same : wm.get fs[i].symbol = wm'.get fs[i].symbol) (cycles : List Cycle) :
    publishedAt i (runCycles settings fs wm cycles) =
      publishedAt 0 (runCycles settings [fs[i]] wm' (cycles.map fun cycle _ => cycle i)) := by
  induction cycles generalizing wm wm' with
  | nil => rfl
  | cons cycle rest ih =>
      obtain ⟨ticks, state⟩ := @assigned_at settings wm fs cycle i inside apart
      obtain ⟨ticks', state'⟩ := @turn_congr settings _ fs[i] _ same (cycle i)
      have next := ih (state.trans state')
      unfold publishedAt at next ⊢
      rw [List.map_cons]
      simp only [runCycles, List.map_cons, ticks]
      rw [next, ticks']
      rfl

end Turns

section Initial

variable {wm wm' : Watermarks} {symbol : String}

def addKey (wm : Watermarks) (feed : Feed) : Watermarks := wm.set feed.symbol none

def keepWatermark (wm : Watermarks) (entry : String × Option Int) : Watermarks :=
  match entry.2 with
  | some v => if entry.1 ∈ wm then wm.set entry.1 (some v) else wm
  | none => wm

theorem initWatermarks_eq (fs : List Feed) (state : List (String × Option Int)) :
    initWatermarks fs state = state.foldl keepWatermark (fs.foldl addKey ∅) := rfl

theorem addKey_get (fs : List Feed) (empty : wm.get symbol = none) :
    (symbol ∈ fs.foldl addKey wm ↔ symbol ∈ fs.map Feed.symbol ∨ symbol ∈ wm) ∧
      (fs.foldl addKey wm).get symbol = none := by
  induction fs generalizing wm with
  | nil => simp [empty]
  | cons feed rest ih =>
      have step : (addKey wm feed).get symbol = none := by
        unfold addKey Watermarks.get
        rw [Dict.lookup_set]
        split
        next => rfl
        next => exact empty
      obtain ⟨known, value⟩ := ih step
      refine ⟨?_, value⟩
      rw [List.foldl_cons, known, List.map_cons, List.mem_cons]
      unfold addKey
      rw [Dict.mem_set]
      tauto

theorem keepWatermark_spec (wm : Watermarks) (entry : String × Option Int) :
    (symbol ∈ keepWatermark wm entry ↔ symbol ∈ wm) ∧
      (keepWatermark wm entry).get symbol =
        if symbol = entry.1 ∧ symbol ∈ wm then entry.2.or (wm.get symbol) else wm.get symbol := by
  obtain ⟨key, value⟩ := entry
  unfold keepWatermark
  cases value with
  | none => simp
  | some v =>
      simp only
      by_cases known : key ∈ wm
      next =>
          rw [if_pos known, Dict.mem_set, Watermarks.get_set]
          constructor
          next =>
              constructor
              next => exact fun found => found.elim (fun same => same ▸ known) id
              next => exact .inr
          next =>
              by_cases same : symbol = key
              next => rw [if_pos same, if_pos ⟨same, same ▸ known⟩, Option.some_or]
              next =>
                  have apart : ¬(symbol = key ∧ symbol ∈ wm) := fun both => same both.1
                  rw [if_neg same, if_neg apart]
      next =>
          have apart : ¬(symbol = key ∧ symbol ∈ wm) := fun both => known (both.1 ▸ both.2)
          rw [if_neg known, if_neg apart]
          exact ⟨Iff.rfl, rfl⟩

theorem keepWatermark_get (state : List (String × Option Int)) (known : symbol ∈ wm ↔ symbol ∈ wm')
    (same : wm.get symbol = wm'.get symbol) :
    (state.foldl keepWatermark wm).get symbol = (state.foldl keepWatermark wm').get symbol := by
  induction state generalizing wm wm' with
  | nil => exact same
  | cons entry rest ih =>
      obtain ⟨member, value⟩ := @keepWatermark_spec symbol wm entry
      obtain ⟨member', value'⟩ := @keepWatermark_spec symbol wm' entry
      rw [List.foldl_cons, List.foldl_cons]
      apply ih
      next => rw [member, member', known]
      next =>
          rw [value, value', same]
          simp only [known]

theorem initWatermarks_get {fs fs' : List Feed} (listed : symbol ∈ fs.map Feed.symbol)
    (listed' : symbol ∈ fs'.map Feed.symbol) (state : List (String × Option Int)) :
    (initWatermarks fs state).get symbol = (initWatermarks fs' state).get symbol := by
  have empty : Watermarks.get ∅ symbol = none := rfl
  obtain ⟨known, unset⟩ := addKey_get fs empty
  obtain ⟨known', unset'⟩ := addKey_get fs' empty
  rw [initWatermarks_eq, initWatermarks_eq]
  apply keepWatermark_get
  next => exact iff_of_true (known.mpr (.inl listed)) (known'.mpr (.inl listed'))
  next => rw [unset, unset']

theorem initWatermarks_one {fs : List Feed} (listed : symbol ∈ fs.map Feed.symbol) (last : Int) :
    (initWatermarks fs [(symbol, some last)]).get symbol = some last := by
  have empty : Watermarks.get ∅ symbol = none := rfl
  obtain ⟨known, _⟩ := addKey_get fs empty
  rw [initWatermarks_eq, List.foldl_cons, List.foldl_nil, (keepWatermark_spec _ _).2,
    if_pos ⟨rfl, known.mpr (.inl listed)⟩, Option.some_or]

end Initial

section Interference

variable {settings : BarSettings} {wm : Watermarks} {feed : Feed}

def idle : Response := { now := 0, result := .raised, publishes := true }

def same (settings : BarSettings) (datetime : Int) : Response :=
  { now := settings.overlapBars.natAbs * minute + datetime
    result := .frame (List.replicate (settings.overlapBars.natAbs + 1)
      { datetime := some datetime, prices := ⟨.none, .none, .none, .none, .none⟩ })
    publishes := true }

theorem within_same {start end_ datetime : Int} {n : Nat} {prices : Prices} :
    within (List.replicate n { datetime := some datetime, prices }) start end_ =
      if start ≤ datetime ∧ datetime ≤ end_ then List.replicate n { datetime, prices } else [] := by
  unfold within
  split
  next inside => exact List.filterMap_replicate_of_some (if_pos inside)
  next outside => exact List.filterMap_replicate_of_none (if_neg outside)

theorem recentCutoff_same {last datetime : Int} {prices : Prices} :
    recentCutoff settings (some last)
      (List.replicate (settings.overlapBars.natAbs + 1) { datetime, prices }) = some datetime := by
  have sorted (n : Nat) : (List.replicate n datetime).insertionSort (· ≤ ·) =
      List.replicate n datetime := List.perm_replicate.mp (List.perm_insertionSort _ _)
  unfold recentCutoff iloc
  simp only [List.map_replicate, List.length_replicate, sorted]
  split
  next many =>
      split
      next => exact List.getElem?_replicate_of_lt (by omega)
      next =>
          rw [if_pos (by omega)]
          exact List.getElem?_replicate_of_lt (by omega)
  next => exact List.min?_replicate_of_pos (Nat.succ_pos _)

theorem foldl_newer_same {last datetime : Int} (later : last < datetime) (n : Nat) :
    (List.replicate (n + 1) datetime).foldl newer (some last) = some datetime := by
  have stays (n : Nat) : (List.replicate n datetime).foldl newer (some datetime) = some datetime := by
    induction n with
    | zero => rfl
    | succ n ih =>
        rw [List.replicate_succ, List.foldl_cons]
        simp only [newer, lt_irrefl, if_false]
        exact ih
  rw [List.replicate_succ, List.foldl_cons]
  simp only [newer, if_pos later]
  exact stays n

theorem turn_same {last datetime : Int} (known : wm.get feed.symbol = some last) :
    (last - settings.overlapBars * minute ≤ datetime →
        (turn settings wm feed (same settings datetime)).1 ≠ [] ∧
          (last < datetime →
            (turn settings wm feed (same settings datetime)).2.get feed.symbol = some datetime)) ∧
      (datetime < last - settings.overlapBars * minute →
        (turn settings wm feed (same settings datetime)).1 = []) := by
  obtain ⟨ticks, state⟩ := turn_spec settings wm feed (same settings datetime)
  rw [known] at ticks state
  have ahead : datetime ≤ settings.overlapBars.natAbs * minute + datetime := by
    unfold minute
    omega
  constructor
  next =>
      intro reach
      let bar : ApiBar := { datetime, prices := ⟨.none, .none, .none, .none, .none⟩ }
      have all : attempt settings feed (some last) (same settings datetime) =
          some (List.replicate (settings.overlapBars.natAbs + 1) (tickOf feed bar),
            (List.replicate (settings.overlapBars.natAbs + 1) datetime).foldl newer (some last)) := by
        have kept : (List.replicate (settings.overlapBars.natAbs + 1) bar).filter
            (fun bar => datetime ≤ bar.datetime) =
              List.replicate (settings.overlapBars.natAbs + 1) bar :=
          List.filter_replicate_of_pos (decide_eq_true (le_refl datetime))
        unfold attempt same calcWindow
        simp only [within_same, if_pos (And.intro reach ahead), recentCutoff_same, toTicks_eq]
        rw [kept, List.map_replicate, List.map_replicate]
        rfl
      rw [all] at ticks state
      refine ⟨?_, fun later => ?_⟩
      next =>
          rw [ticks]
          exact List.cons_ne_nil _ _
      next =>
          rw [state, if_pos rfl, Option.bind_some, foldl_newer_same later]
          rfl
  next =>
      intro before
      have outside : ¬(last - settings.overlapBars * minute ≤ datetime ∧
          datetime ≤ settings.overlapBars.natAbs * minute + datetime) :=
        fun inside => absurd inside.1 (not_le.mpr before)
      have none : attempt settings feed (some last) (same settings datetime) = none := by
        unfold attempt same calcWindow
        simp only [within_same, if_neg outside]
        rfl
      rw [ticks, none]
      rfl

theorem turn_idle : turn settings wm feed idle = ([], wm) := rfl

theorem runOnceBatch_idle {items : List (Feed × Response)} (all : ∀ item ∈ items, item.2 = idle) :
    (runOnceBatch settings wm items).2 = wm := by
  induction items generalizing wm with
  | nil => rfl
  | cons item rest ih =>
      obtain ⟨feed, response⟩ := item
      obtain ⟨here, later⟩ := List.forall_mem_cons.mp all
      simp only at here
      simp only [runOnceBatch, here, turn_idle]
      exact ih later

def only (k : Nat) (response : Response) : Cycle := fun j => if j = k then response else idle

theorem only_at {fs : List Feed} {k : Nat} (inside : k < fs.length) (response : Response) :
    (runOnceBatch settings wm (assigned fs (only k response))).1[k]? =
        some (turn settings wm fs[k] response).1 ∧
      (runOnceBatch settings wm (assigned fs (only k response))).2 =
        (turn settings wm fs[k] response).2 := by
  have inside' : k < (assigned fs (only k response)).length := by rwa [length_assigned]
  obtain ⟨before, after_⟩ := @assigned_around fs (only k response) k (fun item => item.2 = idle)
    (fun j _ other => if_neg other) inside
  have here : only k response k = response := if_pos rfl
  have size : ((assigned fs (only k response)).take k).length = k :=
    List.length_take_of_le inside'.le
  rw [assigned_split inside, here]
  constructor
  next =>
      have out := runOnceBatch_at settings wm ((assigned fs (only k response)).take k)
        ((assigned fs (only k response)).drop (k + 1)) fs[k] response
      rw [size, runOnceBatch_idle before] at out
      exact out
  next =>
      rw [runOnceBatch_append]
      simp only [runOnceBatch, runOnceBatch_idle before]
      exact runOnceBatch_idle after_

/-- Two places with one symbol: what the API answers for the one moves the window of the other. -/
theorem interferes {fs : List Feed} {i j : Nat} (inside : i < fs.length) (inside' : j < fs.length)
    (apart : j ≠ i) (shared : fs[j].symbol = fs[i].symbol) :
    ∃ state cycles, publishedAt i (runCycles settings fs (initWatermarks fs state) cycles) ≠
      publishedAt 0 (runCycles settings [fs[i]] (initWatermarks [fs[i]] state)
        (cycles.map fun cycle _ => cycle i)) := by
  let late := settings.overlapBars.natAbs * minute + 1
  let early := -(settings.overlapBars * minute)
  have positive : 0 < late ∧ 0 - settings.overlapBars * minute ≤ late ∧
      early < late - settings.overlapBars * minute := by
    unfold late early minute
    omega
  let first := only j (same settings late)
  let second := only i (same settings early)
  let state := [(fs[i].symbol, some (0 : Int))]
  refine ⟨state, [first, second], fun equal => ?_⟩
  have known : (initWatermarks fs state).get fs[j].symbol = some 0 := by
    rw [shared]
    exact initWatermarks_one (List.mem_map_of_mem (List.getElem_mem inside)) 0
  have known' : (initWatermarks [fs[i]] state).get fs[i].symbol = some 0 :=
    initWatermarks_one (List.mem_singleton_self _) 0
  have moved := ((@turn_same settings _ _ _ _ known).1 positive.2.1).2 positive.1
  rw [shared] at moved
  have silent := (@turn_same settings _ _ _ _ moved).2 positive.2.2
  have heard := ((@turn_same settings _ _ _ _ known').1
    (show 0 - settings.overlapBars * minute ≤ early by unfold early; omega)).1
  have last : ((runOnceBatch settings
      (runOnceBatch settings (initWatermarks fs state) (assigned fs first)).2
        (assigned fs second)).1[i]?).getD [] =
      ((runOnceBatch settings
        (runOnceBatch settings (initWatermarks [fs[i]] state)
          (assigned [fs[i]] fun _ => first i)).2 (assigned [fs[i]] fun _ => second i)).1[0]?).getD [] :=
    (List.cons.inj (List.cons.inj equal).2).1
  have quiet : (fun _ => first i : Cycle) = fun _ => idle := funext fun _ => if_neg (Ne.symm apart)
  have answers : (fun _ => second i : Cycle) = fun _ => same settings early :=
    funext fun _ => if_pos rfl
  have still : (runOnceBatch settings (initWatermarks [fs[i]] state)
      (assigned [fs[i]] fun _ => idle)).2 = initWatermarks [fs[i]] state :=
    runOnceBatch_idle (List.forall_mem_singleton.mpr rfl)
  rw [(only_at inside' (same settings late)).2, (only_at inside (same settings early)).1, silent,
    quiet, answers, still] at last
  exact heard last.symm

end Interference

/-- For a producer of any symbols, what the feed at a place publishes is, for all persisted watermarks
and all sequences of cycles, what it publishes as the only feed that meets the same answers at the same
times, exactly when no other place has its symbol. -/
theorem published_alone_iff (settings : BarSettings) {symbols : List String} {exchange : ExchangeArg}
    {fs : List Feed} (made : feeds symbols exchange = .ok fs) {i : Nat} (inside : i < symbols.length) :
    (∀ (state : List (String × Option Int)) (cycles : List Cycle),
        published settings symbols exchange state cycles i =
          published settings [symbols[i]] (exchange.at i) state
            (cycles.map fun cycle _ => cycle i) 0) ↔
      ∀ j (other : j < symbols.length), j ≠ i →
        (parseSymbol symbols[j]).2 ≠ (parseSymbol symbols[i]).2 := by
  have size := length_feeds made
  have place : i < fs.length := by omega
  have alone := (feeds_at made place inside).2
  have symbolAt (j : Nat) (other : j < symbols.length) :
      fs[j].symbol = (parseSymbol symbols[j]).2 := (feeds_at made (by omega) other).1
  have unfolded (state : List (String × Option Int)) (cycles : List Cycle) :
      published settings symbols exchange state cycles i =
          published settings [symbols[i]] (exchange.at i) state
            (cycles.map fun cycle _ => cycle i) 0 ↔
        publishedAt i (runCycles settings fs (initWatermarks fs state) cycles) =
          publishedAt 0 (runCycles settings [fs[i]] (initWatermarks [fs[i]] state)
            (cycles.map fun cycle _ => cycle i)) := by
    unfold published
    rw [made, alone]
    exact ⟨fun same => Except.ok.inj same, fun same => congrArg Except.ok same⟩
  simp only [unfolded]
  constructor
  next =>
      intro independent j other apart shared
      obtain ⟨state, cycles, differ⟩ := @interferes settings _ _ _ place (by omega) apart
        ((symbolAt j other).trans (shared.trans (symbolAt i inside).symm))
      exact differ (independent state cycles)
  next =>
      intro distinct state cycles
      refine runCycles_alone place (fun j other apart => ?_) ?_ cycles
      next =>
          rw [symbolAt j (by omega), symbolAt i inside]
          exact distinct j (by omega) apart
      next =>
          exact initWatermarks_get (List.mem_map_of_mem (List.getElem_mem place))
            (List.mem_singleton_self _) state

section Runs

theorem published_alone_twoFutures :
    let futures := ["BMFBOVESPA:WINV2025", "BMFBOVESPA:INDV2025"]
    ∀ (state : List (String × Option Int)) (cycles : List Cycle),
      published defaults futures .none state cycles 1 =
        published defaults ["BMFBOVESPA:INDV2025"] .none state
          (cycles.map fun cycle _ => cycle 1) 0 := by
  intro futures
  refine (@published_alone_iff defaults futures .none _ rfl 1 (by decide)).mpr fun j other apart => ?_
  have first : j = 0 := by
    have bound : j < 2 := other
    omega
  subst first
  show (parseSymbol "BMFBOVESPA:WINV2025").2 ≠ (parseSymbol "BMFBOVESPA:INDV2025").2
  decide +kernel

-- One symbol on two exchanges; the second exchange first answers when the first has set the watermark.
def twoExchanges : List String := ["BMFBOVESPA:WIN", "NASDAQ:WIN"]

def lateStart : List Cycle := [only 0 (answered 20000 1), only 1 (answered 19994 8)]

theorem watermark_shared :
    ((published defaults twoExchanges .none [] lateStart 1).toOption.map fun run =>
        run.map fun ticks => ticks.map fun t => t.tsNs / minute) =
        some [[], [19997, 19998, 19999, 20000, 20001]] ∧
      ((published defaults ["NASDAQ:WIN"] .none [] (lateStart.map fun cycle _ => cycle 1) 0).toOption.map
        fun run => run.map fun ticks => ticks.map fun t => t.tsNs / minute) =
        some [[], [19994, 19995, 19996, 19997, 19998, 19999, 20000, 20001]] := by
  constructor
  next => decide +kernel
  next => decide +kernel

end Runs

end DeepFeeder.TvBars
