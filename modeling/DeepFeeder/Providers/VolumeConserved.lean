import Mathlib.Tactic.Linarith
import DeepFeeder.Providers.QuoteKeys

set_option autoImplicit false

namespace DeepFeeder

namespace TvQuotes

section Names

theorem subscribeKey_eq (exchange : Option String) (symbol : String) :
    subscribeKey (exchange, symbol) =
      if exchange.getD "" = "" then symbol else exchange.getD "" ++ ":" ++ symbol := by
  cases exchange with
  | none => rfl
  | some exchange =>
      by_cases empty : exchange = ""
      next =>
          rw [empty]
          rfl
      next =>
          rw [Option.getD_some, if_neg empty]
          unfold subscribeKey
          split
          next same => cases same
          next same => exact absurd (Option.some.inj (Prod.mk.inj same).1) empty
          next same =>
              obtain ⟨sameExchange, sameSymbol⟩ := Prod.mk.inj same
              rw [Option.some.inj sameExchange, sameSymbol]

variable [Uppercase]

structure Named (key : String) (sub : QuoteSub) : Prop where
  key : key = subscribeKey (sub.exchange, sub.symbol)
  symbol : upper sub.symbol = sub.symbol
  exchange : upper (sub.exchange.getD "") = sub.exchange.getD ""

theorem named_split (raw : String) :
    Named (subscribeKey (splitExchangeSymbol raw))
      { exchange := (splitExchangeSymbol raw).1, symbol := (splitExchangeSymbol raw).2 } := by
  unfold splitExchangeSymbol
  simp only
  split
  next => exact ⟨rfl, upper_upper _, rfl⟩
  next => exact ⟨rfl, upper_upper _, upper_upper _⟩

theorem Named.of_same {key other : String} {sub sub' : QuoteSub} (named : Named key sub)
    (named' : Named other sub') (symbol : sub.symbol = sub'.symbol)
    (exchange : sub.exchange.getD "" = sub'.exchange.getD "") : key = other := by
  rw [named.key, named'.key, subscribeKey_eq, subscribeKey_eq, symbol, exchange]

def addSub (subs : Dict String QuoteSub) (s : String) : Dict String QuoteSub :=
  let split := splitExchangeSymbol (stripText s)
  subs.set (subscribeKey split) { exchange := split.1, symbol := split.2 }

theorem init_subs (symbols : List String) : (init symbols).subs = symbols.foldl addSub ∅ := by
  unfold init
  refine congrArg (fun step => symbols.foldl step ∅) (funext fun subs => funext fun s => ?_)
  unfold addSub
  generalize splitExchangeSymbol (stripText s) = split
  obtain ⟨exch, sym⟩ := split
  simp only

theorem named_init (symbols : List String) {key : String} {sub : QuoteSub}
    (found : (init symbols).subs.lookup key = some sub) : Named key sub ∧ sub.st = {} := by
  rw [init_subs] at found
  induction symbols using List.reverseRecOn with
  | nil =>
      rw [List.foldl_nil, AList.lookup_empty] at found
      cases found
  | append_singleton symbols s ih =>
      rw [List.foldl_append, List.foldl_cons, List.foldl_nil, addSub, Dict.lookup_set] at found
      split at found
      next same =>
          rw [same, ← Option.some.inj found]
          exact ⟨named_split (stripText s), rfl⟩
      next => exact ih found

end Names

variable (py : Python)

section Turns

/-- One turn of the loop of `_handle_qsd`: none where it raises, no update where it is of no
subscription, or else the key and the fields of the update. -/
def turn (producer : TvQuotes) (it : Value) : Option (Option (String × Payload)) :=
  match it with
  | .dict it =>
      match producer.subOf py it with
      | none => some none
      | some _ =>
          match (field it "v").or (.dict []) with
          | .dict v => some (some (subKey py it, v))
          | _ => none
  | _ => none

def updatesIn (producer : TvQuotes) (key : String) : List (Value × Int) → List (Payload × Int)
  | [] => []
  | (it, now) :: rest =>
      match producer.turn py it with
      | none => []
      | some none => updatesIn producer key rest
      | some (some (other, v)) =>
          (if other = key then [(v, now)] else []) ++ updatesIn producer key rest

variable {py} {producer next : TvQuotes} {key : String} {sub : QuoteSub}

def SameSubs (producer next : TvQuotes) : Prop :=
  ∀ key, (next.subs.lookup key).map (fun sub => (sub.exchange, sub.symbol)) =
    (producer.subs.lookup key).map fun sub => (sub.exchange, sub.symbol)

theorem SameSubs.turn (same : SameSubs producer next) (it : Value) :
    next.turn py it = producer.turn py it := by
  unfold TvQuotes.turn
  cases it with
  | none | bool | int | float | inf | nan | str | list => rfl
  | dict it =>
      unfold subOf
      by_cases empty : subKey py it = ""
      next => simp only [if_pos empty]
      next =>
          simp only [if_neg empty]
          have known := same (subKey py it)
          cases before : producer.subs.lookup (subKey py it) with
          | none =>
              rw [before, Option.map_none, Option.map_eq_none_iff] at known
              rw [known]
          | some sub =>
              rw [before, Option.map_some] at known
              obtain ⟨sub', after, _⟩ := Option.map_eq_some_iff.mp known
              rw [after]

theorem SameSubs.updatesIn (same : SameSubs producer next) (items : List (Value × Int)) :
    next.updatesIn py key items = producer.updatesIn py key items := by
  induction items with
  | nil => rfl
  | cons first rest ih =>
      obtain ⟨it, now⟩ := first
      simp only [TvQuotes.updatesIn, same.turn, ih]

theorem sameSubs_set (found : producer.subs.lookup key = some sub) (st : SymState) :
    SameSubs producer { subs := producer.subs.set key { sub with st } } := by
  intro other
  rw [Dict.lookup_set]
  split
  next same => rw [same, found, Option.map_some, Option.map_some]
  next => rfl

theorem SameSubs.trans {later : TvQuotes} (first : SameSubs producer next)
    (second : SameSubs next later) : SameSubs producer later :=
  fun key => (second key).trans (first key)

variable [Uppercase]

def subRun (py : Python) (sub : QuoteSub) : List (Payload × Int) → List Tick × SymState
  | [] => ([], sub.st)
  | (v, now) :: rest =>
      let (tick, st) := update py sub v now
      let later := subRun py { sub with st } rest
      (tick.toList ++ later.1, later.2)

theorem subRun_append (updates later : List (Payload × Int)) :
    subRun py sub (updates ++ later) =
      let first := subRun py sub updates
      let second := subRun py { sub with st := first.2 } later
      (first.1 ++ second.1, second.2) := by
  induction updates generalizing sub with
  | nil => rfl
  | cons update rest ih =>
      obtain ⟨v, now⟩ := update
      rw [List.cons_append]
      simp only [subRun, ih, List.append_assoc]

theorem handleItem_turn (py : Python) (producer : TvQuotes) (it : Value) (now : Int) :
    (producer.turn py it = none ∧ producer.handleItem py it now = none) ∨
      (producer.turn py it = some none ∧ producer.handleItem py it now = some (none, producer)) ∨
      ∃ key v sub, producer.turn py it = some (some (key, v)) ∧
        producer.subs.lookup key = some sub ∧
        producer.handleItem py it now = some ((update py sub v now).1,
          { subs := producer.subs.set key { sub with st := (update py sub v now).2 } }) := by
  unfold turn handleItem
  cases it with
  | none | bool | int | float | inf | nan | str | list => exact .inl ⟨rfl, rfl⟩
  | dict it =>
      cases found : producer.subOf py it with
      | none =>
          exact .inr (.inl ⟨by simp only [found], by simp only [found]⟩)
      | some sub =>
          simp only [found]
          cases (field it "v").or (.dict []) with
          | none | bool | int | float | inf | nan | str | list => exact .inl ⟨rfl, rfl⟩
          | dict v =>
              refine .inr (.inr ⟨subKey py it, v, sub, rfl, ?_, rfl⟩)
              unfold subOf at found
              split at found
              next => cases found
              next => exact found

end Turns

section OneSubscription

variable [Uppercase] {py} {producer next : TvQuotes} {key : String} {sub : QuoteSub}

def isOf (sub : QuoteSub) (t : Tick) : Bool :=
  decide (t.symbol = sub.symbol) && isFrom (sub.exchange.getD "") t.payload

theorem update_tick {v : Payload} {now : Int} {t : Tick} (made : (update py sub v now).1 = some t) :
    t.symbol = upper sub.symbol ∧
      field t.payload "exchange" = .str (upper (sub.exchange.getD "")) ∧
      volDeltaOf t.payload = ((sub.st.refresh py v now).volDelta py).getD (.finite 0) := by
  unfold update at made
  simp only at made
  split at made
  next =>
      obtain ⟨tsNs, _, rfl⟩ := Option.map_eq_some_iff.mp made
      refine ⟨rfl, rfl, ?_⟩
      cases ((sub.st.refresh py v now).volDelta py).getD (.finite 0) <;> rfl
  next => cases made

theorem isOf_update {other : String} {sub' : QuoteSub} (named : Named key sub)
    (named' : Named other sub') {v : Payload} {now : Int} {t : Tick}
    (made : (update py sub' v now).1 = some t) : isOf sub t = true → other = key := by
  obtain ⟨symbol, exchange, _⟩ := update_tick made
  unfold isOf isFrom
  rw [exchange, symbol, named'.symbol, named'.exchange, Bool.and_eq_true]
  rintro ⟨sameSymbol, sameExchange⟩
  exact named'.of_same named (of_decide_eq_true sameSymbol) (of_decide_eq_true sameExchange)

theorem isOf_own (named : Named key sub) {v : Payload} {now : Int} {t : Tick}
    (made : (update py sub v now).1 = some t) : isOf sub t = true := by
  obtain ⟨symbol, exchange, _⟩ := update_tick made
  unfold isOf isFrom
  rw [exchange, symbol, named.symbol, named.exchange]
  simp

def AllNamed (producer : TvQuotes) : Prop :=
  ∀ key sub, producer.subs.lookup key = some sub → Named key sub

theorem SameSubs.allNamed (same : SameSubs producer next) (named : producer.AllNamed) :
    next.AllNamed := by
  intro key sub found
  have known := same key
  rw [found, Option.map_some, eq_comm] at known
  obtain ⟨old, before, equal⟩ := Option.map_eq_some_iff.mp known
  obtain ⟨exchange, symbol⟩ := Prod.mk.inj equal
  have was := named key old before
  exact ⟨by rw [← exchange, ← symbol]; exact was.key, by rw [← symbol]; exact was.symbol,
    by rw [← exchange]; exact was.exchange⟩

theorem handleItems_sub (py : Python) {producer : TvQuotes} (named : producer.AllNamed)
    {key : String} {sub : QuoteSub} (found : producer.subs.lookup key = some sub)
    (items : List (Value × Int)) :
    let out := producer.handleItems py items
    let own := subRun py sub (producer.updatesIn py key items)
    out.1.filter (isOf sub) = own.1 ∧ out.2.subs.lookup key = some { sub with st := own.2 } ∧
      SameSubs producer out.2 := by
  induction items generalizing producer sub with
  | nil => exact ⟨rfl, found, fun _ => rfl⟩
  | cons first rest ih =>
      obtain ⟨it, now⟩ := first
      simp only [handleItems, updatesIn]
      rcases handleItem_turn py producer it now with
        ⟨raised, result⟩ | ⟨skipped, result⟩ | ⟨other, v, sub', turned, present, result⟩
      next =>
          simp only [raised, result]
          exact ⟨rfl, found, fun _ => rfl⟩
      next =>
          simp only [skipped, result]
          exact ih named found
      next =>
          simp only [turned, result]
          have same := sameSubs_set present (update py sub' v now).2
          rw [← same.updatesIn]
          by_cases own : other = key
          next =>
              rw [own, found, Option.some.injEq] at present
              rw [← present] at same ⊢
              rw [own] at same ⊢
              have after : (producer.subs.set key { sub with st := (update py sub v now).2 }).lookup key =
                  some { sub with st := (update py sub v now).2 } := by
                rw [Dict.lookup_set, if_pos rfl]
              obtain ⟨ticks, state, subs⟩ := ih (same.allNamed named) after
              rw [if_pos rfl, List.singleton_append]
              simp only [subRun, List.filter_append]
              refine ⟨?_, state, same.trans subs⟩
              rw [← ticks]
              congr 1
              refine List.filter_eq_self.mpr fun t made => ?_
              exact isOf_own (named key sub found) (Option.mem_toList.mp made)
          next =>
              have after : (producer.subs.set other { sub' with st := (update py sub' v now).2 }).lookup
                  key = some sub := by
                rw [Dict.lookup_set, if_neg (Ne.symm own), found]
              obtain ⟨ticks, state, subs⟩ := ih (same.allNamed named) after
              rw [if_neg own, List.nil_append]
              refine ⟨?_, state, same.trans subs⟩
              have foreign : (update py sub' v now).1.toList.filter (isOf sub) = [] := by
                refine List.filter_eq_nil_iff.mpr fun t made ours => own ?_
                exact isOf_update (named key sub found) (named other sub' present)
                  (Option.mem_toList.mp made) ours
              rw [List.filter_append, foreign, List.nil_append, ticks]

def updatesOf (py : Python) (producer : TvQuotes) (key : String) (messages : List Qsd) :
    List (Payload × Int) :=
  messages.flatMap fun message => producer.updatesIn py key message.items

theorem handleAll_sub (py : Python) {producer : TvQuotes} (named : producer.AllNamed)
    {key : String} {sub : QuoteSub} (found : producer.subs.lookup key = some sub)
    (messages : List Qsd) :
    (producer.handleAll py messages).1.filter (isOf sub) =
      (subRun py sub (producer.updatesOf py key messages)).1 := by
  induction messages generalizing producer sub with
  | nil => rfl
  | cons message rest ih =>
      obtain ⟨ticks, state, same⟩ := handleItems_sub py named found message.items
      have later := ih (same.allNamed named) state
      have updates : (producer.handleItems py message.items).2.updatesOf py key rest =
          producer.updatesOf py key rest := by
        unfold updatesOf
        simp only [same.updatesIn]
      rw [updates] at later
      unfold handleAll handleQsd
      rw [updatesOf, List.flatMap_cons, subRun_append, List.filter_append, ticks]
      exact congrArg _ later

end OneSubscription

section ExactArithmetic

-- Floats that are not rounded; an infinity and NaN are no numbers then.
def exactly (text : Value → String) : Python :=
  { round := .finite, reads := fun q => q.toRat.isSome, text }

def readNumber (value : Value) : Option Rat := (pyFloat value).bind PyFloat.toRat

def readVolume (v : Payload) : Option Rat := readNumber (field v "volume")

def TimeRead (v : Payload) : Prop :=
  field v "lp_time" = .none ∨ (readNumber (field v "lp_time")).isSome = true

def rises : List Rat → Rat
  | first :: second :: rest => max 0 (second - first) + rises (second :: rest)
  | _ => 0

/-- Each update whose volume is above the last one read has no time or one that can be read. -/
def RisesTimed : Option Rat → List Payload → Prop
  | _, [] => True
  | last, v :: rest =>
      (∀ volume ∈ readVolume v, ∀ before ∈ last, before < volume → TimeRead v) ∧
        RisesTimed ((readVolume v).or last) rest

instance : (value : Value) → Decidable (value = .none)
  | .none => isTrue rfl
  | .bool _ | .int _ | .float _ | .inf _ | .nan | .str _ | .list _ | .dict _ => isFalse nofun

instance (v : Payload) : Decidable (TimeRead v) := inferInstanceAs (Decidable (_ ∨ _))

instance RisesTimed.decidable : (last : Option Rat) → (updates : List Payload) →
    Decidable (RisesTimed last updates)
  | _, [] => isTrue trivial
  | last, v :: rest =>
      haveI := RisesTimed.decidable ((readVolume v).or last) rest
      inferInstanceAs (Decidable (_ ∧ _))

variable {text : Value → String} {sub : QuoteSub} {v : Payload} {now : Int} {last : Option Rat}

theorem toFloat_exactly (value : Value) :
    (exactly text).toFloat value = (readNumber value).map .finite := by
  cases value with
  | none | bool | int | float | inf | nan | list | dict => rfl
  | str s =>
      unfold Python.toFloat readNumber
      change Option.filter _ ((Numeral.parseFloat s).map _) = (((Numeral.parseFloat s).bind _).map _)
      cases Numeral.parseFloat s with
      | none => rfl
      | some q => cases q <;> rfl

theorem latest_exactly (key : String) (old : Option PyFloat) :
    SymState.latest (exactly text) v key old = ((readNumber (field v key)).map .finite).or old := by
  unfold SymState.latest
  split
  next missing => rw [missing]; rfl
  next => rw [toFloat_exactly]

theorem quoteTime_exactly (st : SymState) :
    (st.quoteTime (exactly text) v now).isSome = true ↔ TimeRead v := by
  unfold SymState.quoteTime TimeRead
  split
  next missing => simp [missing]
  next present =>
      unfold tsSToNs
      rw [toFloat_exactly]
      cases read : readNumber (field v "lp_time") with
      | none => simpa using present
      | some q => simp [exactly, Value.ofFloat, pyInt]

def riseOf (last : Option Rat) (volume : Option Rat) : Rat :=
  match last, volume with
  | some before, some volume => max 0 (volume - before)
  | _, _ => 0

theorem riseOf_nonneg (last volume : Option Rat) : 0 ≤ riseOf last volume := by
  unfold riseOf
  split
  next => exact le_max_left _ _
  next => exact le_refl 0

structure Settled (st : SymState) (last : Option Rat) : Prop where
  volume : st.volume = last.map .finite
  lastVolume : st.lastVolume = last.map .finite

theorem volDelta_refresh (settled : Settled sub.st last) :
    ((sub.st.refresh (exactly text) v now).volDelta (exactly text)).getD (.finite 0) =
      .finite (riseOf last (readVolume v)) := by
  unfold SymState.volDelta SymState.refresh riseOf
  simp only [latest_exactly, settled.volume, settled.lastVolume]
  unfold readVolume
  cases readNumber (field v "volume") with
  | none =>
      cases last with
      | none => rfl
      | some before => simp [exactly, Python.sub, PyFloat.isPositive]
  | some volume =>
      cases last with
      | none => rfl
      | some before =>
          simp only [Option.map_some, Option.or_some, Option.getD_some]
          change (if decide (0 < volume - before) = true then PyFloat.finite (volume - before)
            else .finite 0) = .finite (max 0 (volume - before))
          by_cases up : 0 < volume - before
          next => rw [if_pos (decide_eq_true up), max_eq_right up.le]
          next =>
              rw [if_neg (fun positive => up (of_decide_eq_true positive)),
                max_eq_left (not_lt.mp up)]

def deltas (ticks : List Tick) : PyFloat := (ticks.map fun t => volDeltaOf t.payload).sum

theorem deltas_append (first later : List Tick) :
    deltas (first ++ later) = deltas first + deltas later := by
  unfold deltas
  rw [List.map_append, List.sum_append]

theorem rises_cons (last : Option Rat) (u : Payload × Int) (rest : List (Payload × Int)) :
    rises (last.toList ++ (u :: rest).filterMap fun u => readVolume u.1) =
      riseOf last (readVolume u.1) +
        rises (((readVolume u.1).or last).toList ++ rest.filterMap fun u => readVolume u.1) := by
  rw [List.filterMap_cons]
  unfold riseOf
  cases readVolume u.1 with
  | none => cases last <;> simp
  | some volume =>
      cases last with
      | none => simp
      | some before => simp [rises]

theorem riseOf_pos_iff {last volume : Option Rat} :
    0 < riseOf last volume ↔ ∃ q ∈ volume, ∃ before ∈ last, before < q := by
  unfold riseOf
  cases last with
  | none => simp
  | some before =>
      cases volume with
      | none => simp
      | some q => simp

variable [Uppercase]

theorem settled_update (settled : Settled sub.st last) :
    Settled (update (exactly text) sub v now).2 ((readVolume v).or last) := by
  unfold update SymState.keepVolume SymState.refresh readVolume
  simp only [latest_exactly]
  cases readNumber (field v "volume") with
  | none =>
      refine ⟨settled.volume, ?_⟩
      change sub.st.volume.or sub.st.lastVolume = last.map .finite
      rw [settled.volume, settled.lastVolume]
      exact Option.or_self
  | some volume => exact ⟨rfl, rfl⟩

theorem update_delta (settled : Settled sub.st last) :
    (∀ t ∈ (update (exactly text) sub v now).1,
        volDeltaOf t.payload = .finite (riseOf last (readVolume v))) ∧
      ((update (exactly text) sub v now).1 = none →
        ¬ TimeRead v ∨ riseOf last (readVolume v) = 0) ∧
      (¬ TimeRead v → (update (exactly text) sub v now).1 = none) := by
  have delta := @volDelta_refresh text sub v now last settled
  refine ⟨fun t made => ?_, fun silent => ?_, fun unread => ?_⟩
  next => rw [(update_tick made).2.2, delta]
  next =>
      rcases update_cases (exactly text) sub v now with
        ⟨_, immaterial | timeless⟩ | ⟨t, made, _⟩
      next =>
          unfold SymState.material at immaterial
          obtain ⟨_, flat⟩ := Bool.or_eq_false_iff.mp immaterial
          refine .inr (le_antisymm (not_lt.mp fun up => ?_) (riseOf_nonneg _ _))
          cases changed : (sub.st.refresh (exactly text) v now).volDelta (exactly text) with
          | none =>
              rw [changed, Option.getD_none, PyFloat.finite.injEq] at delta
              exact absurd up (delta ▸ lt_irrefl _)
          | some d =>
              rw [changed, Option.getD_some] at delta
              rw [changed, delta, Option.any_some] at flat
              exact absurd up (of_decide_eq_false flat)
      next =>
          refine .inl fun timed => ?_
          have known := (@quoteTime_exactly text v now sub.st).mpr timed
          rw [timeless] at known
          cases known
      next =>
          rw [made] at silent
          cases silent
  next =>
      rcases update_cases (exactly text) sub v now with ⟨none, _⟩ | ⟨t, _, _, time, _⟩
      next => exact none
      next =>
          have known : (sub.st.quoteTime (exactly text) v now).isSome = true := by rw [time]; rfl
          exact absurd (quoteTime_exactly _ |>.mp known) unread

theorem deltas_update (settled : Settled sub.st last) :
    (TimeRead v → deltas (update (exactly text) sub v now).1.toList =
        .finite (riseOf last (readVolume v))) ∧
      (¬ TimeRead v → deltas (update (exactly text) sub v now).1.toList = .finite 0) := by
  obtain ⟨delta, silent, unread⟩ := @update_delta text sub v now last _ settled
  constructor
  next =>
      intro timed
      cases made : (update (exactly text) sub v now).1 with
      | none =>
          rcases silent made with untimed | none
          next => exact absurd timed untimed
          next => rw [none]; rfl
      | some t =>
          rw [← delta t made]
          exact List.sum_singleton
  next =>
      intro untimed
      rw [unread untimed]
      rfl

/-- The ticks of a subscription have no more than the rises of its volume, and exactly these when no
rise comes with a time that cannot be read. -/
theorem subRun_deltas (updates : List (Payload × Int)) (settled : Settled sub.st last) :
    (∀ t ∈ (subRun (exactly text) sub updates).1,
        ∃ q, volDeltaOf t.payload = .finite q ∧ 0 ≤ q) ∧
      ∃ total, deltas (subRun (exactly text) sub updates).1 = .finite total ∧
        total ≤ rises (last.toList ++ updates.filterMap fun u => readVolume u.1) ∧
        (total = rises (last.toList ++ updates.filterMap fun u => readVolume u.1) ↔
          RisesTimed last (updates.map Prod.fst)) := by
  induction updates generalizing sub last with
  | nil =>
      have none : rises (last.toList ++ []) = 0 := by
        cases last <;> rfl
      rw [List.filterMap_nil, none]
      exact ⟨fun t member => (nomatch member), 0, rfl, le_refl 0, iff_of_true rfl trivial⟩
  | cons u rest ih =>
      obtain ⟨v, now⟩ := u
      obtain ⟨timed, untimed⟩ := @deltas_update text sub v now last _ settled
      obtain ⟨delta, _, _⟩ := @update_delta text sub v now last _ settled
      obtain ⟨nonneg, total, sum, below, equal⟩ :=
        @ih { sub with st := (update (exactly text) sub v now).2 } _ (settled_update settled)
      have rise := riseOf_nonneg last (readVolume v)
      rw [rises_cons]
      simp only [subRun, deltas_append, List.map_cons, RisesTimed, ← equal]
      refine ⟨fun t member => ?_, ?_⟩
      next =>
          rcases List.mem_append.mp member with here | later
          next => exact ⟨_, delta t (Option.mem_toList.mp here), rise⟩
          next => exact nonneg t later
      next =>
          by_cases time : TimeRead v
          next =>
              rw [timed time, sum, PyFloat.finite_add_finite]
              refine ⟨_, rfl, add_le_add_right below _, ?_⟩
              rw [add_right_inj]
              exact (and_iff_right fun _ _ _ _ _ => time).symm
          next =>
              rw [untimed time, sum, PyFloat.finite_add_finite, zero_add]
              refine ⟨_, rfl, le_trans below (le_add_of_nonneg_left rise), ?_⟩
              constructor
              next =>
                  intro same
                  have flat : riseOf last (readVolume v) = 0 := by linarith
                  refine ⟨fun q read before last up => ?_, by linarith⟩
                  have positive := riseOf_pos_iff.mpr ⟨q, read, before, last, up⟩
                  rw [flat] at positive
                  exact absurd positive (lt_irrefl 0)
              next =>
                  intro ⟨rises, same⟩
                  have flat : riseOf last (readVolume v) = 0 := by
                    by_contra nonzero
                    obtain ⟨q, read, before, last, up⟩ :=
                      riseOf_pos_iff.mp (lt_of_le_of_ne rise (Ne.symm nonzero))
                    exact time (rises q read before last up)
                  rw [flat, zero_add, same]

end ExactArithmetic

/-- In exact arithmetic the ticks of every subscription have volume changes that are not negative and
add up to the rises of the volumes read for it, exactly when no update that raises the volume has a
time that cannot be read. -/
theorem volume_conserved_iff [Uppercase] (text : Value → String) (symbols : List String)
    (messages : List Qsd) {key : String} {sub : QuoteSub}
    (subscribed : (init symbols).subs.lookup key = some sub) :
    let ticks := (emitted (exactly text) symbols messages).filter (isOf sub)
    let updates := ((init symbols).updatesOf (exactly text) key messages).map Prod.fst
    ((∀ t ∈ ticks, ∃ q, volDeltaOf t.payload = .finite q ∧ 0 ≤ q) ∧
        (ticks.map fun t => volDeltaOf t.payload).sum =
          .finite (rises (updates.filterMap readVolume))) ↔
      RisesTimed none updates := by
  intro ticks updates
  have named : (init symbols).AllNamed := fun _ _ found => (named_init symbols found).1
  have new := (named_init symbols subscribed).2
  have settled : Settled sub.st none := by
    rw [new]
    exact ⟨rfl, rfl⟩
  obtain ⟨nonneg, total, sum, _, equal⟩ :=
    subRun_deltas ((init symbols).updatesOf (exactly text) key messages) settled
  have own : ticks = _ := handleAll_sub (exactly text) named subscribed messages
  have read : updates.filterMap readVolume =
      ((init symbols).updatesOf (exactly text) key messages).filterMap fun u => readVolume u.1 :=
    List.filterMap_map
  have added : (ticks.map fun t => volDeltaOf t.payload).sum = .finite total := by
    rw [own]
    exact sum
  rw [added, own, read, PyFloat.finite.injEq]
  exact (and_iff_right nonneg).trans equal

def partialUpdates : List Qsd :=
  [qsd "NYSE:ABC" [("lp_time", .int 1), ("volume", .int 10)],
    qsd "NASDAQ:ABC" [("lp_time", .str "soon"), ("lp", .int 7), ("volume", .int 90)],
    qsd "NYSE:ABC" [("volume", .str "15")],
    qsd "NYSE:ABC" [("lp_time", .str "soon"), ("volume", .int 2)],
    qsd "NYSE:ABC" [("lp_time", .int 4), ("lp", .int 100), ("volume", .str "many")],
    qsd "NYSE:ABC" [("lp_time", .str "5.5"), ("volume", .int 8)]]

attribute [local instance] asciiUppercase

theorem volume_conserved_partialUpdates :
    ∃ sub, (init ["NYSE:ABC", "NASDAQ:ABC"]).subs.lookup "NYSE:ABC" = some sub ∧
      (((emitted (exactly fun _ => "") ["NYSE:ABC", "NASDAQ:ABC"] partialUpdates).filter
        (isOf sub)).map fun t => volDeltaOf t.payload).sum = .finite 11 := by
  have known : ((init ["NYSE:ABC", "NASDAQ:ABC"]).subs.lookup "NYSE:ABC").isSome = true := by
    decide +kernel
  obtain ⟨sub, subscribed⟩ := Option.isSome_iff_exists.mp known
  refine ⟨sub, subscribed, ?_⟩
  have conserved := (volume_conserved_iff (fun _ => "") ["NYSE:ABC", "NASDAQ:ABC"] partialUpdates
    subscribed).mpr (by decide +kernel)
  rw [conserved.2]
  decide +kernel

def unreadTime : List Qsd :=
  [qsd "NYSE:ABC" [("lp_time", .int 1), ("lp", .int 100), ("volume", .int 10)],
    qsd "NYSE:ABC" [("lp_time", .str "soon"), ("volume", .int 15)],
    qsd "NYSE:ABC" [("lp_time", .int 3), ("volume", .int 18)]]

theorem delta_lost :
    ((emitted (exactly fun _ => "") ["NYSE:ABC"] unreadTime).map fun t => volDeltaOf t.payload).sum =
        .finite 3 ∧
      rises ((((init ["NYSE:ABC"]).updatesOf (exactly fun _ => "") "NYSE:ABC" unreadTime).map
        Prod.fst).filterMap readVolume) = 8 := by
  constructor
  next => decide +kernel
  next => decide +kernel

end TvQuotes

end DeepFeeder
