import Mathlib.Algebra.BigOperators.Group.List.Basic
import DeepFeeder.Providers.TradingView
import DeepFeeder.Storage.Canonical

set_option autoImplicit false

namespace DeepFeeder

open DuckDbJournal

namespace PyFloat

def add : PyFloat → PyFloat → PyFloat
  | .finite a, .finite b => .finite (a + b)
  | .nan, _ | _, .nan => .nan
  | .inf negative, .inf other => if negative = other then .inf negative else .nan
  | .inf negative, .finite _ | .finite _, .inf negative => .inf negative

theorem add_assoc_ (a b c : PyFloat) : add (add a b) c = add a (add b c) := by
  cases a with
  | finite p => cases b with
    | finite q => cases c with
      | finite r => exact congrArg finite (add_assoc p q r)
      | inf | nan => rfl
    | inf second => cases c with
      | finite | nan => rfl
      | inf third => cases second <;> cases third <;> rfl
    | nan => cases c <;> rfl
  | inf first => cases b with
    | finite => cases c <;> rfl
    | inf second => cases c with
      | finite | nan => cases first <;> cases second <;> rfl
      | inf third => cases first <;> cases second <;> cases third <;> rfl
    | nan => cases c <;> rfl
  | nan => cases b <;> cases c <;> rfl

theorem add_comm_ (a b : PyFloat) : add a b = add b a := by
  cases a with
  | finite p => cases b with
    | finite q => exact congrArg finite (add_comm p q)
    | inf | nan => rfl
  | inf first => cases b with
    | finite | nan => rfl
    | inf second => cases first <;> cases second <;> rfl
  | nan => cases b <;> rfl

theorem zero_add_ (a : PyFloat) : add (.finite 0) a = a := by
  cases a with
  | finite q => exact congrArg finite (zero_add q)
  | inf | nan => rfl

instance : Zero PyFloat := ⟨.finite 0⟩

instance : Add PyFloat := ⟨add⟩

instance : AddCommMonoid PyFloat where
  add_assoc := add_assoc_
  zero_add := zero_add_
  add_zero a := (add_comm_ a _).trans (zero_add_ a)
  add_comm := add_comm_
  nsmul := nsmulRec

theorem finite_add_finite (a b : Rat) : finite a + finite b = finite (a + b) := rfl

end PyFloat

def volDeltaOf (payload : Payload) : PyFloat :=
  match field payload "vol_delta" with
  | .float q => .finite q
  | .inf negative => .inf negative
  | .nan => .nan
  | _ => 0

def isFrom (exchange : String) (payload : Payload) : Bool :=
  match field payload "exchange" with
  | .str exch => exch = exchange
  | _ => false

def volumeOf (exchange symbol : String) (ticks : List Tick) : PyFloat :=
  ((ticks.filter fun t => decide (t.symbol = symbol) && isFrom exchange t.payload).map fun t =>
    volDeltaOf t.payload).sum

def canonicalVolumeOf (exchange symbol : String) (canonical : JournalCanonical) : PyFloat :=
  ((canonical.rows.filter fun r =>
    decide (r.symbol = symbol) && isFrom exchange (r.payload.getD [])).map fun r =>
      volDeltaOf (r.payload.getD [])).sum

/-- The canonical table has one row for each of the ticks, and their volume. -/
structure Kept (ticks : List Tick) (canonical : JournalCanonical) : Prop where
  rows : (canonical.rows.map fun r => (r.primaryKey, r.tsNs, r.payload)).Perm
    (ticks.map fun t => (t.canonicalKey, t.tsNs, some t.payload))
  volumes : ∀ exchange symbol,
    canonicalVolumeOf exchange symbol canonical = volumeOf exchange symbol ticks

theorem kept_of_distinct {ticks : List Tick} (distinct : (ticks.map naturalKey).Nodup)
    (calls : List AppendCall) (same : ∀ t, t ∈ appendedTicks calls ↔ t ∈ ticks) :
    Kept ticks (new.appendAll calls).canonical := by
  have keys : (ticks.map Tick.canonicalKey).Nodup := by
    rw [List.Nodup, List.pairwise_map] at distinct ⊢
    exact distinct.imp fun different equal => different (canonicalKey_eq_iff.mp equal)
  have rows := (appendAll_canonicalOf calls).1.perm same keys
  refine ⟨rows, fun exchange symbol => ?_⟩
  -- Both sums are taken over the same triples of key, time and payload.
  let chosen (item : CanonicalKey × Int × Option Payload) : Bool :=
    decide (item.1.2.2.1 = symbol) && isFrom exchange (item.2.2.getD [])
  let volume (item : CanonicalKey × Int × Option Payload) : PyFloat := volDeltaOf (item.2.2.getD [])
  have sums := ((rows.filter chosen).map volume).sum_eq
  rw [List.filter_map, List.filter_map, List.map_map, List.map_map] at sums
  exact sums

def IsQuote (t : Tick) : Prop :=
  t.provider = "tradingview" ∧ t.stream = "quotes" ∧ t.seq = none

variable {earlier : List Tick}

theorem naturalKey_quote {s t : Tick} (first : IsQuote s) (second : IsQuote t) :
    naturalKey s = naturalKey t ↔ s.symbol = t.symbol ∧ s.tsNs = t.tsNs := by
  obtain ⟨provider, stream, seq⟩ := first
  obtain ⟨provider', stream', seq'⟩ := second
  simp [naturalKey, provider, stream, seq, provider', stream', seq']

structure Distinct (ticks : List Tick) : Prop where
  keys : (ticks.map naturalKey).Nodup
  times : ∀ t ∈ ticks, isBigint t.tsNs = true

theorem distinct_nil : Distinct [] := ⟨.nil, by simp⟩

theorem Distinct.of_append {later : List Tick} (distinct : Distinct (earlier ++ later)) :
    Distinct earlier := by
  have keys := distinct.keys
  rw [List.map_append] at keys
  exact ⟨(List.nodup_append.mp keys).1, fun t member =>
    distinct.times t (List.mem_append_left later member)⟩

theorem distinct_append_quote {t : Tick} (quotes : ∀ s ∈ earlier, IsQuote s) (quote : IsQuote t)
    (distinct : Distinct earlier) :
    Distinct (earlier ++ [t]) ↔
      isBigint t.tsNs = true ∧ ∀ s ∈ earlier, s.symbol = t.symbol → s.tsNs ≠ t.tsNs := by
  constructor
  · intro grown
    have keys := grown.keys
    rw [List.map_append] at keys
    obtain ⟨_, _, apart⟩ := List.nodup_append.mp keys
    refine ⟨grown.times t (by simp), fun s member symbol tsNs => ?_⟩
    exact apart _ (List.mem_map_of_mem member) _ (by simp)
      ((naturalKey_quote (quotes s member) quote).mpr ⟨symbol, tsNs⟩)
  · rintro ⟨fits, free⟩
    refine ⟨?_, ?_⟩
    · rw [List.map_append]
      refine List.nodup_append.mpr ⟨distinct.keys, by simp, ?_⟩
      rintro _ old _ single rfl
      obtain ⟨s, member, same⟩ := List.mem_map.mp old
      rw [List.map_singleton, List.mem_singleton] at single
      obtain ⟨symbol, tsNs⟩ := (naturalKey_quote (quotes s member) quote).mp (same.trans single)
      exact free s member symbol tsNs
    · intro s member
      rcases List.mem_append.mp member with old | new
      · exact distinct.times s old
      · rw [List.mem_singleton.mp new]
        exact fits

section Messages

variable [Uppercase] (py : Python)

namespace TvQuotes

/-- The quote that an update gives, if it gives one, has a time that the journal can store and that no
earlier quote of its symbol has. -/
def TimeFree (earlier : List Tick) (producer : TvQuotes) (it : Value) (now : Int) : Prop :=
  match it with
  | .dict it =>
      match producer.subOf py it, (field it "v").or (.dict []) with
      | some sub, .dict v =>
          let st := sub.st.refresh py v now
          st.material (st.volDelta py) = true → ∀ tsNs, sub.st.quoteTime py v now = some tsNs →
            isBigint tsNs = true ∧ ∀ t ∈ earlier, t.symbol = upper sub.symbol → t.tsNs ≠ tsNs
      | _, _ => True
  | _ => True

def itemsTimeFree : List Tick → TvQuotes → List (Value × Int) → Prop
  | _, _, [] => True
  | earlier, producer, (it, now) :: rest =>
      producer.TimeFree py earlier it now ∧
        match producer.handleItem py it now with
        | none => True
        | some (tick, next) => itemsTimeFree (earlier ++ tick.toList) next rest

def timesFree : List Tick → TvQuotes → List Qsd → Prop
  | _, _, [] => True
  | earlier, producer, message :: rest =>
      let handled := producer.handleQsd py message
      itemsTimeFree py earlier producer message.items ∧
        timesFree (earlier ++ handled.1) handled.2 rest

end TvQuotes

variable {py} {producer : TvQuotes} {it : Value} {now : Int}

namespace TvQuotes

theorem update_cases (py : Python) (sub : QuoteSub) (v : Payload) (now : Int) :
    let st := sub.st.refresh py v now
    ((update py sub v now).1 = none ∧
        (st.material (st.volDelta py) = false ∨ sub.st.quoteTime py v now = none)) ∨
      ∃ t, (update py sub v now).1 = some t ∧ st.material (st.volDelta py) = true ∧
        sub.st.quoteTime py v now = some t.tsNs ∧ IsQuote t ∧ t.symbol = upper sub.symbol := by
  intro st
  have time : st.lpTimeNs = sub.st.quoteTime py v now := rfl
  have result : (update py sub v now).1 = if st.material (st.volDelta py) then
      tvQuoteWsToTick py sub.exchange sub.symbol (st.quote v) st.lpTimeNs
        ((st.volDelta py).getD (.finite 0))
    else none := rfl
  cases material : st.material (st.volDelta py) with
  | false => exact .inl ⟨by simp [result, material], .inl rfl⟩
  | true =>
      rw [material, if_pos rfl, time] at result
      cases known : sub.st.quoteTime py v now with
      | some tsNs =>
          rw [known] at result
          exact .inr ⟨_, result, rfl, rfl, ⟨rfl, rfl, rfl⟩, rfl⟩
      | none =>
          refine .inl ⟨?_, .inr rfl⟩
          -- Only an `lp_time` that cannot be read leaves no time, and the adapter raises on it.
          rw [known] at result
          unfold SymState.quoteTime at known
          have passed : field (st.quote v) "lp_time" = field v "lp_time" := rfl
          unfold tvQuoteWsToTick at result
          rw [passed] at result
          cases lpTime : field v "lp_time" with
          | none => simp [lpTime] at known
          | bool | int | float | inf | nan | str | list | dict =>
              rw [lpTime] at known result
              simp only [known] at result
              exact result

theorem handleItem_cases (py : Python) (producer : TvQuotes) (it : Value) (now : Int) :
    (producer.handleItem py it now = none ∧ ∀ earlier, producer.TimeFree py earlier it now) ∨
    ∃ tick next, producer.handleItem py it now = some (tick, next) ∧ (∀ t ∈ tick, IsQuote t) ∧
      ∀ earlier, producer.TimeFree py earlier it now ↔
        ∀ t ∈ tick, isBigint t.tsNs = true ∧
          ∀ s ∈ earlier, s.symbol = t.symbol → s.tsNs ≠ t.tsNs := by
  unfold handleItem TimeFree
  cases it with
  | none | bool | int | float | inf | nan | str | list => exact .inl ⟨rfl, fun _ => trivial⟩
  | dict it =>
      cases found : producer.subOf py it with
      | none =>
          simp only [found]
          exact .inr ⟨none, producer, rfl, by simp, fun _ => by simp⟩
      | some sub =>
          simp only [found]
          cases (field it "v").or (.dict []) with
          | none | bool | int | float | inf | nan | str | list => exact .inl ⟨rfl, fun _ => trivial⟩
          | dict v =>
              refine .inr ⟨_, _, rfl, ?_⟩
              rcases update_cases py sub v now with
                ⟨nothing, immaterial | timeless⟩ | ⟨t, result, material, time, quote, symbol⟩
              · simp [nothing, immaterial]
              · simp [nothing, timeless]
              · simp [result, material, time, quote, symbol]

theorem itemsTimeFree_iff (py : Python) (producer : TvQuotes) (items : List (Value × Int))
    (quotes : ∀ s ∈ earlier, IsQuote s) (distinct : Distinct earlier) :
    Distinct (earlier ++ (producer.handleItems py items).1) ↔
      itemsTimeFree py earlier producer items := by
  induction items generalizing earlier producer with
  | nil =>
      refine iff_of_true ?_ trivial
      rw [handleItems, List.append_nil]
      exact distinct
  | cons first rest ih =>
      obtain ⟨it, now⟩ := first
      unfold handleItems itemsTimeFree
      rcases handleItem_cases py producer it now with ⟨raised, free⟩ | ⟨tick, next, result, quote, free⟩
      · simp only [raised]
        refine iff_of_true ?_ ⟨free earlier, trivial⟩
        rw [List.append_nil]
        exact distinct
      · simp only [result]
        rw [free]
        cases tick with
        | none =>
            simp only [Option.toList_none, List.nil_append, List.append_nil, ih next quotes distinct]
            simp
        | some t =>
            have isQuote := quote t rfl
            have appended := distinct_append_quote quotes isQuote distinct
            rw [Option.toList_some, ← List.append_assoc]
            have only : (∀ u ∈ some t, isBigint u.tsNs = true ∧
                ∀ s ∈ earlier, s.symbol = u.symbol → s.tsNs ≠ u.tsNs) ↔
                  Distinct (earlier ++ [t]) := by
              rw [appended]
              exact ⟨fun all => all t rfl, by rintro apart u ⟨⟩; exact apart⟩
            rw [only]
            by_cases apart : Distinct (earlier ++ [t])
            · have grown : ∀ s ∈ earlier ++ [t], IsQuote s := by
                intro s member
                rcases List.mem_append.mp member with old | new
                · exact quotes s old
                · rw [List.mem_singleton.mp new]
                  exact isQuote
              rw [ih next grown apart]
              exact (and_iff_right apart).symm
            · exact iff_of_false (fun all => apart all.of_append) fun meets => apart meets.1

theorem handleItems_quotes (py : Python) (producer : TvQuotes) (items : List (Value × Int)) :
    ∀ t ∈ (producer.handleItems py items).1, IsQuote t := by
  induction items generalizing producer with
  | nil => simp [handleItems]
  | cons first rest ih =>
      obtain ⟨it, now⟩ := first
      unfold handleItems
      rcases handleItem_cases py producer it now with ⟨raised, _⟩ | ⟨tick, next, result, quote, _⟩
      · simp [raised]
      · simp only [result, List.mem_append, Option.mem_toList]
        rintro t (here | later)
        · exact quote t here
        · exact ih next t later

theorem timesFree_iff (py : Python) (producer : TvQuotes) (messages : List Qsd)
    (quotes : ∀ s ∈ earlier, IsQuote s) (distinct : Distinct earlier) :
    Distinct (earlier ++ (producer.handleAll py messages).1) ↔
      timesFree py earlier producer messages := by
  induction messages generalizing earlier producer with
  | nil =>
      refine iff_of_true ?_ trivial
      rw [handleAll, List.append_nil]
      exact distinct
  | cons message rest ih =>
      unfold handleAll timesFree
      have items := itemsTimeFree_iff py producer message.items quotes distinct
      have grown : ∀ s ∈ earlier ++ (producer.handleQsd py message).1, IsQuote s := by
        intro s member
        rcases List.mem_append.mp member with old | new
        · exact quotes s old
        · exact handleItems_quotes py producer message.items s new
      change _ ↔ itemsTimeFree py earlier producer message.items ∧ _
      rw [← items, ← List.append_assoc]
      constructor
      · intro all
        have first := all.of_append
        exact ⟨first, (ih _ grown first).mp all⟩
      · rintro ⟨first, later⟩
        exact (ih _ grown first).mpr later

def emitted (py : Python) (symbols : List String) (messages : List Qsd) : List Tick :=
  ((init symbols).handleAll py messages).1

theorem emitted_kept_iff (py : Python) (symbols : List String) (messages : List Qsd) :
    (((emitted py symbols messages).map naturalKey).Nodup ∧
        (∀ t ∈ emitted py symbols messages, isBigint t.tsNs = true) ∧
        ∀ calls : List AppendCall, (∀ t, t ∈ appendedTicks calls ↔ t ∈ emitted py symbols messages) →
          Kept (emitted py symbols messages) (new.appendAll calls).canonical) ↔
      timesFree py [] (init symbols) messages := by
  have distinct := timesFree_iff py (init symbols) messages  (by simp) distinct_nil
  rw [List.nil_append] at distinct
  rw [← distinct]
  constructor
  · exact fun kept => ⟨kept.1, kept.2.1⟩
  · exact fun apart => ⟨apart.keys, apart.times, kept_of_distinct apart.keys⟩

end TvQuotes

end Messages

namespace TvQuotes

def qsd (n : String) (v : Payload) : Qsd :=
  { obj := [("m", .str "qsd"), ("p", .list [.str "qs_1", .dict [("n", .str n), ("v", .dict v)]])]
    clock := fun _ => 5000000000 }

def timeReused : List Qsd :=
  [qsd "NYSE:ABC" [("lp_time", .int 1), ("lp", .int 100), ("volume", .int 10)],
    qsd "NYSE:ABC" [("volume", .int 15)], qsd "NYSE:ABC" [("volume", .int 18)]]

def twoExchanges : List Qsd :=
  [qsd "NYSE:ABC" [("lp_time", .int 1), ("lp", .int 100)],
    qsd "NASDAQ:ABC" [("lp_time", .int 1), ("lp", .int 101)]]

def journalled (ticks : List Tick) : DuckDbJournal :=
  new.appendAll (ticks.map fun t =>
    { rowNumber := .argmax, now := 0
      env := { batchId := 1, producedAtNs := 0, firstOffset := none, lastOffset := none
               rows := [t] } })

attribute [local instance] asciiUppercase

theorem quotes_collide :
    ¬((emitted exactFloats ["NYSE:ABC"] timeReused).map naturalKey).Nodup ∧
      volumeOf "NYSE" "ABC" (emitted exactFloats ["NYSE:ABC"] timeReused) = .finite 8 ∧
      canonicalVolumeOf "NYSE" "ABC"
        (journalled (emitted exactFloats ["NYSE:ABC"] timeReused)).canonical = .finite 3 ∧
      ¬((emitted exactFloats ["NYSE:ABC", "NASDAQ:ABC"] twoExchanges).map naturalKey).Nodup := by
  refine ⟨?_, ?_, ?_, ?_⟩
  · decide +kernel
  · decide +kernel
  · decide +kernel
  · decide +kernel

end TvQuotes

end DeepFeeder
