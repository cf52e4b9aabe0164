import DeepFeeder.Ingest.FeederSpecs
import DeepFeeder.Shared.Framing
import DeepFeeder.Shared.LastBy

set_option autoImplicit false

namespace DeepFeeder

open Framing LastBy

namespace FeedManager

inductive ProducerClass where
  | binanceWs
  | binanceBackfill
  | tradingViewWs
  | tradingViewApi

structure Producer where
  cls : ProducerClass
  name : String
  -- The symbols that the constructor is given.
  symbols : List Value

def producerRegistry : List ((String × String) × ProducerClass) :=
  [ (("binance", "trades"), .binanceWs),
    (("binance", "backfill"), .binanceBackfill),
    (("tradingview", "quotes"), .tradingViewWs),
    (("tradingview", "bars"), .tradingViewApi) ]

def producerName (spec : FeederSpec) (st : String) : String :=
  spec.provider ++ ":" ++ st ++ ":" ++ spec.name

section StartUp

-- Whether the constructor takes the stream's configuration.
variable (builds : FeederSpec → String → Bool)

-- A class that is not registered is None, which cannot be called.
def createProducer (spec : FeederSpec) (st : String) : Option Producer :=
  match producerRegistry.lookup (spec.provider, st) with
  | none => none
  | some cls =>
      if builds spec st then
        match cls with
        | .binanceBackfill => some { cls, name := producerName spec st, symbols := [] }
        | _ => some { cls, name := producerName spec st, symbols := spec.symbols }
      else none

def createFrom (spec : FeederSpec) : List String → Option (List Producer)
  | [] => some []
  | st :: rest =>
      match createProducer builds spec st with
      | none => none
      | some p => (createFrom spec rest).map (p :: ·)

/-- `create_producers`; none where it raises. -/
def createProducers (spec : FeederSpec) : Option (List Producer) := createFrom builds spec spec.streams

def register (producers : Dict String Producer) (p : Producer) : Dict String Producer :=
  producers.set p.name p

/-- The registration at start-up, which the first service that raises ends, and what is left then. -/
def registerSpecs (producers : Dict String Producer) :
    List FeederSpec → Dict String Producer × List FeederSpec
  | [] => (producers, [])
  | spec :: rest =>
      match createProducers builds spec with
      | none => (producers, spec :: rest)
      | some ps => registerSpecs (ps.foldl register producers) rest

end StartUp

def listProducers (producers : Dict String Producer) : List String := producers.entries.map Sigma.fst

def startProducer (producers : Dict String Producer) (name : String) : Option Producer :=
  producers.lookup name

/-- `start_autostart`: what it starts, by name; a name without a producer is logged. -/
def startAutostart (producers : Dict String Producer) (specs : List FeederSpec) :
    List (String × Option Producer) :=
  (specs.filter FeederSpec.autostart).flatMap fun s =>
    s.streams.map fun st => (producerName s st, startProducer producers (producerName s st))

-- `n.split(":", 2)`, where it has three parts.
def nameParts (n : List Char) : Option (List Char × List Char × List Char) :=
  match splitOnce [':'] n with
  | none => none
  | some (provider, rest) => (splitOnce [':'] rest).map fun parts => (provider, parts.1, parts.2)

def matchingProducers (producers : Dict String Producer) (serviceKey : String) : List String :=
  match splitOnce [':'] serviceKey.toList with
  | none => []
  | some (provider, service) =>
      (listProducers producers).filter fun n =>
        match nameParts n.toList with
        | none => false
        | some (p, _, name) => p = provider ∧ name = service

variable {builds : FeederSpec → String → Bool}

theorem registered_plain {provider st : String} {cls : ProducerClass}
    (found : producerRegistry.lookup (provider, st) = some cls) :
    ':' ∉ provider.toList ∧ ':' ∉ st.toList := by
  obtain ⟨front, back, all, _⟩ := List.lookup_eq_some_iff.mp found
  have member : ((provider, st), cls) ∈ producerRegistry := by
    rw [all]
    exact List.mem_append_right _ List.mem_cons_self
  have plain : ∀ entry ∈ producerRegistry, ':' ∉ entry.1.1.toList ∧ ':' ∉ entry.1.2.toList := by
    simp [producerRegistry]
  exact plain _ member

theorem createProducer_some {spec : FeederSpec} {st : String} {p : Producer}
    (made : createProducer builds spec st = some p) :
    p.name = producerName spec st ∧ ':' ∉ spec.provider.toList ∧ ':' ∉ st.toList := by
  unfold createProducer at made
  split at made
  next => cases made
  next cls found =>
    have plain := registered_plain found
    split at made
    next =>
      split at made
      all_goals
        cases made
        exact ⟨rfl, plain⟩
    next => cases made

theorem nameParts_producerName {spec : FeederSpec} {st : String}
    (provider : ':' ∉ spec.provider.toList) (stream : ':' ∉ st.toList) :
    nameParts (producerName spec st).toList =
      some (spec.provider.toList, st.toList, spec.name.toList) := by
  have text : (producerName spec st).toList =
      spec.provider.toList ++ [':'] ++ (st.toList ++ [':'] ++ spec.name.toList) := by
    simp [producerName, String.toList_append]
  have rest := splitOnce_behind stream [] spec.name.toList
  simp only [nameParts, text, splitOnce_behind provider, rest, Option.map_some]

def producersOf (builds : FeederSpec → String → Bool) (spec : FeederSpec) : List Producer :=
  spec.streams.filterMap (createProducer builds spec)

theorem createFrom_some {spec : FeederSpec} {streams : List String} {ps : List Producer}
    (made : createFrom builds spec streams = some ps) :
    ps = streams.filterMap (createProducer builds spec) ∧
      ∀ st ∈ streams, ∃ p, createProducer builds spec st = some p := by
  induction streams generalizing ps with
  | nil =>
      cases made
      exact ⟨rfl, by simp⟩
  | cons st rest ih =>
      rw [createFrom] at made
      split at made
      next => cases made
      next p own =>
        obtain ⟨later, tail, rfl⟩ := Option.map_eq_some_iff.mp made
        obtain ⟨rfl, all⟩ := ih tail
        refine ⟨by rw [List.filterMap_cons, own], ?_⟩
        exact List.forall_mem_cons.mpr ⟨⟨p, own⟩, all⟩

theorem registerSpecs_done {specs left : List FeederSpec} {d producers : Dict String Producer}
    (registered : registerSpecs builds d specs = (producers, left)) :
    ∃ done, specs = done ++ left ∧
      (∀ spec ∈ done, ∀ st ∈ spec.streams, ∃ p, createProducer builds spec st = some p) ∧
      producers = assign Producer.name (done.flatMap (producersOf builds)) d := by
  induction specs generalizing d with
  | nil =>
      cases registered
      exact ⟨[], rfl, by simp, rfl⟩
  | cons spec rest ih =>
      rw [registerSpecs] at registered
      split at registered
      next =>
        cases registered
        exact ⟨[], rfl, by simp, rfl⟩
      next ps made =>
        obtain ⟨done, rfl, all, same⟩ := ih registered
        obtain ⟨rfl, own⟩ := createFrom_some made
        refine ⟨spec :: done, rfl, List.forall_mem_cons.mpr ⟨own, all⟩, ?_⟩
        rw [same, List.flatMap_cons]
        exact List.foldl_append.symm

section Registered

variable {done : List FeederSpec}

theorem mem_made {p : Producer} (made : p ∈ done.flatMap (producersOf builds)) :
    ∃ spec ∈ done, ∃ st ∈ spec.streams, createProducer builds spec st = some p := by
  obtain ⟨spec, inside, own⟩ := List.mem_flatMap.mp made
  obtain ⟨st, member, some⟩ := List.mem_filterMap.mp own
  exact ⟨spec, inside, st, member, some⟩

theorem made_mem {spec : FeederSpec} {st : String} {p : Producer} (inside : spec ∈ done)
    (member : st ∈ spec.streams) (made : createProducer builds spec st = some p) :
    p ∈ done.flatMap (producersOf builds) :=
  List.mem_flatMap.mpr ⟨spec, inside, List.mem_filterMap.mpr ⟨st, member, made⟩⟩

theorem mem_listProducers
    (all : ∀ spec ∈ done, ∀ st ∈ spec.streams, ∃ p, createProducer builds spec st = some p)
    {n : String} :
    n ∈ listProducers (assign Producer.name (done.flatMap (producersOf builds)) ∅) ↔
      ∃ spec ∈ done, ∃ st ∈ spec.streams, n = producerName spec st := by
  have known : n ∈ listProducers (assign Producer.name (done.flatMap (producersOf builds)) ∅) ↔
      ∃ p ∈ done.flatMap (producersOf builds), p.name = n := by
    have keys : ∀ d : Dict String Producer, n ∈ listProducers d ↔ n ∈ d := fun d => Iff.rfl
    rw [keys, ← AList.lookup_isSome, lookup_assign, AList.lookup_empty, Option.or_none,
      ← Option.ne_none_iff_isSome, Ne, lastOf_eq_none]
    simp only [not_forall, not_not, exists_prop]
  rw [known]
  constructor
  next =>
    rintro ⟨p, made, rfl⟩
    obtain ⟨spec, inside, st, member, own⟩ := mem_made made
    exact ⟨spec, inside, st, member, (createProducer_some own).1⟩
  next =>
    rintro ⟨spec, inside, st, member, rfl⟩
    obtain ⟨p, own⟩ := all spec inside st member
    exact ⟨p, made_mem inside member own, (createProducer_some own).1⟩

theorem mem_matchingProducers
    (all : ∀ spec ∈ done, ∀ st ∈ spec.streams, ∃ p, createProducer builds spec st = some p)
    {provider name : String} (plain : ':' ∉ provider.toList) {n : String} :
    n ∈ matchingProducers (assign Producer.name (done.flatMap (producersOf builds)) ∅)
        (provider ++ ":" ++ name) ↔
      ∃ spec ∈ done, spec.provider = provider ∧ spec.name = name ∧
        ∃ st ∈ spec.streams, n = producerName spec st := by
  have text : (provider ++ ":" ++ name).toList = provider.toList ++ [':'] ++ name.toList := by
    simp [String.toList_append]
  have front := splitOnce_behind plain [] name.toList
  simp only [matchingProducers, text, front, List.mem_filter, mem_listProducers all]
  have parts : ∀ spec ∈ done, ∀ st ∈ spec.streams, nameParts (producerName spec st).toList =
      some (spec.provider.toList, st.toList, spec.name.toList) := by
    intro spec inside st member
    obtain ⟨p, own⟩ := all spec inside st member
    have plain := (createProducer_some own).2
    exact nameParts_producerName plain.1 plain.2
  constructor
  next =>
    rintro ⟨⟨spec, inside, st, member, rfl⟩, picked⟩
    rw [parts spec inside st member] at picked
    obtain ⟨sameProvider, sameName⟩ := of_decide_eq_true picked
    exact ⟨spec, inside, String.toList_inj.mp sameProvider, String.toList_inj.mp sameName,
      st, member, rfl⟩
  next =>
    rintro ⟨spec, inside, rfl, rfl, st, member, rfl⟩
    refine ⟨⟨spec, inside, st, member, rfl⟩, ?_⟩
    rw [parts spec inside st member]
    exact decide_eq_true ⟨rfl, rfl⟩

theorem nodup_matchingProducers (producers : Dict String Producer) (serviceKey : String) :
    (matchingProducers producers serviceKey).Nodup := by
  unfold matchingProducers
  split
  next => exact List.nodup_nil
  next => exact producers.keys_nodup.filter _

end Registered

def Serves (name : String) (spec : FeederSpec) : Prop := ∃ st ∈ spec.streams, producerName spec st = name

theorem producerName_inj {spec other : FeederSpec} {st st' : String} {p q : Producer}
    (made : createProducer builds spec st = some p)
    (made' : createProducer builds other st' = some q)
    (same : producerName spec st = producerName other st') : st = st' := by
  have plain := (createProducer_some made).2
  have plain' := (createProducer_some made').2
  have parts := nameParts_producerName plain.1 plain.2
  rw [same, nameParts_producerName plain'.1 plain'.2] at parts
  simp only [Option.some.injEq, Prod.mk.injEq] at parts
  exact (String.toList_inj.mp parts.2.1).symm

theorem lastOf_producersOf {spec : FeederSpec} {st : String} {p : Producer}
    (member : st ∈ spec.streams) (made : createProducer builds spec st = some p) :
    lastOf Producer.name (producersOf builds spec) (producerName spec st) = some p := by
  have inside : p ∈ producersOf builds spec := List.mem_filterMap.mpr ⟨st, member, made⟩
  cases found : lastOf Producer.name (producersOf builds spec) (producerName spec st) with
  | none => exact absurd (createProducer_some made).1 (lastOf_eq_none.mp found p inside)
  | some q =>
      obtain ⟨named, known⟩ := lastOf_eq_some found
      obtain ⟨st', _, own⟩ := List.mem_filterMap.mp known
      rw [(createProducer_some own).1] at named
      have same := producerName_inj own made named
      rw [same, made] at own
      exact own.symm

theorem lastOf_done (done : List FeederSpec) (name : String)
    (all : ∀ spec ∈ done, ∀ st ∈ spec.streams, ∃ p, createProducer builds spec st = some p)
    (served : ∃ spec ∈ done, Serves name spec) :
    ∃ front last back st p, done = front ++ last :: back ∧ (∀ later ∈ back, ¬ Serves name later) ∧
      st ∈ last.streams ∧ producerName last st = name ∧
      createProducer builds last st = some p ∧
      lastOf Producer.name (done.flatMap (producersOf builds)) name = some p := by
  induction done using List.reverseRecOn with
  | nil =>
      obtain ⟨spec, none, _⟩ := served
      cases none
  | append_singleton rest spec ih =>
      rw [List.flatMap_append, List.flatMap_singleton, lastOf_append]
      by_cases own : Serves name spec
      next =>
        obtain ⟨st, member, rfl⟩ := own
        obtain ⟨p, made⟩ := all spec (by simp) st member
        refine ⟨rest, spec, [], st, p, rfl, by simp, member, rfl, made, ?_⟩
        rw [lastOf_producersOf member made, Option.some_or]
      next =>
        obtain ⟨before, inside, serves⟩ := served
        have earlier : before ∈ rest := by
          rcases List.mem_append.mp inside with earlier | single
          next => exact earlier
          next => exact absurd (List.mem_singleton.mp single ▸ serves) own
        obtain ⟨front, last, back, st, p, rfl, later, member, named, made, found⟩ :=
          ih (fun spec known => all spec (List.mem_append_left _ known)) ⟨before, earlier, serves⟩
        have nothing : lastOf Producer.name (producersOf builds spec) name = none := by
          rw [lastOf_eq_none]
          intro q known same
          obtain ⟨st', member', own'⟩ := List.mem_filterMap.mp known
          rw [(createProducer_some own').1] at same
          exact own ⟨st', member', same⟩
        refine ⟨front, last, back ++ [spec], st, p, by simp, ?_, member, named, made, ?_⟩
        next =>
          intro other known
          rcases List.mem_append.mp known with known | single
          next => exact later other known
          next => exact List.mem_singleton.mp single ▸ own
        next => rw [nothing, Option.none_or, found]

open FeederSpec

/-- The panel of an accepted file lists its services one by one or nothing at all. After a start-up
that got through the services before `left`, the buttons of a listed service act on just the
producers of the services of its provider and name, and on at least one when none is left. -/
theorem controls_match {py : Builtins} {file : Value} {specs left : List FeederSpec}
    {producers : Dict String Producer} (accepted : loadFeederSpecs py file = .ok specs)
    (registered : registerSpecs builds ∅ specs = (producers, left)) :
    (loadSpecs py file = [] ∨ List.Forall₂ Panel.Shows (loadSpecs py file) specs) ∧
      ∃ done, specs = done ++ left ∧ ∀ c ∈ loadSpecs py file,
        (matchingProducers producers c.key).Nodup ∧
        (left = [] → matchingProducers producers c.key ≠ []) ∧
        (left = [] ∨ ':' ∉ c.provider.toList → ∀ n,
          n ∈ matchingProducers producers c.key ↔
            ∃ spec ∈ done, spec.provider = c.provider ∧ spec.name = c.name ∧
              ∃ st ∈ spec.streams, n = producerName spec st) := by
  obtain ⟨formed, shown⟩ : (∀ spec ∈ specs, spec.WellFormed) ∧
      (loadSpecs py file = [] ∨ List.Forall₂ Panel.Shows (loadSpecs py file) specs) := by
    unfold loadFeederSpecs at accepted
    unfold loadSpecs
    split at accepted
    next items found =>
      obtain ⟨formed, shows⟩ := panelItems_shows accepted
      refine ⟨formed, ?_⟩
      rw [found, Option.bind_some]
      cases listed : panelItems py items with
      | none => exact .inl rfl
      | some panels => exact .inr (shows panels listed)
    next => cases accepted
  refine ⟨shown, ?_⟩
  obtain ⟨done, rfl, all, rfl⟩ := registerSpecs_done registered
  refine ⟨done, rfl, fun c member => ?_⟩
  -- The service that the panel shows as this one.
  obtain ⟨own, inside, sameProvider, sameName, _⟩ :
      ∃ spec ∈ done ++ left, Panel.Shows c spec := by
    rcases shown with empty | shows
    next => exact (List.not_mem_nil (empty ▸ member)).elim
    next => exact Panel.shows_one shows member
  have plain : left = [] ∨ ':' ∉ c.provider.toList → ':' ∉ c.provider.toList := by
    rintro (rfl | plain)
    next =>
      rw [List.append_nil] at inside
      obtain ⟨st, first⟩ := List.exists_mem_of_ne_nil _ (formed own (by simpa using inside)).streams
      obtain ⟨p, made⟩ := all own inside st first
      rw [sameProvider]
      exact (createProducer_some made).2.1
    next => exact plain
  refine ⟨nodup_matchingProducers _ _, ?_, fun whole n =>
    mem_matchingProducers all (plain whole)⟩
  rintro rfl
  rw [List.append_nil] at inside
  obtain ⟨st, first⟩ := List.exists_mem_of_ne_nil _ (formed own (by simpa using inside)).streams
  refine List.ne_nil_of_mem (a := producerName own st) ?_
  exact (mem_matchingProducers all (plain (.inl rfl))).mpr
    ⟨own, inside, sameProvider.symm, sameName.symm, st, first, rfl⟩

def ascii : Builtins where
  str := fun value => match value with
    | .str s => s
    | _ => ""
  strip s := String.ofList (Numeral.strip s.toList)
  lower s := String.ofList (s.toList.map Char.toLower)
  upper s := String.ofList (s.toList.map Char.toUpper)
  dict := fun value => match value with
    | .dict items => some items
    | _ => none

def feeders : Value :=
  .list
    [ .dict
        [ ("provider", .str "Binance"), ("name", .str "main"),
          ("symbols", .list [.str "btcusdt", .str "BTCUSDT"]),
          ("streams", .list [.str "trades", .str "backfill"]) ],
      .dict
        [ ("provider", .str "tradingview"), ("name", .str "b3"),
          ("symbols", .list [.str "BMFBOVESPA:WINV2025"]),
          ("streams", .list [.str "quotes"]), ("autostart", .bool true) ] ]

def services : List FeederSpec :=
  [ { provider := "binance", name := "main", streams := ["trades", "backfill"]
      symbols := [.str "BTCUSDT"], autostart := false, extra := [] },
    { provider := "tradingview", name := "b3", streams := ["quotes"]
      symbols := [.str "BMFBOVESPA:WINV2025"], autostart := true, extra := [] } ]

def registry : Dict String Producer := (registerSpecs (fun _ _ => true) ∅ services).1

theorem controls_match_two :
    loadFeederSpecs ascii feeders = .ok services ∧
      registerSpecs (fun _ _ => true) ∅ services = (registry, []) ∧
      ∀ c ∈ loadSpecs ascii feeders, matchingProducers registry c.key ≠ [] := by
  have accepted : loadFeederSpecs ascii feeders = .ok services := rfl
  have registered : registerSpecs (fun _ _ => true) ∅ services = (registry, []) := rfl
  obtain ⟨_, _, _, buttons⟩ := controls_match accepted registered
  exact ⟨accepted, registered, fun c member => (buttons c member).2.1 rfl⟩

/-- The name of a stream of a registered service stands for the producer of the last service that
has the name, and after a whole start-up the autostart finds a producer for each of its names. -/
theorem start_last {specs left : List FeederSpec} {producers : Dict String Producer}
    (registered : registerSpecs builds ∅ specs = (producers, left)) :
    (∃ done, specs = done ++ left ∧ ∀ name, (∃ spec ∈ done, Serves name spec) →
        ∃ front last back st p, done = front ++ last :: back ∧
          (∀ later ∈ back, ¬ Serves name later) ∧
          st ∈ last.streams ∧ producerName last st = name ∧
          createProducer builds last st = some p ∧ startProducer producers name = some p) ∧
      (left = [] → ∀ entry ∈ startAutostart producers specs,
        ∃ p, entry.2 = some p ∧ p.name = entry.1) := by
  obtain ⟨done, rfl, all, rfl⟩ := registerSpecs_done registered
  have started : ∀ name, (∃ spec ∈ done, Serves name spec) →
      ∃ front last back st p, done = front ++ last :: back ∧
        (∀ later ∈ back, ¬ Serves name later) ∧
        st ∈ last.streams ∧ producerName last st = name ∧
        createProducer builds last st = some p ∧
        startProducer (assign Producer.name (done.flatMap (producersOf builds)) ∅) name = some p := by
    intro name served
    obtain ⟨front, last, back, st, p, split, later, member, named, made, found⟩ :=
      lastOf_done done name all served
    refine ⟨front, last, back, st, p, split, later, member, named, made, ?_⟩
    rw [startProducer, lookup_assign, found, Option.some_or]
  refine ⟨⟨done, rfl, started⟩, ?_⟩
  rintro rfl entry inside
  obtain ⟨spec, chosen, inside⟩ := List.mem_flatMap.mp inside
  obtain ⟨st, member, rfl⟩ := List.mem_map.mp inside
  have known : spec ∈ done := by simpa using List.mem_of_mem_filter chosen
  obtain ⟨front, last, back, st', p, _, _, _, named, made, found⟩ :=
    started (producerName spec st) ⟨spec, known, st, member, rfl⟩
  exact ⟨p, found, (createProducer_some made).1.trans named⟩

theorem start_last_two :
    registerSpecs (fun _ _ => true) ∅ services = (registry, []) ∧
      ∀ entry ∈ startAutostart registry services, ∃ p, entry.2 = some p ∧ p.name = entry.1 := by
  have registered : registerSpecs (fun _ _ => true) ∅ services = (registry, []) := rfl
  exact ⟨registered, (start_last registered).2 rfl⟩

end FeedManager

end DeepFeeder
