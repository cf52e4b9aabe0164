import DeepFeeder.Core.Values

set_option autoImplicit false

namespace DeepFeeder

structure FeederSpec where
  provider : String
  name : String
  streams : List String
  -- The symbols of other providers than binance need not be strings.
  symbols : List Value
  autostart : Bool
  extra : Payload

inductive SpecError where
  | valueError (msg : String)
  -- What the code does not raise itself: an AttributeError or a TypeError.
  | raised

/-- The built-ins that the file's texts go through. -/
structure Builtins where
  str : Value → String
  strip : String → String
  lower : String → String
  upper : String → String
  -- `dict(value)`; none where it raises.
  dict : Value → Option Payload

def iterate : Value → Option (List Value)
  | .list items => some items
  | .str s => some (s.toList.map fun c => .str (String.ofList [c]))
  | .dict items => some (items.map fun item => .str item.1)
  | _ => none

-- What `hash` and `==` compare of a value: True, 1 and 1.0 are one, and `json` has one NaN object.
inductive HashKey where
  | nothing
  | number (x : PyFloat)
  | text (s : String)
  deriving DecidableEq

def hashKey : Value → Option HashKey
  | .none => some .nothing
  | .bool b => some (.number (.finite (if b then 1 else 0)))
  | .int n => some (.number (.finite n))
  | .float q => some (.number (.finite q))
  | .inf negative => some (.number (.inf negative))
  | .nan => some (.number .nan)
  | .str s => some (.text s)
  | .list _ | .dict _ => none

namespace FeederSpec

def get (item : Payload) (name : String) (default_ : Value) : Value :=
  (item.lookup name).getD default_

section Loading

variable (py : Builtins)

def stripped (value : Value) : String := py.strip (py.str value)

def upperFor (provider : String) (s : Value) : Option Value :=
  if provider = "binance" then
    match s with
    | .str s => some (.str (py.upper s))
    | _ => none
  else some s

/-- The loop of `_normalize_symbols`; none where it raises. -/
def normalizeFrom (provider : String) (out : List Value) : List Value → Option (List Value)
  | [] => some out
  | s :: rest =>
      match upperFor py provider s with
      | none => none
      | some s2 =>
          match hashKey s2 with
          | none => none
          | some _ =>
              if hashKey s2 ∈ out.map hashKey then normalizeFrom provider out rest
              else normalizeFrom provider (out ++ [s2]) rest

def normalizeSymbols (provider : String) (symbols : Value) : Option (List Value) :=
  if symbols.truthy then (iterate symbols).bind (normalizeFrom py provider []) else some []

def providerOf (item : Payload) : String := py.lower (stripped py (get item "provider" (.str "")))

def nameOf (item : Payload) : String := stripped py (get item "name" (.str ""))

def autostartOf (item : Payload) : Bool := (get item "autostart" (.bool false)).truthy

def missingError (idx : Nat) : String :=
  "spec[" ++ toString idx ++ "] missing 'provider' or 'name'"

def streamsError (idx : Nat) : String :=
  "spec[" ++ toString idx ++ "] must include non-empty 'streams' list"

def loadItem (idx : Nat) : Value → Except SpecError FeederSpec
  | .dict item =>
      if providerOf py item = "" ∨ nameOf py item = "" then .error (.valueError (missingError idx))
      else
        match get item "streams" .none with
        | .list (first :: rest) =>
            match normalizeSymbols py (providerOf py item) (get item "symbols" (.list [])),
                py.dict (get item "extra" (.dict [])) with
            | some symbols, some extra =>
                .ok
                  { provider := providerOf py item
                    name := nameOf py item
                    streams := (first :: rest).map fun s => py.lower (stripped py s)
                    symbols
                    autostart := autostartOf item
                    extra }
            | _, _ => .error .raised
        | _ => .error (.valueError (streamsError idx))
  | _ => .error .raised

def loadItems : Nat → List Value → Except SpecError (List FeederSpec)
  | _, [] => .ok []
  | idx, item :: rest =>
      match loadItem py idx item with
      | .error e => .error e
      | .ok spec => (loadItems (idx + 1) rest).map (spec :: ·)

def loadFeederSpecs (data : Value) : Except SpecError (List FeederSpec) :=
  match iterate data with
  | some items => loadItems py 0 items
  | none => .error .raised

structure Panel where
  provider : String
  name : String
  symbols : String
  autostart : Bool

def Panel.key (c : Panel) : String := c.provider ++ ":" ++ c.name

-- The strings that `",".join` joins; none where an item is not a string.
def strings : List Value → Option (List String)
  | [] => some []
  | .str s :: rest => (strings rest).map (s :: ·)
  | _ :: _ => none

def joined (value : Value) : Option String :=
  ((iterate value).bind strings).map fun symbols => ",".intercalate symbols

/-- The loop of `_load_specs`, which passes over what has no provider or no name. -/
def panelItems : List Value → Option (List Panel)
  | [] => some []
  | .dict item :: rest =>
      if providerOf py item = "" ∨ nameOf py item = "" then panelItems rest
      else
        match joined (get item "symbols" (.list [])) with
        | some symbols => (panelItems rest).map fun panels =>
            { provider := providerOf py item, name := nameOf py item, symbols
              autostart := autostartOf item } :: panels
        | none => none
  | _ :: _ => none

/-- `_load_specs`: whatever raises, the panel then shows nothing. -/
def loadSpecs (data : Value) : List Panel := ((iterate data).bind (panelItems py)).getD []

end Loading

variable {py : Builtins}

structure WellFormed (spec : FeederSpec) : Prop where
  provider : spec.provider ≠ ""
  name : spec.name ≠ ""
  streams : spec.streams ≠ []
  distinct : (spec.symbols.map hashKey).Nodup

theorem distinct_normalizeFrom {provider : String} {symbols out result : List Value}
    (distinct : (out.map hashKey).Nodup)
    (normalized : normalizeFrom py provider out symbols = some result) :
    (result.map hashKey).Nodup := by
  induction symbols generalizing out with
  | nil =>
      cases normalized
      exact distinct
  | cons s rest ih =>
      rw [normalizeFrom] at normalized
      split at normalized
      next => cases normalized
      next s2 _ =>
        split at normalized
        next => cases normalized
        next =>
          split at normalized
          next => exact ih distinct normalized
          next absent =>
            refine ih ?_ normalized
            rw [List.map_append, List.nodup_append]
            refine ⟨distinct, by simp, ?_⟩
            rintro known old new single rfl
            exact absent (List.mem_singleton.mp single ▸ old)

theorem distinct_normalizeSymbols {provider : String} {symbols : Value} {result : List Value}
    (normalized : normalizeSymbols py provider symbols = some result) :
    (result.map hashKey).Nodup := by
  unfold normalizeSymbols at normalized
  split at normalized
  next =>
    obtain ⟨items, _, rest⟩ := Option.bind_eq_some_iff.mp normalized
    have empty : (([] : List Value).map hashKey).Nodup := List.nodup_nil
    exact distinct_normalizeFrom empty rest
  next =>
    cases normalized
    exact List.nodup_nil

theorem loadItem_ok {idx : Nat} {value : Value} {spec : FeederSpec}
    (loaded : loadItem py idx value = .ok spec) :
    ∃ item, value = .dict item ∧ spec.provider = providerOf py item ∧
      spec.name = nameOf py item ∧ spec.autostart = autostartOf item ∧ spec.WellFormed := by
  unfold loadItem at loaded
  split at loaded
  next item =>
    split at loaded
    next => cases loaded
    next present =>
      obtain ⟨provider, name⟩ := not_or.mp present
      split at loaded
      next first rest _ =>
        split at loaded
        next symbols extra normalized _ =>
          cases loaded
          exact ⟨item, rfl, rfl, rfl, rfl,
            { provider, name
              streams := List.cons_ne_nil _ _
              distinct := distinct_normalizeSymbols normalized }⟩
        next => cases loaded
      next => cases loaded
  next => cases loaded

theorem loadItems_error {idx : Nat} {items : List Value} {e : SpecError}
    (refused : loadItems py idx items = .error e) :
    ∃ front item back specs, items = front ++ item :: back ∧
      loadItems py idx front = .ok specs ∧ loadItem py (idx + front.length) item = .error e := by
  induction items generalizing idx with
  | nil => cases refused
  | cons value rest ih =>
      rw [loadItems] at refused
      cases own : loadItem py idx value with
      | error found =>
          rw [own] at refused
          cases refused
          exact ⟨[], value, rest, [], rfl, rfl, own⟩
      | ok spec =>
          rw [own] at refused
          cases tail : loadItems py (idx + 1) rest with
          | ok others =>
              rw [tail] at refused
              cases refused
          | error found =>
              rw [tail] at refused
              cases refused
              obtain ⟨front, item, back, specs, rfl, loaded, faulty⟩ := ih tail
              refine ⟨value :: front, item, back, spec :: specs, rfl, ?_, ?_⟩
              next =>
                rw [loadItems, own, loaded]
                rfl
              next =>
                rw [List.length_cons, Nat.add_comm front.length, ← Nat.add_assoc]
                exact faulty

def Panel.Shows (c : Panel) (spec : FeederSpec) : Prop :=
  c.provider = spec.provider ∧ c.name = spec.name ∧ c.autostart = spec.autostart

theorem panelItems_shows {idx : Nat} {items : List Value} {specs : List FeederSpec}
    (loaded : loadItems py idx items = .ok specs) :
    (∀ spec ∈ specs, spec.WellFormed) ∧
      ∀ panels, panelItems py items = some panels → List.Forall₂ Panel.Shows panels specs := by
  induction items generalizing idx specs with
  | nil =>
      cases loaded
      exact ⟨fun spec none => (List.not_mem_nil none).elim, fun panels shown => by
        cases shown
        exact .nil⟩
  | cons value rest ih =>
      rw [loadItems] at loaded
      cases own : loadItem py idx value with
      | error e =>
          rw [own] at loaded
          cases loaded
      | ok spec =>
          obtain ⟨item, rfl, provider, name, autostart, wellFormed⟩ := loadItem_ok own
          rw [own] at loaded
          cases tail : loadItems py (idx + 1) rest with
          | error e =>
              rw [tail] at loaded
              cases loaded
          | ok others =>
              rw [tail] at loaded
              cases loaded
              obtain ⟨restFormed, restShows⟩ := ih tail
              refine ⟨List.forall_mem_cons.mpr ⟨wellFormed, restFormed⟩, fun panels shown => ?_⟩
              have present : ¬ (providerOf py item = "" ∨ nameOf py item = "") :=
                not_or.mpr ⟨provider ▸ wellFormed.provider, name ▸ wellFormed.name⟩
              rw [panelItems, if_neg present] at shown
              split at shown
              next =>
                obtain ⟨later, found, rfl⟩ := Option.map_eq_some_iff.mp shown
                exact .cons ⟨provider.symm, name.symm, autostart.symm⟩ (restShows later found)
              next => cases shown

theorem Panel.shows_one {c : Panel} {panels : List Panel} {specs : List FeederSpec}
    (shows : List.Forall₂ Panel.Shows panels specs) (member : c ∈ panels) :
    ∃ spec ∈ specs, c.Shows spec := by
  induction shows with
  | nil => cases member
  | cons first _ ih =>
      rcases List.mem_cons.mp member with rfl | later
      next => exact ⟨_, List.mem_cons_self, first⟩
      next =>
        obtain ⟨spec, inside, same⟩ := ih later
        exact ⟨spec, List.mem_cons_of_mem _ inside, same⟩

end FeederSpec

end DeepFeeder
