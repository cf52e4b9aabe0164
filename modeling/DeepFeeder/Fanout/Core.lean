import Mathlib.Data.Finset.Erase
import Mathlib.Data.Finset.Insert
import Mathlib.Data.Finset.Dedup
import DeepFeeder.Shared.Dict
import DeepFeeder.Fanout.Language

set_option autoImplicit false

namespace DeepFeeder

/-- A callback object: its `id`, and what its equality compares. -/
structure Callback where
  id : Nat
  target : Nat
  deriving DecidableEq

theorem separated_left {c : Char} {front front' back back' : List Char} (absent : c ∉ front)
    (absent' : c ∉ front') (same : front ++ c :: back = front' ++ c :: back') :
    front = front' ∧ back = back' := by
  have start {front back : List Char} (absent : c ∉ front) :
      (front ++ c :: back).takeWhile (· ≠ c) = front := by
    rw [List.takeWhile_append_of_pos]
    · simp
    · intro other member
      have different : other ≠ c := fun equal => absent (equal ▸ member)
      simpa using different
  have front_ : front = front' := by
    rw [← start absent, same, start absent']
  subst front_
  exact ⟨rfl, by simpa using same⟩

variable [Uppercase]

def streamKey (provider dataSchema symbol : String) (exchange : Option String) : String :=
  provider ++ "|" ++ dataSchema ++ "|" ++ symbol ++
    match exchange with
    | none | some "" => ""
    | some exchange => "@" ++ upper exchange

structure View where
  filters : List String
  cols : List String
  deriving DecidableEq

def listenerView (spec : SchemaSpec) (symbol : String) (exchange : Option String) : View :=
  { filters := symbolFilterExpr spec symbol :: exchangeFilters spec exchange, cols := spec.cols }

structure Listener extends SymListener where
  id : Nat
  provider : String
  dataSchema : String
  symbol : String
  view : View

/-- What comes of the calls that create and start a listener: the buffer length that it is given, or
the text of an exception. -/
inductive Creation where
  | started (bufLen : Nat)
  | raised (text : String)

structure Subscription where
  provider : String
  dataSchema : String
  symbol : String
  callback : Callback
  fields : Option (List String) := none
  onlyCompleted : Bool := false
  exchange : Option String := none

namespace Subscription

def key (sub : Subscription) : String :=
  streamKey sub.provider sub.dataSchema sub.symbol sub.exchange

def handle (sub : Subscription) : String := sub.key ++ ":" ++ toString sub.callback.id

end Subscription

structure HandleInfo where
  key : String
  callback : Callback
  fields : Option (Finset String)
  onlyCompleted : Bool

/-- The `MarketFeeder`, with the listeners that run: those that were started and not stopped. -/
structure MarketFeeder where
  lsn : Dict String Listener := ∅
  refs : Dict String Nat := ∅
  subs : Dict String (Finset Nat) := ∅
  handles : Dict String HandleInfo := ∅
  running : List Nat := []
  nextListener : Nat := 0

namespace MarketFeeder

def refCount (feeder : MarketFeeder) (key : String) : Nat := (feeder.refs.lookup key).getD 0

def subsOf (feeder : MarketFeeder) (key : String) : Finset Nat := (feeder.subs.lookup key).getD ∅

def stop (feeder : MarketFeeder) (lsn : Listener) : MarketFeeder :=
  { feeder with running := feeder.running.filter (· ≠ lsn.id) }

def newListener (feeder : MarketFeeder) (sub : Subscription) (spec : SchemaSpec) (bufLen : Nat) :
    Listener :=
  { SymListener.init spec bufLen with
    id := feeder.nextListener, provider := sub.provider, dataSchema := sub.dataSchema
    symbol := sub.symbol, view := listenerView spec sub.symbol sub.exchange }

def ensureListener (feeder : MarketFeeder) (sub : Subscription) (creation : Creation) :
    Except String MarketFeeder :=
  if sub.key ∈ feeder.lsn then .ok feeder
  else
    match schemas sub.provider sub.dataSchema, creation with
    | none, _ => .error ("Unknown provider/schema: " ++ sub.provider ++ "/" ++ sub.dataSchema)
    | some _, .raised text => .error text
    | some spec, .started bufLen =>
        .ok { feeder with
          lsn := feeder.lsn.set sub.key (feeder.newListener sub spec bufLen)
          subs := feeder.subs.set sub.key (feeder.subsOf sub.key)
          running := feeder.running ++ [feeder.nextListener]
          nextListener := feeder.nextListener + 1 }

def destroyListenerIfUnused (feeder : MarketFeeder) (key : String) : MarketFeeder :=
  if 0 < feeder.refCount key then feeder
  else
    let stopped := match feeder.lsn.lookup key with
      | some lsn => feeder.stop lsn
      | none => feeder
    { stopped with lsn := feeder.lsn.erase key, subs := feeder.subs.erase key }

def info (sub : Subscription) : HandleInfo :=
  { key := sub.key, callback := sub.callback, onlyCompleted := sub.onlyCompleted
    fields := match sub.fields with
      | none | some [] => none
      | some fields => some fields.toFinset }

def countRef (feeder : MarketFeeder) (key : String) : MarketFeeder :=
  { feeder with refs := feeder.refs.set key (feeder.refCount key + 1) }

def register (feeder : MarketFeeder) (sub : Subscription) : MarketFeeder :=
  { feeder with
    handles := feeder.handles.set sub.handle (info sub)
    subs := feeder.subs.set sub.key (insert sub.callback.target (feeder.subsOf sub.key)) }

def subscribe (feeder : MarketFeeder) (sub : Subscription) (creation : Creation) :
    Except String String × MarketFeeder :=
  let counted := feeder.countRef sub.key
  match counted.ensureListener sub creation with
  | .error text => (.error text, counted)
  | .ok listening => (.ok sub.handle, listening.register sub)

def dropRef (feeder : MarketFeeder) (handle : String) (info : HandleInfo) : MarketFeeder :=
  { feeder with
    handles := feeder.handles.erase handle
    subs := match feeder.subs.lookup info.key with
      | some callbacks => feeder.subs.set info.key (callbacks.erase info.callback.target)
      | none => feeder.subs
    refs := feeder.refs.set info.key (max 0 (feeder.refCount info.key - 1)) }

def unsubscribe (feeder : MarketFeeder) (handle : String) : MarketFeeder :=
  match feeder.handles.lookup handle with
  | none => feeder
  | some info => (feeder.dropRef handle info).destroyListenerIfUnused info.key

def unsubscribeAll (feeder : MarketFeeder) : Nat × MarketFeeder :=
  let handles := feeder.handles.keys
  let released := handles.foldl unsubscribe feeder
  let stopped := released.lsn.entries.foldl (fun feeder lsn => feeder.stop lsn.2) released
  (handles.length, { stopped with lsn := ∅, refs := ∅, subs := ∅ })

end MarketFeeder

theorem streamKey_registered {provider provider' dataSchema dataSchema' symbol symbol' : String}
    {exchange exchange' : Option String} {spec spec' : SchemaSpec}
    (registered : schemas provider dataSchema = some spec)
    (registered' : schemas provider' dataSchema' = some spec')
    (same : streamKey provider dataSchema symbol exchange =
      streamKey provider' dataSchema' symbol' exchange') :
    provider = provider' ∧ dataSchema = dataSchema' := by
  have plain : ∀ item ∈ schemaItems, '|' ∉ item.1.toList ∧ '|' ∉ item.2.1.toList := by decide
  obtain ⟨absent, schemaAbsent⟩ := plain _ (mem_schemaItems registered)
  obtain ⟨absent', schemaAbsent'⟩ := plain _ (mem_schemaItems registered')
  have texts := congrArg String.toList same
  have bar : "|".toList = ['|'] := rfl
  simp only [streamKey, String.toList_append, bar, List.append_assoc, List.cons_append,
    List.nil_append] at texts
  obtain ⟨providers, rest⟩ := separated_left absent absent' texts
  obtain ⟨dataSchemas, _⟩ := separated_left schemaAbsent schemaAbsent' rest
  exact ⟨String.toList_inj.mp providers, String.toList_inj.mp dataSchemas⟩

end DeepFeeder
