import DeepFeeder.Fanout.RefCounts

set_option autoImplicit false

namespace DeepFeeder.MarketFeeder

/-- `attach_gapless` as far as the subscription goes: the handle, or the text of an exception, and the
feeder after the call. -/
def attachGapless [Uppercase] (feeder : MarketFeeder) (sub : Subscription) (creation : Creation)
    (snapshotRange : Except String (List Row)) : Except String String × MarketFeeder :=
  match schemas sub.provider sub.dataSchema with
  | none => (.error ("Unknown provider/schema: " ++ sub.provider ++ "/" ++ sub.dataSchema), feeder)
  | some _ =>
      match feeder.subscribe sub creation, snapshotRange with
      | (.error text, left), _ => (.error text, left)
      -- The handle is known only here.
      | (.ok _, left), .error text => (.error text, left)
      | (.ok handle, left), .ok _ => (.ok handle, left)

inductive Call where
  | subscribe (sub : Subscription) (creation : Creation)
  | attachGapless (sub : Subscription) (creation : Creation)
      (snapshotRange : Except String (List Row))

namespace Call

def run [Uppercase] (feeder : MarketFeeder) : Call → Except String String × MarketFeeder
  | .subscribe sub creation => feeder.subscribe sub creation
  | .attachGapless sub creation snapshotRange =>
      MarketFeeder.attachGapless feeder sub creation snapshotRange

def sub : Call → Subscription
  | .subscribe sub _ | .attachGapless sub _ _ => sub

def refusedAtOnce : Call → Bool
  | .subscribe _ _ => false
  | .attachGapless sub _ _ => (schemas sub.provider sub.dataSchema).isNone

end Call

structure SameTables (before after : MarketFeeder) : Prop where
  handles : after.handles = before.handles
  refs : after.refs = before.refs
  lsn : after.lsn = before.lsn
  subs : after.subs = before.subs

-- A subscription to the key and its removal stop the key's listener.
def StopsAgain [Uppercase] (feeder : MarketFeeder) (key : String) : Prop :=
  ∀ sub creation handle next, sub.key = key → feeder.subscribe sub creation = (.ok handle, next) →
    key ∉ (next.unsubscribe handle).lsn

def LeavesNoTrace [Uppercase] (before after : MarketFeeder) (key : String) : Prop :=
  SameTables before after ∧ (before.StopsAgain key → after.StopsAgain key)

variable {feeder after next : MarketFeeder} {sub : Subscription} {creation : Creation}
  {handle text : String}

theorem subscribe_refCount [Uppercase] (feeder : MarketFeeder) (sub : Subscription)
    (creation : Creation) :
    (feeder.subscribe sub creation).2.refCount sub.key = feeder.refCount sub.key + 1 := by
  have counted (next : MarketFeeder)
      (refs : next.refs = feeder.refs.set sub.key (feeder.refCount sub.key + 1)) :
      next.refCount sub.key = feeder.refCount sub.key + 1 := by
    rw [refCount_of_set refs, if_pos rfl]
  cases result : feeder.subscribe sub creation with
  | mk outcome next =>
      cases outcome with
      | ok handle => exact counted next (subscribe_ok result).2.2.1
      | error text => exact counted next (subscribe_error result ▸ rfl)

theorem raised_refCount [Uppercase] {call : Call} (raised : call.run feeder = (.error text, after))
    (late : call.refusedAtOnce = false) :
    after.refCount call.sub.key = feeder.refCount call.sub.key + 1 := by
  cases call with
  | subscribe sub creation =>
      have counted := subscribe_refCount feeder sub creation
      change feeder.subscribe sub creation = _ at raised
      rwa [raised] at counted
  | attachGapless sub creation snapshotRange =>
      have counted := subscribe_refCount feeder sub creation
      change attachGapless feeder sub creation snapshotRange = _ at raised
      unfold attachGapless at raised
      split at raised
      next unknown => simp [Call.refusedAtOnce, unknown] at late
      next =>
        split at raised
        next subscribed => cases raised; rwa [subscribed] at counted
        next subscribed => cases raised; rwa [subscribed] at counted
        next => cases raised

theorem refused_unchanged [Uppercase] {call : Call} (raised : call.run feeder = (.error text, after))
    (refused : call.refusedAtOnce = true) : after = feeder := by
  cases call with
  | subscribe sub creation => cases refused
  | attachGapless sub creation snapshotRange =>
      have unknown := Option.isNone_iff_eq_none.mp refused
      change attachGapless feeder sub creation snapshotRange = _ at raised
      unfold attachGapless at raised
      rw [unknown] at raised
      cases raised
      rfl

-- A reference that no handle stands for keeps the listener for good.
theorem leaked_reference_keeps_listener [Uppercase] (leaked : 0 < feeder.refCount sub.key)
    (ok : feeder.subscribe sub creation = (.ok handle, next)) :
    sub.key ∈ (next.unsubscribe handle).lsn := by
  have counted := subscribe_refCount feeder sub creation
  rw [ok] at counted
  obtain ⟨rfl, handles, _, listened⟩ := subscribe_ok ok
  have known : next.handles.lookup sub.handle = some (info sub) := by
    rw [handles, Dict.lookup_set, if_pos rfl]
  have listening : sub.key ∈ next.lsn := by
    rcases listened with ⟨inside, lsn, _⟩ | ⟨_, _, _, _, lsn, _⟩
    · rw [lsn]
      exact inside
    · rw [lsn, Dict.mem_set]
      exact .inl rfl
  obtain ⟨_, _, _, ⟨_, lsn, _⟩ | ⟨unused, _⟩⟩ := unsubscribe_found known
  · rw [lsn]
    exact listening
  · rw [info_key, counted] at unused
    omega

-- A call that raises leaves the feeder as it was, and its keys free to stop, only when it is
-- `attach_gapless` for an unknown schema; after any other the key's listener can not be stopped by a
-- subscription and its removal.
theorem raised_leaves_no_trace_iff [Uppercase] {call : Call}
    (raised : call.run feeder = (.error text, after)) :
    (LeavesNoTrace feeder after call.sub.key ↔ call.refusedAtOnce = true) ∧
      (call.refusedAtOnce = false → ∀ sub creation handle next, sub.key = call.sub.key →
        after.subscribe sub creation = (.ok handle, next) →
          sub.key ∈ (next.unsubscribe handle).lsn) := by
  refine ⟨⟨?_, ?_⟩, ?_⟩
  · rintro ⟨same, _⟩
    by_contra late
    have counted := raised_refCount raised (Bool.not_eq_true _ ▸ late)
    unfold refCount at counted
    rw [same.refs] at counted
    omega
  · intro refused
    rw [refused_unchanged raised refused]
    exact ⟨⟨rfl, rfl, rfl, rfl⟩, id⟩
  · intro late sub creation handle next key ok
    apply leaked_reference_keeps_listener _ ok
    rw [key, raised_refCount raised late]
    omega

attribute [local instance] asciiUppercase

def barSubscription : Subscription :=
  { provider := "tradingview", dataSchema := "ohlcv_1m", symbol := "PETR4", callback := ⟨1, 1⟩
    onlyCompleted := true }

-- The snapshot query fails: the subscription stays, and nobody has its handle.
theorem failed_snapshot_leaves_subscription :
    ∃ after, Call.run {} (.attachGapless barSubscription (.started 256) (.error "query failed")) =
        (.error "query failed", after) ∧
      after.handles.keys = ["tradingview|ohlcv_1m|PETR4:1"] ∧
      after.refCount "tradingview|ohlcv_1m|PETR4" = 1 ∧ after.running = [0] ∧
      ¬ LeavesNoTrace {} after "tradingview|ohlcv_1m|PETR4" := by
  refine ⟨(attachGapless {} barSubscription (.started 256) (.error "query failed")).2,
    rfl, by decide +kernel, by decide +kernel, by decide +kernel, ?_⟩
  rintro ⟨same, _⟩
  have handles := congrArg AList.keys same.handles
  revert handles
  decide +kernel

theorem raised_leaves_no_trace_unknown :
    (LeavesNoTrace {} {} ({ barSubscription with dataSchema := "ohlcv_1h" } : Subscription).key ↔
      Call.refusedAtOnce (.attachGapless { barSubscription with dataSchema := "ohlcv_1h" }
        (.started 256) (.ok [])) = true) := by
  have raised : Call.run {} (.attachGapless { barSubscription with dataSchema := "ohlcv_1h" }
      (.started 256) (.ok [])) = (.error "Unknown provider/schema: tradingview/ohlcv_1h", {}) := rfl
  exact (raised_leaves_no_trace_iff raised).1

end DeepFeeder.MarketFeeder
