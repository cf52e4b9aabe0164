import DeepFeeder.Providers.SharedBatch

set_option autoImplicit false

namespace DeepFeeder

def FlushPc.isIdle : FlushPc → Bool
  | .idle => true
  | _ => false

theorem FlushPc.eq_idle {pc : FlushPc} (idle : pc.isIdle = true) : pc = .idle := by
  cases pc with
  | idle => rfl
  | publishing | persisted | clearing => cases idle

/-- Producers at work with, as history for each: the ticks it has appended to its batch, the rows of
its successful publishes one behind another, and how many of its publishes have raised. -/
structure FlushLedger where
  system : WsSystem
  accepted : Nat → List Tick
  sent : Nat → List Tick
  failures : Nat → Nat

namespace FlushLedger

open WsSystem Transition

def start (eventStore : DuckDbEventStore) (maxEnvelopes : Int) (producers : Nat → WsProducer) :
    FlushLedger :=
  { system := .start eventStore maxEnvelopes producers, accepted := fun _ => []
    sent := fun _ => [], failures := fun _ => 0 }

def tickOf [Uppercase] (py : Python) (s : WsSystem) (i : Nat) : Action → List Tick
  | .binanceMessage j message _ => if j = i then (binanceTick message).toList else []
  | .qsdUpdate j it arrivalNs _ =>
      if j = i then
        match (s.producers i).feed with
        | .binance => []
        | .tradingview quotes => ((quotes.handleItem py it arrivalNs).bind Prod.fst).toList
      else []
  | _ => []

def atCall (s : WsSystem) (i : Nat) : List Tick :=
  match (s.producers i).pc with
  | .publishing _ atCall _ => atCall
  | _ => []

def sentBy (s : WsSystem) (i : Nat) : Action → List Tick
  | .append j _ true => if j = i then atCall s i else []
  | _ => []

def failuresBy (i : Nat) : Action → Nat
  | .append j _ false => if j = i then 1 else 0
  | _ => 0

def step [Uppercase] (py : Python) (l : FlushLedger) (a : Action) : Option FlushLedger :=
  (l.system.step py a).map fun system =>
    { system
      accepted := fun i => l.accepted i ++ tickOf py l.system i a
      sent := fun i => l.sent i ++ sentBy l.system i a
      failures := fun i => l.failures i + failuresBy i a }

def unsent (s : WsSystem) (i : Nat) : List Tick :=
  match (s.producers i).pc with
  | .idle | .publishing .. => s.heap (.batch i)
  | .persisted .. | .clearing .. => []

/-- Between two messages: what was published, then the batch, are the accepted ticks. -/
def Conserved (l : FlushLedger) (i : Nat) : Prop :=
  l.sent i ++ l.system.heap (.batch i) = l.accepted i

def Idle (l : FlushLedger) (i : Nat) : Prop := (l.system.producers i).pc.isIdle = true

structure Balanced (l : FlushLedger) (i : Nat) : Prop where
  kept : l.failures i = 0 → l.sent i ++ unsent l.system i = l.accepted i
  lost : l.failures i ≠ 0 → (l.sent i ++ unsent l.system i).length < (l.accepted i).length
  called : ∀ rows atCall now, (l.system.producers i).pc = .publishing rows atCall now →
    atCall = l.system.heap (.batch i) ∧ atCall ≠ []

def Same (s s' : WsSystem) (i : Nat) : Prop :=
  (s'.producers i).pc = (s.producers i).pc ∧ s'.heap (.batch i) = s.heap (.batch i)

variable {py : Python} {s s' : WsSystem} {i j : Nat}

theorem Same.trans {t : WsSystem} (first : Same s s' i) (second : Same s' t i) : Same s t i :=
  ⟨second.1.trans first.1, second.2.trans first.2⟩

theorem setProducer_self (s : WsSystem) (i : Nat) (producer : WsProducer) :
    (s.setProducer i producer).producers i = producer := by simp [WsSystem.setProducer]

theorem setProducer_other (other : j ≠ i) (s : WsSystem) (producer : WsProducer) :
    (s.setProducer j producer).producers i = s.producers i := by
  simp [WsSystem.setProducer, other.symm]

theorem Same.setProducer (other : j ≠ i) (producer : WsProducer) :
    Same s (s.setProducer j producer) i :=
  ⟨congrArg WsProducer.pc (setProducer_other other s producer), rfl⟩

theorem Same.write {ref : ListRef} (other : .batch i ≠ ref) (rows : List Tick) :
    Same s (s.write ref rows) i :=
  ⟨rfl, write_other s other rows⟩

theorem Same.flushIfNeeded (other : j ≠ i) (force : Bool) (now : Rat) :
    Same s (s.flushIfNeeded j force now) i := by
  unfold WsSystem.flushIfNeeded
  simp only
  split
  next => exact ⟨rfl, rfl⟩
  next =>
      split
      next =>
          unfold WsSystem.publishing
          cases (s.producers j).feed with
          | binance =>
              have copied : Same s (s.write (.copy s.copies) (s.heap (.batch j))) i :=
                .write (fun equal => by cases equal) _
              exact copied.trans ⟨(Same.setProducer (s := s) other _).1, rfl⟩
          | tradingview quotes => exact .setProducer other _
      next => exact ⟨rfl, rfl⟩

theorem Same.accept (other : j ≠ i) (tick : Tick) (now : Rat) :
    Same s (s.accept j tick now) i :=
  have written : Same s (s.write (.batch j) (s.heap (.batch j) ++ [tick])) i :=
    .write (fun equal => other (ListRef.batch.inj equal).symm) _
  written.trans (.flushIfNeeded other false now)

theorem flushIfNeeded_own (idle : (s.producers i).pc = .idle) (force : Bool) (now : Rat) :
    (s.flushIfNeeded i force now).heap (.batch i) = s.heap (.batch i) ∧
      (((s.flushIfNeeded i force now).producers i).pc = .idle ∨
        ∃ rows, ((s.flushIfNeeded i force now).producers i).pc =
          .publishing rows (s.heap (.batch i)) now ∧ s.heap (.batch i) ≠ []) := by
  unfold WsSystem.flushIfNeeded
  simp only
  split
  next => exact ⟨rfl, .inl idle⟩
  next filled =>
      split
      next =>
          have some_ : s.heap (.batch i) ≠ [] := fun empty => filled (by rw [empty]; rfl)
          unfold WsSystem.publishing
          simp only
          split
          next =>
              have apart : ListRef.batch i ≠ .copy s.copies := fun equal => by cases equal
              refine ⟨write_other s apart (s.heap (.batch i)), .inr ⟨.copy s.copies, ?_, some_⟩⟩
              rw [setPc, setProducer_self]
          next =>
              refine ⟨rfl, .inr ⟨.batch i, ?_, some_⟩⟩
              rw [setPc, setProducer_self]
      next => exact ⟨rfl, .inl idle⟩

theorem unsent_of_idle (idle : (s.producers i).pc = .idle) :
    unsent s i = s.heap (.batch i) := by
  unfold unsent
  rw [idle]

theorem past_publish {now : Rat} (past : (∃ env, (s.producers i).pc = .persisted env now) ∨
    (s.producers i).pc = .clearing now) :
    unsent s i = [] ∧ ∀ rows atCall now', (s.producers i).pc ≠ .publishing rows atCall now' := by
  unfold unsent
  rcases past with ⟨env, past⟩ | past
  next =>
      rw [past]
      exact ⟨rfl, fun _ _ _ publishing => by cases publishing⟩
  next =>
      rw [past]
      exact ⟨rfl, fun _ _ _ publishing => by cases publishing⟩

theorem Same.unsent (same : Same s s' i) :
    FlushLedger.unsent s' i = FlushLedger.unsent s i := by
  unfold FlushLedger.unsent
  rw [same.1, same.2]

theorem Same.balanced {l l' : FlushLedger} (same : Same l.system l'.system i)
    (accepted : l'.accepted i = l.accepted i) (sent : l'.sent i = l.sent i)
    (failures : l'.failures i = l.failures i) (balanced : l.Balanced i) : l'.Balanced i := by
  constructor
  next => rw [accepted, sent, failures, same.unsent]; exact balanced.kept
  next => rw [accepted, sent, failures, same.unsent]; exact balanced.lost
  next => rw [same.1, same.2]; exact balanced.called

theorem Balanced.flushed {l l' : FlushLedger} (balanced : l.Balanced i)
    (idle : (l.system.producers i).pc = .idle) (middle : WsSystem) (force : Bool) (now : Rat)
    (ticks : List Tick) (middleIdle : (middle.producers i).pc = .idle)
    (batch : middle.heap (.batch i) = l.system.heap (.batch i) ++ ticks)
    (flushed : l'.system = middle.flushIfNeeded i force now)
    (accepted : l'.accepted i = l.accepted i ++ ticks) (sent : l'.sent i = l.sent i)
    (failures : l'.failures i = l.failures i) : l'.Balanced i := by
  obtain ⟨held, pc⟩ := flushIfNeeded_own middleIdle force now
  have unsentNow : unsent l'.system i = unsent l.system i ++ ticks := by
    rw [unsent_of_idle idle, ← batch, ← held, flushed]
    unfold unsent
    rcases pc with pc | ⟨rows, pc, _⟩
    next => rw [pc]
    next => rw [pc]
  constructor
  next =>
      intro none
      rw [unsentNow, sent, accepted, ← List.append_assoc, balanced.kept (failures ▸ none)]
  next =>
      intro some_
      have shorter := balanced.lost (failures ▸ some_)
      rw [unsentNow, sent, accepted, ← List.append_assoc, List.length_append,
        @List.length_append _ _ ticks]
      exact Nat.add_lt_add_right shorter _
  next =>
      intro rows atCall now' publishing
      rw [flushed] at publishing ⊢
      rcases pc with pc | ⟨rows', pc, some_⟩
      next =>
          rw [pc] at publishing
          cases publishing
      next =>
          rw [pc] at publishing
          cases publishing
          exact ⟨held.symm, some_⟩

theorem Balanced.accepting {l l' : FlushLedger} (balanced : l.Balanced i)
    (idle : (l.system.producers i).pc = .idle) {middle : WsSystem} (same : Same l.system middle i)
    {tick : Tick} {now : Rat} (system : l'.system = middle.accept i tick now)
    (accepted : l'.accepted i = l.accepted i ++ [tick]) (sent : l'.sent i = l.sent i)
    (failures : l'.failures i = l.failures i) : l'.Balanced i := by
  refine balanced.flushed idle (middle.write (.batch i) (middle.heap (.batch i) ++ [tick])) false now
    [tick] (same.1.trans idle) ?_ system accepted sent failures
  rw [write_same, same.2]

theorem Balanced.appended {l : FlushLedger} (balanced : l.Balanced i) {rows : ListRef}
    {atCall : List Tick} {now : Rat}
    (pc : (l.system.producers i).pc = .publishing rows atCall now) {l' : FlushLedger}
    (later : unsent l'.system i = []) (ended : ∀ rows atCall now,
      (l'.system.producers i).pc ≠ .publishing rows atCall now) (stored : Bool)
    (accepted : l'.accepted i = l.accepted i)
    (sent : l'.sent i = l.sent i ++ if stored then atCall else [])
    (failures : l'.failures i = l.failures i + if stored then 0 else 1) : l'.Balanced i := by
  obtain ⟨whole, some_⟩ := balanced.called rows atCall now pc
  have before : unsent l.system i = atCall := by
    unfold unsent
    rw [pc, whole]
  have kept := balanced.kept
  have lost := balanced.lost
  rw [before] at kept lost
  constructor
  next =>
      intro none
      cases stored with
      | true =>
          rw [later, sent, accepted, List.append_nil]
          exact kept (by simpa using failures.symm.trans none)
      | false => simp [failures] at none
  next =>
      intro failed
      cases stored with
      | true =>
          rw [later, sent, accepted, List.append_nil]
          exact lost (by simpa [failures] using failed)
      | false =>
          have positive : 0 < atCall.length := List.length_pos_of_ne_nil some_
          have shorter : (l.sent i ++ atCall).length ≤ (l.accepted i).length := by
            by_cases first : l.failures i = 0
            next => rw [kept first]
            next => exact Nat.le_of_lt (lost first)
          rw [List.length_append] at shorter
          simp only [later, sent, accepted, List.append_nil, Bool.false_eq_true, if_false]
          omega
  next => exact fun rows atCall now publishing => absurd publishing (ended rows atCall now)

theorem Balanced.passed {l l' : FlushLedger} (balanced : l.Balanced i)
    (unsent_ : unsent l'.system i = unsent l.system i)
    (ended : ∀ rows atCall now, (l'.system.producers i).pc ≠ .publishing rows atCall now)
    (accepted : l'.accepted i = l.accepted i) (sent : l'.sent i = l.sent i)
    (failures : l'.failures i = l.failures i) : l'.Balanced i := by
  constructor
  next => rw [accepted, sent, failures, unsent_]; exact balanced.kept
  next => rw [accepted, sent, failures, unsent_]; exact balanced.lost
  next => exact fun rows atCall now publishing => absurd publishing (ended rows atCall now)

theorem step_eq_some [Uppercase] {l l' : FlushLedger} {a : Action} (taken : l.step py a = some l') :
    ∃ system, l.system.step py a = some system ∧
      l' = { system
             accepted := fun i => l.accepted i ++ tickOf py l.system i a
             sent := fun i => l.sent i ++ sentBy l.system i a
             failures := fun i => l.failures i + failuresBy i a } := by
  obtain ⟨system, done, rfl⟩ := Option.map_eq_some_iff.mp taken
  exact ⟨system, done, rfl⟩

def actor : Action → Option Nat
  | .binanceMessage i .. | .qsdUpdate i .. | .forceFlush i _ | .append i .. | .insert i
  | .clear i => some i
  | .ackDh _ | .ackJournal _ | .setDhCursor _ | .markCommitted .. => none

theorem same_of_step [Uppercase] {a : Action} (other : actor a ≠ some i)
    (taken : s.step py a = some s') :
    Same s s' i := by
  cases a with
  | binanceMessage j message now =>
      have apart : j ≠ i := fun equal => other (congrArg some equal)
      simp only [WsSystem.step] at taken
      split at taken
      next =>
          split at taken
          next => cases taken; exact ⟨rfl, rfl⟩
          next => cases taken; exact .accept apart _ _
      next => cases taken
  | qsdUpdate j it arrivalNs now =>
      have apart : j ≠ i := fun equal => other (congrArg some equal)
      simp only [WsSystem.step] at taken
      split at taken
      next =>
          split at taken
          next => cases taken; exact ⟨rfl, rfl⟩
          next =>
              split at taken
              next => cases taken; exact .setProducer apart _
              next =>
                  cases taken
                  exact (Same.setProducer apart _).trans (.accept apart _ _)
      next => cases taken
  | forceFlush j now =>
      have apart : j ≠ i := fun equal => other (congrArg some equal)
      simp only [WsSystem.step] at taken
      split at taken
      next => cases taken; exact .flushIfNeeded apart true now
      next => cases taken
  | append j producedNs stored =>
      have apart : j ≠ i := fun equal => other (congrArg some equal)
      simp only [WsSystem.step] at taken
      split at taken
      next =>
          split at taken
          next =>
              obtain ⟨_, _, rfl⟩ := Option.map_eq_some_iff.mp taken
              exact ⟨congrArg WsProducer.pc (setProducer_other apart _ _), rfl⟩
          next => cases taken; exact .setProducer apart _
      next => cases taken
  | insert j =>
      have apart : j ≠ i := fun equal => other (congrArg some equal)
      simp only [WsSystem.step] at taken
      split at taken
      next =>
          cases taken
          exact ⟨congrArg WsProducer.pc (setProducer_other apart _ _), rfl⟩
      next => cases taken
  | clear j =>
      have apart : j ≠ i := fun equal => other (congrArg some equal)
      simp only [WsSystem.step] at taken
      split at taken
      next =>
          cases taken
          exact (Same.write (fun equal => apart (ListRef.batch.inj equal).symm) []).trans
            (.setProducer apart _)
      next => cases taken
  | ackDh | ackJournal | setDhCursor | markCommitted =>
      cases taken
      exact ⟨rfl, rfl⟩

theorem entries_of_other [Uppercase] {a : Action} (other : actor a ≠ some i) :
    tickOf py s i a = [] ∧ sentBy s i a = [] ∧ failuresBy i a = 0 := by
  cases a with
  | binanceMessage j | qsdUpdate j =>
      have apart : j ≠ i := fun equal => other (congrArg some equal)
      exact ⟨if_neg apart, rfl, rfl⟩
  | append j producedNs stored =>
      have apart : j ≠ i := fun equal => other (congrArg some equal)
      cases stored with
      | true => exact ⟨rfl, if_neg apart, rfl⟩
      | false => exact ⟨rfl, rfl, if_neg apart⟩
  | forceFlush | insert | clear | ackDh | ackJournal | setDhCursor | markCommitted =>
      exact ⟨rfl, rfl, rfl⟩

theorem setPc_pc (s : WsSystem) (i : Nat) (pc : FlushPc) :
    ((s.setPc i pc).producers i).pc = pc := by rw [setPc, setProducer_self]

theorem balanced_of_own [Uppercase] {l l' : FlushLedger} {a : Action} (own : actor a = some i)
    (balanced : l.Balanced i) (taken : l.step py a = some l') : l'.Balanced i := by
  obtain ⟨system, done, rfl⟩ := step_eq_some taken
  cases a with
  | binanceMessage j message now =>
      cases own
      simp only [WsSystem.step] at done
      split at done
      next idle feed =>
          cases made : binanceTick message with
          | none =>
              rw [made] at done
              cases done
              exact Same.balanced (l := l) ⟨rfl, rfl⟩ (by simp [tickOf, made]) (by simp [sentBy])
                rfl balanced
          | some tick =>
              rw [made] at done
              cases done
              exact balanced.accepting idle ⟨rfl, rfl⟩ rfl (by simp [tickOf, made])
                (by simp [sentBy]) rfl
      next => cases done
  | qsdUpdate j it arrivalNs now =>
      cases own
      simp only [WsSystem.step] at done
      split at done
      next quotes idle feed =>
          split at done
          next unhandled =>
              cases done
              exact Same.balanced (l := l) ⟨rfl, rfl⟩ (by simp [tickOf, feed, unhandled])
                (by simp [sentBy]) rfl balanced
          next tick quotes' handled =>
              have kept : ((l.system.setProducer i { l.system.producers i with
                  feed := .tradingview quotes' }).producers i).pc = (l.system.producers i).pc := by
                rw [setProducer_self]
              cases tick with
              | none =>
                  cases done
                  exact Same.balanced (l := l) ⟨kept, rfl⟩ (by simp [tickOf, feed, handled])
                    (by simp [sentBy]) rfl balanced
              | some tick =>
                  cases done
                  exact balanced.accepting idle ⟨kept, rfl⟩ rfl
                    (by simp [tickOf, feed, handled]) (by simp [sentBy]) rfl
      next => cases done
  | forceFlush j now =>
      cases own
      simp only [WsSystem.step] at done
      split at done
      next idle =>
          cases done
          exact balanced.flushed idle l.system true now [] idle (by simp) rfl (by simp [tickOf])
            (by simp [sentBy]) rfl
      next => cases done
  | append j producedNs stored =>
      cases own
      simp only [WsSystem.step] at done
      split at done
      next rows called now pc =>
          have past : (∃ env, (system.producers i).pc = .persisted env now) ∨
              (system.producers i).pc = .clearing now := by
            split at done
            next =>
              obtain ⟨_, _, rfl⟩ := Option.map_eq_some_iff.mp done
              exact .inl ⟨_, setPc_pc _ i _⟩
            next => cases done; exact .inr (setPc_pc _ i _)
          obtain ⟨none, ended⟩ := past_publish past
          refine balanced.appended pc none ended stored (by simp [tickOf]) ?_ ?_
          next => cases stored <;> simp [sentBy, atCall, pc]
          next => cases stored <;> simp [failuresBy]
      next => cases done
  | insert j =>
      cases own
      simp only [WsSystem.step] at done
      split at done
      next env now pc =>
          cases done
          obtain ⟨before, _⟩ := past_publish (.inl ⟨env, pc⟩)
          obtain ⟨none, ended⟩ := past_publish (.inr
            (setPc_pc { l.system with bus := l.system.bus.insert env } i (.clearing now)))
          exact balanced.passed (none.trans before.symm) ended (by simp [tickOf])
            (by simp [sentBy]) rfl
      next => cases done
  | clear j =>
      cases own
      simp only [WsSystem.step] at done
      split at done
      next now pc =>
          cases done
          have idle : ((l.system.clear i now).producers i).pc = .idle := by
            rw [WsSystem.clear, setProducer_self]
          refine balanced.passed ?_ ?_ (by simp [tickOf]) (by simp [sentBy]) rfl
          next =>
              obtain ⟨before, _⟩ := past_publish (.inr pc)
              rw [unsent_of_idle idle, before]
              exact write_same l.system (.batch i) []
          next =>
              intro rows called now' publishing
              cases idle.symm.trans publishing
      next => cases done
  | ackDh | ackJournal | setDhCursor | markCommitted => cases own

theorem balanced_of_step [Uppercase] {l l' : FlushLedger} {a : Action} (balanced : l.Balanced i)
    (taken : l.step py a = some l') : l'.Balanced i := by
  by_cases own : actor a = some i
  next => exact balanced_of_own own balanced taken
  next =>
      obtain ⟨system, done, rfl⟩ := step_eq_some taken
      obtain ⟨noTick, nothing, noFailure⟩ := @entries_of_other py l.system _ _ _ own
      refine Same.balanced (l := l) (same_of_step own done) ?_ ?_ ?_ balanced
      next => simp [noTick]
      next => simp [nothing]
      next => simp [noFailure]

theorem balanced_of_reaches [Uppercase] {eventStore : DuckDbEventStore} {maxEnvelopes : Int}
    {producers : Nat → WsProducer} {l : FlushLedger}
    (reached : Reaches (step py) anyStep (start eventStore maxEnvelopes producers) l) (i : Nat) :
    l.Balanced i := by
  refine reached.invariant (Balanced · i) ?_ fun _ _ _ inv _ taken => balanced_of_step inv taken
  exact { kept := fun _ => rfl, lost := fun failed => absurd rfl failed,
          called := fun _ _ _ publishing => by cases publishing }

-- Whatever made it flush, a producer has lost no tick exactly if none of its publishes has raised.
theorem conserved_iff [Uppercase] (py : Python) (eventStore : DuckDbEventStore) (maxEnvelopes : Int)
    (producers : Nat → WsProducer) {l : FlushLedger}
    (reached : Reaches (step py) anyStep (start eventStore maxEnvelopes producers) l) (i : Nat)
    (idle : l.Idle i) : l.Conserved i ↔ l.failures i = 0 := by
  have balanced := balanced_of_reaches reached i
  have unsent_ := unsent_of_idle (FlushPc.eq_idle idle)
  constructor
  next =>
      intro conserved
      by_contra failed
      have shorter := balanced.lost failed
      rw [unsent_, conserved] at shorter
      exact Nat.lt_irrefl _ shorter
  next =>
      intro none
      rw [Conserved, ← unsent_]
      exact balanced.kept none

attribute [local instance] asciiUppercase

-- A batch of one trade is published.
theorem conserved_iff_flushes :
    ∃ l, Reaches (step TvQuotes.exactFloats) anyStep
        (start (.connect .new {}) 100000 fun _ => binanceOf 1) l ∧ l.Idle 0 ∧
      (l.accepted 0).length = 1 ∧ (l.Conserved 0 ↔ l.failures 0 = 0) := by
  obtain ⟨l, reached, checked⟩ := reaches_of_check (step TvQuotes.exactFloats)
    (start (.connect .new {}) 100000 fun _ => binanceOf 1)
    [.binanceMessage 0 (tradeMessage 1) 0, .append 0 5 true, .insert 0, .clear 0]
    (fun l => (l.system.producers 0).pc.isIdle ∧ (l.accepted 0).length = 1) (by decide +kernel)
  obtain ⟨idle, one⟩ := of_decide_eq_true checked
  exact ⟨l, reached, idle, one, conserved_iff TvQuotes.exactFloats (.connect .new {}) 100000
    (fun _ => binanceOf 1) reached 0 idle⟩

-- A publish that raises once: the trade of its batch is nowhere.
theorem trade_lost :
    ∃ l, Reaches (step TvQuotes.exactFloats) anyStep
        (start (.connect .new {}) 100000 fun _ => binanceOf 2) l ∧ l.Idle 0 ∧ ¬l.Conserved 0 := by
  obtain ⟨l, reached, checked⟩ := reaches_of_check (step TvQuotes.exactFloats)
    (start (.connect .new {}) 100000 fun _ => binanceOf 2)
    [.binanceMessage 0 (tradeMessage 1) 0, .binanceMessage 0 (tradeMessage 2) 0, .append 0 5 false,
      .clear 0, .binanceMessage 0 (tradeMessage 3) (1 / 10)]
    (fun l => (l.system.producers 0).pc.isIdle ∧
      (l.sent 0 ++ l.system.heap (.batch 0)).length ≠ (l.accepted 0).length) (by decide +kernel)
  obtain ⟨idle, fewer⟩ := of_decide_eq_true checked
  exact ⟨l, reached, idle, fun conserved => fewer (congrArg List.length conserved)⟩

end FlushLedger

end DeepFeeder
