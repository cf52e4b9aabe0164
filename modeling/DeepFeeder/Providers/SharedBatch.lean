import DeepFeeder.Shared.Transition
import DeepFeeder.Providers.WsProducers

set_option autoImplicit false

namespace DeepFeeder.WsSystem

open Transition

/-- The ring and the store have the same rows under an id, and a drain gives the rows that were
published. -/
structure Agrees (s : WsSystem) : Prop where
  ring : ∀ env ∈ s.bus.buf, ∀ maxN, ∀ durable ∈ s.eventStore.nextFrom env.batchId maxN,
    durable.batchId = env.batchId → (env.read s.heap).rows = durable.rows
  drained : ∀ maxN, ∀ env ∈ s.drainForDh maxN, ∀ batch ∈ s.published, batch.1 = env.batchId →
    env.rows = batch.2

/-- No list is cleared that an envelope of the ring has, and no batch is stored with a trade with the
id -1. -/
def unshared (s : WsSystem) : Action → Prop
  | .append i _ true => ∀ t ∈ s.heap (.batch i), t.seq ≠ some (-1)
  | .clear i => ∀ env ∈ s.bus.buf, env.rows ≠ .batch i
  | _ => True

instance (s : WsSystem) (a : Action) : Decidable (s.unshared a) :=
  match a with
  | .append i _ true => inferInstanceAs (Decidable (∀ t ∈ s.heap (.batch i), t.seq ≠ some (-1)))
  | .clear i => inferInstanceAs (Decidable (∀ env ∈ s.bus.buf, env.rows ≠ .batch i))
  | .append _ _ false | .binanceMessage .. | .qsdUpdate .. | .forceFlush .. | .insert _
  | .ackDh _ | .ackJournal _ | .setDhCursor _ | .markCommitted .. => isTrue trivial

def columnsOf (s : WsSystem) (i : Nat) : List (String × Kind) :=
  if (s.producers i).feed.isBinance then tradeColumns else quoteColumns

def Own (s : WsSystem) (i : Nat) (rows : ListRef) : Prop :=
  (∃ n < s.copies, rows = .copy n) ∨ rows = .batch i ∧ (s.producers i).feed.isBinance = false

def Held (s : WsSystem) (i : Nat) (env : RingEnvelope) : Prop :=
  s.Own i env.rows ∧ (env.batchId, s.heap env.rows) ∈ s.published

def Clearing (s : WsSystem) (i : Nat) : Prop := ∃ now, (s.producers i).pc = .clearing now

structure Inv (s : WsSystem) : Prop where
  columns : ∀ i, ∀ t ∈ s.heap (.batch i), Typed (s.columnsOf i) t.payload
  calls : ∀ i rows atCall now, (s.producers i).pc = .publishing rows atCall now →
    s.Own i rows ∧ s.heap rows = atCall ∧ atCall = s.heap (.batch i)
  handed : ∀ i env now, (s.producers i).pc = .persisted env now → s.Held i env
  ring : ∀ env ∈ s.bus.buf, ∃ i, s.Held i env ∧ (env.rows = .batch i → s.Clearing i)
  once : ∀ first ∈ s.published, ∀ second ∈ s.published, first.1 = second.1 → first.2 = second.2
  older : ∀ batch ∈ s.published, batch.1 < s.eventStore.con.eventStoreSeq
  durable : ∀ row ∈ s.eventStore.con.eventStore, ∀ batch ∈ s.published, batch.1 = row.batchId →
    arrowToTicks row.payload = batch.2

variable {s s' : WsSystem} {py : Python} {i : Nat} {env : RingEnvelope}

theorem Inv.durable_rows (inv : s.Inv) {durable : Envelope} {nextBatchId : Int} {maxN : Nat}
    (member : durable ∈ s.eventStore.nextFrom nextBatchId maxN) {batch : Int × List Tick}
    (published : batch ∈ s.published) (same : batch.1 = durable.batchId) :
    durable.rows = batch.2 := by
  obtain ⟨row, stored, rfl⟩ := DuckDbEventStore.row_of_nextFrom member
  exact inv.durable row stored batch published same

theorem Inv.agrees (inv : s.Inv) : s.Agrees where
  ring := fun env member maxN durable inStore same => by
    obtain ⟨_, ⟨_, published⟩, _⟩ := inv.ring env member
    exact (inv.durable_rows inStore published same.symm).symm
  drained := fun maxN env member batch published same => by
    unfold drainForDh EventBus.drainForDh EventBus.drain at member
    split at member
    next => exact inv.durable_rows member published same
    next =>
      obtain ⟨shared, inRing, rfl⟩ := List.mem_map.mp
        (List.mem_of_mem_filter (List.mem_of_mem_take member))
      obtain ⟨_, ⟨_, held⟩, _⟩ := inv.ring shared inRing
      exact inv.once _ held batch published same.symm

theorem Own.batch_eq {rows : ListRef} (own : s.Own i rows) {j : Nat} (same : rows = .batch j) :
    i = j ∧ (s.producers j).feed.isBinance = false := by
  subst same
  rcases own with ⟨_, _, isCopy⟩ | ⟨isBatch, feed⟩
  · cases isCopy
  · cases isBatch
    exact ⟨rfl, feed⟩

-- Only the list of a flush that is not over is in the ring.
theorem Inv.unshared_of_not_clearing (inv : s.Inv) (steady : ¬s.Clearing i) :
    ∀ env ∈ s.bus.buf, env.rows ≠ .batch i := by
  intro env member same
  obtain ⟨j, ⟨own, _⟩, clearing⟩ := inv.ring env member
  obtain ⟨rfl, _⟩ := own.batch_eq same
  exact steady (clearing same)

theorem Inv.unshared_of_binance (inv : s.Inv) (binance : (s.producers i).feed.isBinance = true) :
    ∀ env ∈ s.bus.buf, env.rows ≠ .batch i := by
  intro env member same
  obtain ⟨j, ⟨own, _⟩, _⟩ := inv.ring env member
  have feed := (own.batch_eq same).2
  rw [binance] at feed
  cases feed

theorem not_clearing (idle : (s.producers i).pc = .idle) : ¬s.Clearing i := by
  rintro ⟨now, pc⟩
  rw [idle] at pc
  cases pc

theorem inv_setProducer (inv : s.Inv) {producer : WsProducer}
    (feed : producer.feed.isBinance = (s.producers i).feed.isBinance)
    (shared : ∀ env ∈ s.bus.buf, env.rows = .batch i → ∃ now, producer.pc = .clearing now)
    (call : ∀ rows atCall now, producer.pc = .publishing rows atCall now →
      s.Own i rows ∧ s.heap rows = atCall ∧ atCall = s.heap (.batch i))
    (handed : ∀ env now, producer.pc = .persisted env now → s.Held i env) :
    (s.setProducer i producer).Inv := by
  have at_ (j : Nat) : (s.setProducer i producer).producers j =
      if j = i then producer else s.producers j := Function.update_apply ..
  have feeds (j : Nat) : ((s.setProducer i producer).producers j).feed.isBinance =
      (s.producers j).feed.isBinance := by
    rw [at_]
    split
    next own => rw [own, feed]
    next => rfl
  have own {j : Nat} {rows : ListRef} (before : s.Own j rows) :
      (s.setProducer i producer).Own j rows := by
    unfold Own
    rw [feeds]
    exact before
  have held {j : Nat} {env : RingEnvelope} (before : s.Held j env) :
      (s.setProducer i producer).Held j env := ⟨own before.1, before.2⟩
  constructor
  next =>
    intro j
    unfold columnsOf
    rw [feeds]
    exact inv.columns j
  next =>
    intro j rows atCall now pc
    rw [at_] at pc
    split at pc
    next here =>
      subst here
      obtain ⟨before, contents⟩ := call rows atCall now pc
      exact ⟨own before, contents⟩
    next =>
      obtain ⟨before, contents⟩ := inv.calls j rows atCall now pc
      exact ⟨own before, contents⟩
  next =>
    intro j env now pc
    rw [at_] at pc
    split at pc
    next here => exact held (here ▸ handed env now pc)
    next => exact held (inv.handed j env now pc)
  next =>
    intro env member
    obtain ⟨j, before, clearing⟩ := inv.ring env member
    refine ⟨j, held before, fun same => ?_⟩
    unfold Clearing
    rw [at_]
    split
    next here => exact shared env member (here ▸ same)
    next => exact clearing same
  next => exact inv.once
  next => exact inv.older
  next => exact inv.durable

theorem inv_writeBatch (inv : s.Inv) {rows : List Tick}
    (notCalling : ∀ rows atCall now, (s.producers i).pc ≠ .publishing rows atCall now)
    (notHanded : ∀ env now, (s.producers i).pc ≠ .persisted env now)
    (unshared : ∀ env ∈ s.bus.buf, env.rows ≠ .batch i)
    (columns : ∀ t ∈ rows, Typed (s.columnsOf i) t.payload) :
    (s.write (.batch i) rows).Inv := by
  have held {j : Nat} {env : RingEnvelope} (before : s.Held j env) (other : env.rows ≠ .batch i) :
      (s.write (.batch i) rows).Held j env := by
    refine ⟨before.1, ?_⟩
    rw [write_other s other]
    exact before.2
  constructor
  next =>
    intro j t member
    by_cases same : j = i
    · subst same
      rw [write_same] at member
      exact columns t member
    · rw [write_other s (by simpa using same)] at member
      exact inv.columns j t member
  next =>
    intro j ref atCall now pc
    obtain ⟨own, contents, isBatch⟩ := inv.calls j ref atCall now pc
    have different : j ≠ i := by
      rintro rfl
      exact notCalling _ _ _ pc
    have other : ref ≠ .batch i := fun same => different (own.batch_eq same).1
    refine ⟨own, ?_, ?_⟩
    · rw [write_other s other]
      exact contents
    · rw [write_other s (by simpa using different)]
      exact isBatch
  next =>
    intro j env now pc
    have before := inv.handed j env now pc
    apply held before
    intro same
    obtain ⟨rfl, _⟩ := before.1.batch_eq same
    exact notHanded env now pc
  next =>
    intro env member
    obtain ⟨j, before, clearing⟩ := inv.ring env member
    exact ⟨j, held before (unshared env member), clearing⟩
  next => exact inv.once
  next => exact inv.older
  next => exact inv.durable

theorem inv_copy (inv : s.Inv) (rows : List Tick) :
    ({ s.write (.copy s.copies) rows with copies := s.copies + 1 } : WsSystem).Inv := by
  let copied : WsSystem := { s.write (.copy s.copies) rows with copies := s.copies + 1 }
  have batch (j : Nat) : copied.heap (.batch j) = s.heap (.batch j) :=
    write_other s (show ListRef.batch j ≠ .copy s.copies by simp) rows
  have old {j : Nat} {ref : ListRef} (before : s.Own j ref) : copied.heap ref = s.heap ref := by
    apply write_other
    rintro rfl
    rcases before with ⟨n, below, same⟩ | ⟨same, _⟩
    · cases same
      exact Nat.lt_irrefl _ below
    · cases same
  have own {j : Nat} {ref : ListRef} (before : s.Own j ref) : copied.Own j ref := by
    rcases before with ⟨n, below, same⟩ | isBatch
    · exact .inl ⟨n, Nat.lt_succ_of_lt below, same⟩
    · exact .inr isBatch
  have held {j : Nat} {env : RingEnvelope} (before : s.Held j env) : copied.Held j env := by
    refine ⟨own before.1, ?_⟩
    rw [old before.1]
    exact before.2
  constructor
  next =>
    intro j t member
    exact inv.columns j t (batch j ▸ member)
  next =>
    intro j ref atCall now pc
    obtain ⟨before, contents, isBatch⟩ := inv.calls j ref atCall now pc
    exact ⟨own before, (old before).trans contents, isBatch.trans (batch j).symm⟩
  next => exact fun j env now pc => held (inv.handed j env now pc)
  next =>
    intro env member
    obtain ⟨j, before, clearing⟩ := inv.ring env member
    exact ⟨j, held before, clearing⟩
  next => exact inv.once
  next => exact inv.older
  next => exact inv.durable

theorem inv_publishing (inv : s.Inv) (steady : ¬s.Clearing i) (now : Rat) :
    (s.publishing i now).Inv := by
  have alone := inv.unshared_of_not_clearing steady
  unfold publishing
  cases feed : (s.producers i).feed with
  | binance =>
      refine inv_setProducer (inv_copy inv (s.heap (.batch i))) rfl ?_ ?_ ?_
      · exact fun env member same => absurd same (alone env member)
      · rintro rows atCall now' ⟨⟩
        refine ⟨.inl ⟨s.copies, Nat.lt_succ_self _, rfl⟩, write_same .., ?_⟩
        exact (write_other s (show ListRef.batch i ≠ .copy s.copies by simp)
          (s.heap (.batch i))).symm
      · rintro env now' ⟨⟩
  | tradingview quotes =>
      refine inv_setProducer inv rfl ?_ ?_ ?_
      · exact fun env member same => absurd same (alone env member)
      · rintro rows atCall now' ⟨⟩
        exact ⟨.inr ⟨rfl, by rw [feed]; rfl⟩, rfl, rfl⟩
      · rintro env now' ⟨⟩

theorem inv_flushIfNeeded (inv : s.Inv) (steady : ¬s.Clearing i) (force : Bool) (now : Rat) :
    (s.flushIfNeeded i force now).Inv := by
  unfold flushIfNeeded
  simp only
  split
  · exact inv
  · split
    · exact inv_publishing inv steady now
    · exact inv

theorem inv_accept (inv : s.Inv) {tick : Tick} (idle : (s.producers i).pc = .idle)
    (columns : Typed (s.columnsOf i) tick.payload) (now : Rat) :
    (s.accept i tick now).Inv := by
  have steady := not_clearing idle
  refine inv_flushIfNeeded (inv_writeBatch inv ?_ ?_ (inv.unshared_of_not_clearing steady) ?_)
    steady false now
  · intro rows atCall now' pc
    rw [idle] at pc
    cases pc
  · intro env now' pc
    rw [idle] at pc
    cases pc
  · intro t member
    rcases List.mem_append.mp member with old | new
    · exact inv.columns i t old
    · rw [List.mem_singleton.mp new]
      exact columns

theorem binanceTick_typed {message : Value} {tick : Tick} (made : binanceTick message = some tick) :
    Typed tradeColumns tick.payload := by
  unfold binanceTick at made
  split at made
  · split at made
    · exact tradeJsonToTick_typed made
    · cases made
  · cases made

theorem inv_clearing (inv : s.Inv) (i : Nat) (now : Rat) : (s.setPc i (.clearing now)).Inv :=
  inv_setProducer inv rfl (fun _ _ _ => ⟨now, rfl⟩) (by rintro _ _ _ ⟨⟩) (by rintro _ _ ⟨⟩)

theorem inv_stored (inv : s.Inv) {env : Envelope} {id : Int} {eventStore : DuckDbEventStore}
    (appended : s.eventStore.append env = some (id, eventStore))
    (readable : ∀ table, ticksToArrow s.eventStore.coerce env.rows = some table →
      arrowToTicks table = env.rows) :
    ({ s with eventStore, published := s.published ++ [(id, env.rows)] } : WsSystem).Inv := by
  obtain ⟨rfl, row, made, rfl⟩ := DuckDbEventStore.append_eq appended
  obtain ⟨table, written, rfl, _⟩ := StoreRow.ofEnvelope_eq_some_iff.mp made
  let id := s.eventStore.con.eventStoreSeq
  have split {batch : Int × List Tick} (member : batch ∈ s.published ++ [(id, env.rows)]) :
      batch ∈ s.published ∧ batch.1 < id ∨ batch = (id, env.rows) := by
    rcases List.mem_append.mp member with old | new
    · exact .inl ⟨old, inv.older batch old⟩
    · exact .inr (List.mem_singleton.mp new)
  constructor
  next => exact inv.columns
  next => exact inv.calls
  next =>
    intro j env now pc
    obtain ⟨own, published⟩ := inv.handed j env now pc
    exact ⟨own, List.mem_append_left _ published⟩
  next =>
    intro env member
    obtain ⟨j, ⟨own, published⟩, clearing⟩ := inv.ring env member
    exact ⟨j, ⟨own, List.mem_append_left _ published⟩, clearing⟩
  next =>
    intro first inFirst second inSecond same
    rcases split inFirst with ⟨oldFirst, below⟩ | rfl
    · rcases split inSecond with ⟨oldSecond, _⟩ | rfl
      · exact inv.once first oldFirst second oldSecond same
      · omega
    · rcases split inSecond with ⟨_, below⟩ | rfl
      · omega
      · rfl
  next =>
    intro batch member
    change batch.1 < id + 1
    rcases split member with ⟨_, below⟩ | rfl
    · omega
    · omega
  next =>
    intro row inStore batch member same
    rcases List.mem_append.mp inStore with old | new
    · rcases split member with ⟨published, _⟩ | rfl
      · exact inv.durable row old batch published same
      · have below := s.eventStore.con.fresh row.batchId (List.mem_map_of_mem old)
        omega
    · rw [List.mem_singleton.mp new] at same ⊢
      rcases split member with ⟨_, below⟩ | rfl
      · change batch.1 = id at same
        omega
      · exact readable table written

theorem columnsOf_nodup (s : WsSystem) (i : Nat) : ((s.columnsOf i).map Prod.fst).Nodup := by
  unfold columnsOf
  split
  · decide
  · decide

theorem columnsOf_scalar (s : WsSystem) (i : Nat) :
    ∀ column ∈ s.columnsOf i, column.2 ≠ .list ∧ column.2 ≠ .dict := by
  unfold columnsOf
  split
  · decide
  · decide

theorem inv_appendRows (inv : s.Inv) {rows : ListRef} {atCall : List Tick} {now : Rat}
    (pc : (s.producers i).pc = .publishing rows atCall now)
    (numbered : ∀ t ∈ s.heap (.batch i), t.seq ≠ some (-1)) {producedNs : Int}
    (taken : s.appendRows i rows atCall now producedNs = some s') : s'.Inv := by
  obtain ⟨own, held, isBatch⟩ := inv.calls i rows atCall now pc
  obtain ⟨⟨batchId, eventStore⟩, appended, rfl⟩ := Option.map_eq_some_iff.mp taken
  have stored := inv_stored inv appended fun table written => by
    rw [held, isBatch] at written ⊢
    exact arrowToTicks_ticksToArrow (s.columnsOf_nodup i) (s.columnsOf_scalar i) (inv.columns i)
      numbered written
  have steady : ¬s.Clearing i := by
    rintro ⟨now', clearing⟩
    rw [pc] at clearing
    cases clearing
  subst held
  refine inv_setProducer stored rfl ?_ (by rintro _ _ _ ⟨⟩) ?_
  · exact fun env member same => absurd same (inv.unshared_of_not_clearing steady env member)
  · rintro env' now' ⟨⟩
    exact ⟨own, List.mem_append_right _ (List.mem_singleton.mpr rfl)⟩

theorem inv_insert (inv : s.Inv) (held : s.Held i env) (clearing : s.Clearing i) :
    ({ s with bus := s.bus.insert env } : WsSystem).Inv :=
  { inv with
    ring := fun other member => by
      rcases List.mem_append.mp (RingBus.mem_evict member) with old | new
      · exact inv.ring other old
      · rw [List.mem_singleton.mp new]
        exact ⟨i, held, fun _ => clearing⟩ }

theorem inv_clear (inv : s.Inv) {now : Rat} (pc : (s.producers i).pc = .clearing now)
    (unshared : ∀ env ∈ s.bus.buf, env.rows ≠ .batch i) : (s.clear i now).Inv := by
  have emptied : (s.write (.batch i) []).Inv := by
    refine inv_writeBatch inv ?_ ?_ unshared (by simp)
    · intro rows atCall now' publishing
      rw [pc] at publishing
      cases publishing
    · intro env now' persisted
      rw [pc] at persisted
      cases persisted
  refine inv_setProducer emptied rfl ?_ (by rintro _ _ _ ⟨⟩) (by rintro _ _ ⟨⟩)
  exact fun env member same => absurd same (unshared env member)

theorem inv_markCommitted (inv : s.Inv) (batchId now : Int) (fault : Option MarkFault) :
    ({ s with eventStore := (s.eventStore.markCommitted batchId now fault).2 } : WsSystem).Inv :=
  { inv with
    older := fun batch member => by
      rw [DuckDbEventStore.markCommitted_seq]
      exact inv.older batch member
    durable := fun row member => inv.durable row (DuckDbEventStore.rows_markCommitted member) }

theorem inv_binanceMessage [Uppercase] (inv : s.Inv) {message : Value} {now : Rat}
    (taken : s.step py (.binanceMessage i message now) = some s') : s'.Inv := by
  simp only [step] at taken
  split at taken
  next idle feed =>
    cases made : binanceTick message with
    | none =>
        rw [made] at taken
        cases taken
        exact inv
    | some tick =>
        rw [made] at taken
        cases taken
        have columns : Typed (s.columnsOf i) tick.payload := by
          unfold columnsOf
          rw [feed]
          exact binanceTick_typed made
        exact inv_accept inv idle columns now
  next => cases taken

theorem inv_qsdUpdate [Uppercase] (inv : s.Inv) {it : Value} {arrivalNs : Int} {now : Rat}
    (taken : s.step py (.qsdUpdate i it arrivalNs now) = some s') : s'.Inv := by
  simp only [step] at taken
  split at taken
  next quotes idle feed =>
    have steady := inv.unshared_of_not_clearing (not_clearing idle)
    have updated (quotes : TvQuotes) : (s.setProducer i
        { s.producers i with feed := .tradingview quotes }).Inv := by
      refine inv_setProducer inv (by rw [feed]; rfl) ?_ ?_ ?_
      · exact fun env member same => absurd same (steady env member)
      · intro rows atCall now pc
        change (s.producers i).pc = _ at pc
        rw [idle] at pc
        cases pc
      · intro env now pc
        change (s.producers i).pc = _ at pc
        rw [idle] at pc
        cases pc
    split at taken
    next =>
      cases taken
      exact inv
    next tick quotes handled =>
      cases tick with
      | none =>
          cases taken
          exact updated quotes
      | some tick =>
          cases taken
          refine inv_accept (updated quotes) ?_ ?_ now
          · simpa [setProducer] using idle
          · simpa [columnsOf, setProducer, Feed.isBinance] using TvQuotes.handleItem_typed py handled
  next => cases taken

theorem step_inv [Uppercase] (inv : s.Inv) {a : Action} (permitted : s.unshared a)
    (taken : s.step py a = some s') : s'.Inv := by
  cases a with
  | binanceMessage i message now => exact inv_binanceMessage inv taken
  | qsdUpdate i it arrivalNs now => exact inv_qsdUpdate inv taken
  | forceFlush i now =>
      simp only [step] at taken
      split at taken
      next idle =>
        cases taken
        exact inv_flushIfNeeded inv (not_clearing idle) true now
      next => cases taken
  | append i producedNs stored =>
      simp only [step] at taken
      split at taken
      next rows atCall now pc =>
        cases stored with
        | true => exact inv_appendRows inv pc permitted taken
        | false =>
            cases taken
            exact inv_clearing inv i now
      next => cases taken
  | insert i =>
      simp only [step] at taken
      split at taken
      next env now pc =>
        cases taken
        have clearing := inv_clearing inv i now
        have own : (s.setPc i (.clearing now)).Own i env.rows := by
          simpa [Own, setPc, setProducer] using (inv.handed i env now pc).1
        exact inv_insert clearing ⟨own, (inv.handed i env now pc).2⟩ ⟨now, by simp [setPc, setProducer]⟩
      next => cases taken
  | clear i =>
      simp only [step] at taken
      split at taken
      next now pc =>
        cases taken
        exact inv_clear inv pc permitted
      next => cases taken
  | ackDh | ackJournal | setDhCursor =>
      cases taken
      exact { inv with }
  | markCommitted batchId now fault =>
      cases taken
      exact inv_markCommitted inv batchId now fault

theorem inv_start (eventStore : DuckDbEventStore) (maxEnvelopes : Int)
    (producers : Nat → WsProducer) : (start eventStore maxEnvelopes producers).Inv := by
  constructor <;> simp [start]

theorem reaches_inv [Uppercase] {eventStore : DuckDbEventStore} {maxEnvelopes : Int}
    {producers : Nat → WsProducer}
    (reached : Reaches (step py) unshared (start eventStore maxEnvelopes producers) s) : s.Inv :=
  reached.invariant Inv (inv_start eventStore maxEnvelopes producers)
    fun _ _ _ inv permitted taken => step_inv inv permitted taken

theorem binance_unshared [Uppercase] {eventStore : DuckDbEventStore} {maxEnvelopes : Int}
    {producers : Nat → WsProducer}
    (reached : Reaches (step py) unshared (start eventStore maxEnvelopes producers) s)
    (binance : (s.producers i).feed.isBinance = true) : s.unshared (.clear i) :=
  (reaches_inv reached).unshared_of_binance binance

theorem unshared_agrees [Uppercase] {eventStore : DuckDbEventStore} {maxEnvelopes : Int}
    {producers : Nat → WsProducer}
    (reached : Reaches (step py) unshared (start eventStore maxEnvelopes producers) s) : s.Agrees :=
  (reaches_inv reached).agrees

attribute [local instance] asciiUppercase

def tradeMessage (id : Int) : Value :=
  .dict [("data", .dict [("s", .str "BTCUSDT"), ("t", .int id), ("T", .int 1756493800154),
    ("p", .str "108158.12"), ("q", .str "0.00252")])]

def binanceOf (batchSize : Int) : WsProducer :=
  { feed := .binance, batchSize, flushIntervalS := 1 / 2, lastFlush := 0 }

-- Two trades are published as one batch, and a third one is in the list that was cleared.
theorem unshared_agrees_trades :
    ∃ s, Reaches (step TvQuotes.exactFloats) unshared
        (start (.connect .new {}) 100000 fun _ => binanceOf 2) s ∧
      s.published.map Prod.fst = [1] ∧ (s.drainForDh 10).map (·.rows.length) = [2] ∧
      (s.heap (.batch 0)).length = 1 ∧ s.Agrees := by
  obtain ⟨s, reached, last⟩ := reaches_allowed_of_check (step TvQuotes.exactFloats) unshared
    (start (.connect .new {}) 100000 fun _ => binanceOf 2)
    [.binanceMessage 0 (tradeMessage 1) 0, .binanceMessage 0 (tradeMessage 2) 0, .append 0 5 true,
      .insert 0, .clear 0, .binanceMessage 0 (tradeMessage 3) (1 / 10)]
    (fun s => s.published.map Prod.fst = [1] ∧ (s.drainForDh 10).map (·.rows.length) = [2] ∧
      (s.heap (.batch 0)).length = 1) (by decide +kernel) (by decide +kernel)
  obtain ⟨ids, drained, pending⟩ := of_decide_eq_true last
  exact ⟨s, reached, ids, drained, pending, unshared_agrees reached⟩

def quotesOf (symbols : List String) (batchSize : Int) : WsProducer :=
  { feed := .tradingview (.init symbols), batchSize, flushIntervalS := 1 / 2, lastFlush := 0 }

def priceUpdate (n : String) (price : Int) : Value :=
  .dict [("n", .str n), ("v", .dict [("lp_time", .int 1), ("lp", .int price)])]

-- The list that the envelope was given is cleared after the insert.
theorem shared_batch_cleared :
    ∃ s, Reaches (step TvQuotes.exactFloats) anyStep
        (start (.connect .new {}) 100000 fun _ => quotesOf ["NYSE:ABC"] 1) s ∧
      (s.drainForDh 10).map (fun env => (env.batchId, env.rows.length)) = [(1, 0)] ∧
      (s.eventStore.nextFrom 1 10).map (fun env => (env.batchId, env.rows.length)) = [(1, 1)] ∧
      ¬s.Agrees := by
  obtain ⟨s, reached, last⟩ := reaches_of_check (step TvQuotes.exactFloats)
    (start (.connect .new {}) 100000 fun _ => quotesOf ["NYSE:ABC"] 1)
    [.qsdUpdate 0 (priceUpdate "NYSE:ABC" 100) 5 0, .append 0 5 true, .insert 0, .clear 0]
    (fun s => (s.drainForDh 10).map (fun env => (env.batchId, env.rows.length)) = [(1, 0)] ∧
      (s.eventStore.nextFrom 1 10).map (fun env => (env.batchId, env.rows.length)) = [(1, 1)] ∧
      s.published.map (fun batch => (batch.1, batch.2.length)) = [(1, 1)]) (by decide +kernel)
  obtain ⟨drained, durable, published⟩ := of_decide_eq_true last
  refine ⟨s, reached, drained, durable, fun agrees => ?_⟩
  obtain ⟨env, isDrain, isEnv⟩ := List.map_eq_singleton_iff.mp drained
  obtain ⟨batch, isPublished, isBatch⟩ := List.map_eq_singleton_iff.mp published
  obtain ⟨envId, envLength⟩ := Prod.mk.inj isEnv
  obtain ⟨batchId, batchLength⟩ := Prod.mk.inj isBatch
  have same : env.rows = batch.2 :=
    agrees.drained 10 env (isDrain ▸ List.mem_singleton_self env) batch
      (isPublished ▸ List.mem_singleton_self batch) (batchId.trans envId.symm)
  have lengths := congrArg List.length same
  rw [envLength, batchLength] at lengths
  cases lengths

end DeepFeeder.WsSystem
