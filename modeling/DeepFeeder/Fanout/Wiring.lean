import DeepFeeder.Shared.DecimalText
import DeepFeeder.Fanout.RefCounts
import DeepFeeder.Fanout.Gapless

set_option autoImplicit false

namespace DeepFeeder

variable [Uppercase]

theorem Subscription.handle_inj {sub sub' : Subscription} (same : sub.handle = sub'.handle) :
    sub.callback.id = sub'.callback.id :=
  DecimalText.separated_inj (c := ':') rfl same

namespace Gapless

open MarketFeeder (info)

namespace AttachPc

def handle : AttachPc → Option String
  | .subscribed handle | .snapshotted handle _ | .caughtUp handle _ | .bounded handle => some handle
  | _ => none

def emitting : AttachPc → Bool
  | .snapshotted _ _ | .caughtUp _ _ | .bounded _ => true
  | _ => false

def early : AttachPc → Bool
  | .begin | .reset => true
  | _ => false

end AttachPc

structure Wired (requests : Nat → Request) (s : State) : Prop where
  handles : ∀ handle found, s.feeder.handles.lookup handle = some found →
    ∃ client, handle = ((requests client).sub client).handle ∧
      found = info ((requests client).sub client) ∧ (s.pc client).early = false
  subscribed : ∀ client handle, (s.pc client).handle = some handle →
    handle = ((requests client).sub client).handle ∧
      s.feeder.handles.lookup handle = some (info ((requests client).sub client))
  updates : ∀ event ∈ (s.workers .updates).events,
    event.stream = (requests event.client).key ∧ event.counter = (requests event.client).key ∧
      (s.pc event.client).early = false
  owned : ∀ client, ∀ event ∈ (s.workers (.client client)).events, event.client = client
  busy : ∀ client, (s.workers (.client client)).events ≠ [] → (s.pc client).emitting = true
  unheard : ∀ client, (s.pc client).early = true → s.received client = []

variable {requests : Nat → Request} {s s' : State} {client : Nat}

theorem Wired.feeder (wired : Wired requests s) {feeder : MarketFeeder}
    (same : feeder.handles = s.feeder.handles) : Wired requests { s with feeder } :=
  { wired with
    handles := by rw [same]; exact wired.handles
    subscribed := by rw [same]; exact wired.subscribed }

theorem Wired.seqs (wired : Wired requests s) (seqs : Dict String Nat) :
    Wired requests { s with seqs } :=
  { wired with }

theorem Wired.setPc (wired : Wired requests s) {pc : AttachPc}
    (holds : ∀ handle, pc.handle = some handle →
      handle = ((requests client).sub client).handle ∧
        s.feeder.handles.lookup handle = some (info ((requests client).sub client)))
    (busy : (s.pc client).emitting = true → pc.emitting = true ∨ s.workers (.client client) = {})
    (later : pc.early = true → (s.pc client).early = true) :
    Wired requests (s.setPc client pc) := by
  have early (other : Nat) (late : (s.pc other).early = false) :
      ((s.setPc client pc).pc other).early = false := by
    rw [State.setPc_pc]
    split
    next same =>
      subst same
      by_contra still
      rw [later (by simpa using still)] at late
      cases late
    next => exact late
  constructor
  next =>
    intro handle found known
    obtain ⟨other, own, same, late⟩ := wired.handles handle found known
    exact ⟨other, own, same, early other late⟩
  next =>
    intro other handle held
    rw [State.setPc_pc] at held
    split at held
    next same =>
      subst same
      exact holds handle held
    next => exact wired.subscribed other handle held
  next =>
    intro event member
    obtain ⟨stream, counter, late⟩ := wired.updates event member
    exact ⟨stream, counter, early event.client late⟩
  next => exact wired.owned
  next =>
    intro other some
    rw [State.setPc_pc]
    split
    next same =>
      subst same
      rcases busy (wired.busy other some) with still | idle
      · exact still
      · exact absurd (congrArg Worker.events idle) some
    next => exact wired.busy other some
  next =>
    intro other still
    rw [State.setPc_pc] at still
    split at still
    next same =>
      subst same
      exact wired.unheard other (later still)
    next => exact wired.unheard other still

theorem Wired.goOn (wired : Wired requests s) {pc : AttachPc}
    (kept : pc.handle = (s.pc client).handle) (emits : pc.emitting = true) :
    Wired requests (s.setPc client pc) := by
  apply wired.setPc (fun handle held => wired.subscribed client handle (kept ▸ held))
    (fun _ => .inl emits)
  intro early
  cases pc <;> simp_all [AttachPc.early, AttachPc.emitting]

theorem Wired.fail (wired : Wired requests s) {text : String}
    (idle : (s.pc client).emitting = false) : Wired requests (s.setPc client (.failed text)) :=
  wired.setPc (by simp [AttachPc.handle]) (by simp [idle]) (by simp [AttachPc.early])

theorem Wired.queue (wired : Wired requests s) {events : List Event}
    (emits : (s.pc client).emitting = true)
    (own : ∀ event ∈ events, event.client = client) :
    Wired requests (s.queue (.client client) events) := by
  refine { wired with updates := ?_, owned := ?_, busy := ?_ }
  · simpa [State.queue] using wired.updates
  · intro other event member
    by_cases same : other = client
    · subst same
      exact own event (by simpa [State.queue] using member)
    · exact wired.owned other event (by simpa [State.queue, same] using member)
  · intro other some
    by_cases same : other = client
    · rw [same]
      exact emits
    · exact wired.busy other (by simpa [State.queue, same] using some)

theorem Wired.register (wired : Wired requests s) {feeder : MarketFeeder}
    (late : (s.pc client).early = false)
    (handles : feeder.handles = s.feeder.handles.set ((requests client).sub client).handle
      (info ((requests client).sub client))) : Wired requests { s with feeder } := by
  have lookup (handle : String) : feeder.handles.lookup handle =
      if handle = ((requests client).sub client).handle then
        some (info ((requests client).sub client))
      else s.feeder.handles.lookup handle := by
    rw [handles, Dict.lookup_set]
  refine { wired with handles := ?_, subscribed := ?_ }
  · intro handle found known
    change feeder.handles.lookup handle = some found at known
    rw [lookup] at known
    split at known
    next same =>
      cases known
      exact ⟨client, same, rfl, late⟩
    next => exact wired.handles handle found known
  · intro other handle held
    obtain ⟨own, known⟩ := wired.subscribed other handle held
    refine ⟨own, ?_⟩
    change feeder.handles.lookup handle = _
    rw [lookup]
    split
    next same =>
      have this : other = client := Subscription.handle_inj (own.symm.trans same)
      rw [this]
    next => exact known

theorem subscribe_wired {creation : Creation} (wired : Wired requests s)
    (taken : subscribe s (requests client) client creation = some s') : Wired requests s' := by
  obtain ⟨here, ⟨text, feeder, result, rfl⟩ | ⟨handle, feeder, result, rfl⟩⟩ := subscribe_eq taken
  · have same : feeder.handles = s.feeder.handles := by
      rw [MarketFeeder.subscribe_error result]
      rfl
    exact (wired.feeder same).fail (by rw [here]; rfl)
  · obtain ⟨rfl, handles, _⟩ := MarketFeeder.subscribe_ok result
    -- The client leaves its first statements, is registered, and holds its handle then.
    have left : Wired requests (s.setPc client .detached) :=
      wired.setPc (by simp [AttachPc.handle]) (by simp [here, AttachPc.emitting])
        (by simp [AttachPc.early])
    have registered : Wired requests { s.setPc client .detached with feeder } :=
      left.register (by simp [State.setPc, AttachPc.early]) handles
    have holds : Wired requests (State.setPc { s.setPc client .detached with feeder } client
        (.subscribed ((requests client).sub client).handle)) := by
      apply registered.setPc
      · intro handle held
        cases held
        change _ ∧ feeder.handles.lookup _ = _
        rw [handles, Dict.lookup_set]
        exact ⟨rfl, if_pos rfl⟩
      · simp [State.setPc, AttachPc.emitting]
      · simp [AttachPc.early]
    simpa only [State.setPc, Function.update_idem] using holds

theorem detach_wired (wired : Wired requests s) (taken : detach s client = some s') :
    Wired requests s' := by
  obtain ⟨handle, here, idle, rfl⟩ := detach_eq taken
  obtain ⟨own, _⟩ := wired.subscribed client handle (by rw [here]; rfl)
  have moved : Wired requests (s.setPc client .detached) := by
    exact wired.setPc (by simp [AttachPc.handle]) (fun _ => .inr idle) (by simp [AttachPc.early])
  have lookup (other : String) : (s.feeder.unsubscribe handle).handles.lookup other =
      if other = handle then none else s.feeder.handles.lookup other := by
    rw [MarketFeeder.handles_unsubscribe, Dict.lookup_erase]
  refine { moved with handles := ?_, subscribed := ?_ }
  · intro other found known
    change (s.feeder.unsubscribe handle).handles.lookup other = some found at known
    rw [lookup] at known
    split at known
    next => cases known
    next => exact moved.handles other found known
  · intro other held holds
    obtain ⟨own', known⟩ := moved.subscribed other held holds
    have different : held ≠ handle := by
      intro equal
      have same : other = client := Subscription.handle_inj (own'.symm.trans (equal.trans own))
      subst same
      simp [State.setPc, AttachPc.handle] at holds
    refine ⟨own', ?_⟩
    change (s.feeder.unsubscribe handle).handles.lookup held = _
    rw [lookup, if_neg different]
    exact known

theorem Wired.emitCompleted_own (wired : Wired requests s) {key : String} {batch : Batch}
    {event : Event} (member : event ∈ emitCompleted requests s.feeder key batch) :
    event.stream = (requests event.client).key ∧ event.counter = (requests event.client).key ∧
      (s.pc event.client).early = false := by
  obtain ⟨stream, counter, _, entry, inside, same, id⟩ := mem_emitCompleted member
  have known : s.feeder.handles.lookup entry.1 = some entry.2 := AList.mem_lookup_iff.mpr inside
  obtain ⟨client, _, found, late⟩ := wired.handles entry.1 entry.2 known
  have this : event.client = client := by
    rw [← id, found]
    rfl
  refine ⟨?_, counter, this ▸ late⟩
  rw [stream, ← same, found, this]
  rfl

theorem update_wired [QueryLanguage] {key : String} {added modified : List Nat} {nowNs : Int}
    (wired : Wired requests s)
    (taken : update requests s key added modified nowNs = some s') : Wired requests s' := by
  obtain ⟨lsn, _, _, rfl⟩ := update_eq taken
  refine { wired with updates := ?_, owned := ?_, busy := ?_ }
  · intro event member
    have queued : event ∈ emitCompleted requests s.feeder key
        (lsn.onUpdate (tableUpdate s lsn added modified) nowNs).1 := by
      simpa [State.queue] using member
    exact wired.emitCompleted_own queued
  · intro other event member
    rw [State.queue_workers, if_neg (by simp)] at member
    exact wired.owned other event member
  · intro other some
    rw [State.queue_workers, if_neg (by simp)] at some
    exact wired.busy other some

theorem number_wired {thread : Thread} (wired : Wired requests s)
    (taken : number s thread = some s') : Wired requests s' := by
  obtain ⟨event, rest, here, rfl⟩ := number_eq taken
  have same := State.readSeq_events here
  refine { wired with updates := ?_, owned := ?_, busy := ?_ }
  · rw [same]
    exact wired.updates
  · intro client
    rw [same]
    exact wired.owned client
  · intro client
    rw [same]
    exact wired.busy client

theorem advance_wired {thread : Thread} (wired : Wired requests s)
    (taken : advance s thread = some s') : Wired requests s' := by
  obtain ⟨event, seq, rest, here, rfl⟩ := advance_eq taken
  have same := State.writeSeq_events here
  refine { wired with updates := ?_, owned := ?_, busy := ?_ }
  · rw [same]
    exact wired.updates
  · intro client
    rw [same]
    exact wired.owned client
  · intro client
    rw [same]
    exact wired.busy client

theorem emit_wired {thread : Thread} (wired : Wired requests s)
    (taken : emit s thread = some s') : Wired requests s' := by
  obtain ⟨event, seq, rest, here, rfl⟩ := emit_eq taken
  have fewer (other : Thread) (queued : Event)
      (member : queued ∈ ((s.deliver thread event seq rest).workers other).events) :
      queued ∈ (s.workers other).events := State.deliver_events here member
  have late : (s.pc event.client).early = false := by
    cases thread with
    | updates => exact (wired.updates event (by simp [here])).2.2
    | client id =>
        have same := wired.owned id event (by simp [here])
        have holds := wired.busy id (by simp [here])
        rw [same]
        cases at_ : s.pc id <;> simp_all [AttachPc.emitting, AttachPc.early]
  refine { wired with updates := ?_, owned := ?_, busy := ?_, unheard := ?_ }
  · exact fun queued member => wired.updates queued (fewer .updates queued member)
  · exact fun id queued member => wired.owned id queued (fewer (.client id) queued member)
  · intro id some
    obtain ⟨queued, member⟩ := List.exists_mem_of_ne_nil _ some
    exact wired.busy id (List.ne_nil_of_mem (fewer (.client id) queued member))
  · intro id still
    have apart : id ≠ event.client := by
      rintro rfl
      change (s.pc event.client).early = true at still
      rw [late] at still
      cases still
    rw [State.deliver_received, if_neg apart]
    exact wired.unheard id still

theorem step_wired [QueryLanguage] {a : Action} (wired : Wired requests s)
    (taken : step requests s a = some s') : Wired requests s' := by
  cases a with
  | write provider dataSchema rows =>
      cases taken
      exact { wired with }
  | update key added modified nowNs => exact update_wired wired taken
  | reset client =>
      obtain ⟨here, ⟨text, rfl⟩ | rfl⟩ := reset_eq taken
      · exact wired.fail (by rw [here]; rfl)
      · exact (wired.seqs _).setPc (by simp [AttachPc.handle]) (by simp [here, AttachPc.emitting])
          (by simp [here, AttachPc.early])
  | subscribe client creation => exact subscribe_wired wired taken
  | takeSnapshot client nowNs failure =>
      obtain ⟨handle, here, ⟨text, _, rfl⟩ | ⟨_, spec, _, _, rfl⟩⟩ := takeSnapshot_eq taken
      · exact wired.fail (by rw [here]; rfl)
      · apply Wired.queue (wired.goOn (by simp [here, AttachPc.handle]) rfl)
        · simp [State.setPc, AttachPc.emitting]
        · exact fun event member => (mem_snapshotEvents member).1
  | catchUp client =>
      obtain ⟨handle, watermark, here, _, rfl⟩ := catchUp_eq taken
      apply Wired.queue (wired.goOn (by simp [here, AttachPc.handle]) rfl)
      · simp [State.setPc, AttachPc.emitting]
      · exact fun event member => (mem_replay member).1
  | boundary client =>
      obtain ⟨handle, watermark, here, _, rfl⟩ := boundary_eq taken
      apply Wired.queue (wired.goOn (by simp [here, AttachPc.handle]) rfl)
      · simp [State.setPc, AttachPc.emitting]
      · intro event member
        rw [List.mem_singleton.mp member]
        rfl
  | detach client => exact detach_wired wired taken
  | number thread => exact number_wired wired taken
  | advance thread => exact advance_wired wired taken
  | emit thread => exact emit_wired wired taken

-- What is true of each listener stays so, if it is of a new one and of one that has heard an update.

section Listeners

variable {P : String → Listener → Prop}

theorem subscribe_listeners {creation : Creation}
    (all : ∀ key lsn, s.feeder.lsn.lookup key = some lsn → P key lsn)
    (created : ∀ spec bufLen,
      schemas (requests client).provider (requests client).dataSchema = some spec →
        P (requests client).key (s.feeder.newListener ((requests client).sub client) spec bufLen))
    (taken : subscribe s (requests client) client creation = some s') :
    ∀ key lsn, s'.feeder.lsn.lookup key = some lsn → P key lsn := by
  obtain ⟨_, ⟨text, feeder, result, rfl⟩ | ⟨handle, feeder, result, rfl⟩⟩ := subscribe_eq taken
  · rw [MarketFeeder.subscribe_error result]
    exact all
  · intro key lsn here
    change feeder.lsn.lookup key = some lsn at here
    obtain ⟨_, _, _, ⟨_, same, _⟩ | ⟨_, spec, bufLen, registered, started, _⟩⟩ :=
      MarketFeeder.subscribe_ok result
    · rw [same] at here
      exact all key lsn here
    · rw [started, Dict.lookup_set] at here
      split at here
      next named =>
        cases here
        rw [named]
        exact created spec bufLen registered
      next => exact all key lsn here

omit [Uppercase] in
theorem detach_listeners (all : ∀ key lsn, s.feeder.lsn.lookup key = some lsn → P key lsn)
    (taken : detach s client = some s') :
    ∀ key lsn, s'.feeder.lsn.lookup key = some lsn → P key lsn := by
  obtain ⟨handle, _, _, rfl⟩ := detach_eq taken
  intro key lsn here
  change (s.feeder.unsubscribe handle).lsn.lookup key = some lsn at here
  apply all key lsn
  cases known : s.feeder.handles.lookup handle with
  | none => rwa [MarketFeeder.unsubscribe_unknown known] at here
  | some found =>
      obtain ⟨_, _, _, ⟨_, kept, _⟩ | ⟨_, erased, _⟩⟩ := MarketFeeder.unsubscribe_found known
      · rwa [kept] at here
      · rw [erased, Dict.lookup_erase] at here
        split at here
        next => cases here
        next => exact here

theorem step_listeners [QueryLanguage] {a : Action}
    (all : ∀ key lsn, s.feeder.lsn.lookup key = some lsn → P key lsn)
    (created : ∀ client spec bufLen,
      schemas (requests client).provider (requests client).dataSchema = some spec →
        P (requests client).key (s.feeder.newListener ((requests client).sub client) spec bufLen))
    (heard : ∀ key added modified nowNs lsn, a = .update key added modified nowNs →
      s.feeder.lsn.lookup key = some lsn →
        P key { lsn with
          toSymListener := (lsn.onUpdate (tableUpdate s lsn added modified) nowNs).2 })
    (taken : step requests s a = some s') :
    ∀ key lsn, s'.feeder.lsn.lookup key = some lsn → P key lsn := by
  cases a with
  | write provider dataSchema rows => cases taken; exact all
  | update key added modified nowNs =>
      obtain ⟨lsn, found, _, rfl⟩ := update_eq taken
      intro other listener here
      change (s.feeder.lsn.set key _).lookup other = some listener at here
      rw [Dict.lookup_set] at here
      split at here
      next same =>
        cases here
        rw [same]
        exact heard key added modified nowNs lsn rfl found
      next => exact all other listener here
  | reset client =>
      obtain ⟨_, ⟨text, rfl⟩ | rfl⟩ := reset_eq taken
      · exact all
      · exact all
  | subscribe client creation => exact subscribe_listeners all (created client) taken
  | takeSnapshot client nowNs failure =>
      obtain ⟨_, _, ⟨text, _, rfl⟩ | ⟨_, spec, _, _, rfl⟩⟩ := takeSnapshot_eq taken
      · exact all
      · exact all
  | catchUp client => obtain ⟨_, _, _, _, rfl⟩ := catchUp_eq taken; exact all
  | boundary client => obtain ⟨_, _, _, _, rfl⟩ := boundary_eq taken; exact all
  | detach client => exact detach_listeners all taken
  | number thread => obtain ⟨_, _, _, rfl⟩ := number_eq taken; exact all
  | advance thread => obtain ⟨_, _, _, _, rfl⟩ := advance_eq taken; exact all
  | emit thread => obtain ⟨_, _, _, _, rfl⟩ := emit_eq taken; exact all

end Listeners

theorem start_wired (feeder : MarketFeeder) (seqs : Dict String Nat)
    (tables : String → String → List Row) : Wired requests (.start feeder seqs tables) where
  handles _ _ known := by cases known
  subscribed _ _ held := by cases held
  updates _ member := by cases member
  owned _ _ member := by cases member
  busy _ some := absurd rfl some
  unheard _ _ := rfl

end Gapless

end DeepFeeder
