import DeepFeeder.Fanout.Wiring

set_option autoImplicit false

namespace DeepFeeder.Gapless

open Transition

namespace Worker

def Takes (w : Worker) (event : Event) (seq : Nat) : Prop :=
  w.read = some (event, seq) ∨ w.numbered = some (event, seq)

def numberedFor (w : Worker) (client : Nat) : Bool :=
  (w.read.any fun read => read.1.client = client) ||
    w.numbered.any fun numbered => numbered.1.client = client

def readsFor (w : Worker) (counter : String) : Bool :=
  w.read.any fun read => read.1.counter = counter

theorem numberedFor_of_takes {w : Worker} {event : Event} {seq : Nat} (takes : w.Takes event seq) :
    w.numberedFor event.client = true := by
  rcases takes with read | numbered
  · simp [numberedFor, read]
  · simp [numberedFor, numbered]

theorem readsFor_of_read {w : Worker} {event : Event} {seq : Nat}
    (read : w.read = some (event, seq)) : w.readsFor event.counter = true := by
  simp [readsFor, read]

theorem events_of_takes {w : Worker} {event : Event} {seq : Nat} (takes : w.Takes event seq) :
    event ∈ w.events := by
  rcases takes with read | numbered
  · simp [events, read]
  · simp [events, numbered]

end Worker

namespace State

-- The `meta.seq` values that a client has received.
def numbers (s : State) (client : Nat) : List Nat := (s.received client).map Prod.snd

def unnumbered (s : State) (client : Nat) : Bool :=
  (s.received client).isEmpty && !(s.workers .updates).numberedFor client &&
    !(s.workers (.client client)).numberedFor client

def receivers (s : State) (key : String) : List Nat :=
  ((s.feeder.handles.entries.filter fun entry => entry.2.key = key).map fun entry =>
      entry.2.callback.id) ++
    (((s.workers .updates).events.filter fun event => event.counter = key).map Event.client)

end State

def Thread.other (thread : Thread) (client : Nat) : Thread :=
  match thread with
  | .updates => .client client
  | .client _ => .updates

def State.numberers (s : State) (key : String) : List Thread :=
  .updates :: (s.receivers key).map .client

theorem State.read_queue {s : State} {thread other : Thread} {events : List Event} {event : Event}
    {seq : Nat}
    (holds : ((s.queue thread events).workers other).read = some (event, seq)) :
    (s.workers other).read = some (event, seq) := by
  rw [State.queue_workers] at holds
  split at holds
  next => cases holds
  next => exact holds

theorem State.numbered_queue {s : State} {thread other : Thread} {events : List Event} {event : Event}
    {seq : Nat}
    (holds : ((s.queue thread events).workers other).numbered = some (event, seq)) :
    (s.workers other).numbered = some (event, seq) := by
  rw [State.queue_workers] at holds
  split at holds
  next => cases holds
  next => exact holds

theorem State.takes_queue {s : State} {thread other : Thread} {events : List Event} {event : Event}
    {seq : Nat}
    (takes : ((s.queue thread events).workers other).Takes event seq) :
    (s.workers other).Takes event seq :=
  takes.imp State.read_queue State.numbered_queue

section Numbering

variable {s : State} {thread other : Thread} {event queued : Event} {seq number : Nat}
  {rest : List Event}

theorem State.read_readSeq
    (holds : ((s.readSeq thread event rest).workers other).read = some (queued, number)) :
    other = thread ∧ queued = event ∧ number = s.nextSeq event.counter ∨
      other ≠ thread ∧ (s.workers other).read = some (queued, number) := by
  rw [State.readSeq_workers] at holds
  split at holds
  next same =>
    cases holds
    exact .inl ⟨same, rfl, rfl⟩
  next apart => exact .inr ⟨apart, holds⟩

theorem State.numbered_readSeq
    (holds : ((s.readSeq thread event rest).workers other).numbered = some (queued, number)) :
    other ≠ thread ∧ (s.workers other).numbered = some (queued, number) := by
  rw [State.readSeq_workers] at holds
  split at holds
  next => cases holds
  next apart => exact ⟨apart, holds⟩

theorem State.takes_readSeq
    (takes : ((s.readSeq thread event rest).workers other).Takes queued number) :
    other = thread ∧ queued = event ∧ number = s.nextSeq event.counter ∨
      other ≠ thread ∧ (s.workers other).Takes queued number := by
  rcases takes with read | counted
  · exact (State.read_readSeq read).imp id fun ⟨apart, holds⟩ => ⟨apart, .inl holds⟩
  · obtain ⟨apart, holds⟩ := State.numbered_readSeq counted
    exact .inr ⟨apart, .inr holds⟩

theorem State.read_writeSeq
    (holds : ((s.writeSeq thread event seq rest).workers other).read = some (queued, number)) :
    other ≠ thread ∧ (s.workers other).read = some (queued, number) := by
  rw [State.writeSeq_workers] at holds
  split at holds
  next => cases holds
  next apart => exact ⟨apart, holds⟩

theorem State.numbered_writeSeq
    (holds : ((s.writeSeq thread event seq rest).workers other).numbered = some (queued, number)) :
    other = thread ∧ queued = event ∧ number = seq ∨
      (s.workers other).numbered = some (queued, number) := by
  rw [State.writeSeq_workers] at holds
  split at holds
  next same =>
    cases holds
    exact .inl ⟨same, rfl, rfl⟩
  next => exact .inr holds

-- What was read is what is counted.
theorem State.takes_writeSeq (before : (s.workers thread).read = some (event, seq))
    (takes : ((s.writeSeq thread event seq rest).workers other).Takes queued number) :
    (s.workers other).Takes queued number := by
  rcases takes with read | counted
  · exact .inl (State.read_writeSeq read).2
  · rcases State.numbered_writeSeq counted with ⟨rfl, rfl, rfl⟩ | same
    · exact .inl before
    · exact .inr same

theorem State.read_deliver
    (holds : ((s.deliver thread event seq rest).workers other).read = some (queued, number)) :
    other ≠ thread ∧ (s.workers other).read = some (queued, number) := by
  rw [State.deliver_workers] at holds
  split at holds
  next => cases holds
  next apart => exact ⟨apart, holds⟩

theorem State.numbered_deliver
    (holds : ((s.deliver thread event seq rest).workers other).numbered = some (queued, number)) :
    other ≠ thread ∧ (s.workers other).numbered = some (queued, number) := by
  rw [State.deliver_workers] at holds
  split at holds
  next => cases holds
  next apart => exact ⟨apart, holds⟩

theorem State.takes_deliver
    (takes : ((s.deliver thread event seq rest).workers other).Takes queued number) :
    other ≠ thread ∧ (s.workers other).Takes queued number := by
  rcases takes with read | counted
  · exact (State.read_deliver read).imp id .inl
  · exact (State.numbered_deliver counted).imp id .inr

theorem State.numbers_deliver (s : State) (thread : Thread) (event : Event) (seq : Nat)
    (rest : List Event) (client : Nat) :
    (s.deliver thread event seq rest).numbers client =
      if client = event.client then s.numbers event.client ++ [seq] else s.numbers client := by
  unfold State.numbers
  rw [State.deliver_received]
  split
  · simp
  · rfl

end Numbering

theorem unnumbered_iff (s : State) (client : Nat) :
    s.unnumbered client = true ↔ s.received client = [] ∧
      (s.workers .updates).numberedFor client = false ∧
      (s.workers (.client client)).numberedFor client = false := by
  simp [State.unnumbered, and_assoc]

section Numbers

variable [Uppercase]

-- A counter starts again only before any of its receivers has got a number, one thread at a time reads
-- and writes it, the two threads that emit to a client take turns, and the catch-up takes no other
-- key's numbers.
def inTurn (requests : Nat → Request) (s : State) : Action → Bool
  | .reset client => (s.receivers (requests client).key).all s.unnumbered
  | .catchUp client => !(requests client).hasExchange || (replay (requests client) s client).isEmpty
  | .number thread =>
      (s.workers thread).todo.head?.all fun event =>
        !(s.workers (thread.other event.client)).numberedFor event.client &&
          (s.numberers event.counter).all fun other =>
            other = thread || !(s.workers other).readsFor event.counter
  | _ => true

def Open (s : State) (client : Nat) : Prop :=
  (∃ handle found, s.feeder.handles.lookup handle = some found ∧ found.callback.id = client) ∨
    ∃ event ∈ (s.workers .updates).events, event.client = client

structure Numbered (requests : Nat → Request) (s : State) : Prop where
  increasing : ∀ client, (s.numbers client).Pairwise (· < ·)
  flight : ∀ thread event seq, (s.workers thread).Takes event seq →
    ∀ earlier ∈ s.numbers event.client, earlier < seq
  current : ∀ thread event seq, (s.workers thread).read = some (event, seq) →
    s.nextSeq (requests event.client).key = seq
  counted : ∀ thread event seq, (s.workers thread).numbered = some (event, seq) →
    seq < s.nextSeq (requests event.client).key
  single : ∀ thread event seq thread' event' seq', (s.workers thread).Takes event seq →
    (s.workers thread').Takes event' seq' → event.client = event'.client → thread = thread'
  alone : ∀ thread event seq thread' event' seq', (s.workers thread).read = some (event, seq) →
    (s.workers thread').read = some (event', seq') →
      (requests event.client).key = (requests event'.client).key → thread = thread'
  below : ∀ client, Open s client → ∀ seq ∈ s.numbers client, seq < s.nextSeq (requests client).key
  counters : ∀ client, ∀ event ∈ (s.workers (.client client)).events,
    event.counter = (requests client).key

variable {requests : Nat → Request} {s s' : State} {client : Nat}

omit [Uppercase] in
theorem Open.mono (opened : Open s' client) (handles : s'.feeder.handles = s.feeder.handles)
    (events : ∀ event ∈ (s'.workers .updates).events, event ∈ (s.workers .updates).events) :
    Open s client := by
  rcases opened with ⟨handle, found, known, id⟩ | ⟨event, queued, same⟩
  · exact .inl ⟨handle, found, handles ▸ known, id⟩
  · exact .inr ⟨event, events event queued, same⟩

theorem Wired.open_of_busy (wired : Wired requests s)
    (some : (s.workers (.client client)).events ≠ []) : Open s client := by
  have emits := wired.busy client some
  obtain ⟨handle, held⟩ : ∃ handle, (s.pc client).handle = Option.some handle := by
    cases at_ : s.pc client <;> simp_all [AttachPc.emitting, AttachPc.handle]
  exact .inl ⟨handle, _, (wired.subscribed client handle held).2, rfl⟩

theorem Wired.mem_receivers (wired : Wired requests s) (opened : Open s client) :
    client ∈ s.receivers (requests client).key := by
  unfold State.receivers
  rw [List.mem_append]
  rcases opened with ⟨handle, found, known, id⟩ | ⟨event, member, same⟩
  · refine .inl (List.mem_map.mpr ⟨⟨handle, found⟩, List.mem_filter.mpr ⟨?_, ?_⟩, id⟩)
    · exact AList.mem_lookup_iff.mp known
    · obtain ⟨other, _, info, _⟩ := wired.handles handle found known
      have this : other = client := by
        rw [← id, info]
        rfl
      subst this
      rw [info]
      exact decide_eq_true rfl
  · refine .inr (List.mem_map.mpr ⟨event, List.mem_filter.mpr ⟨member, ?_⟩, same⟩)
    rw [← same]
    exact decide_eq_true (wired.updates event member).2.1

theorem Numbered.counter (numbered : Numbered requests s) (wired : Wired requests s)
    {thread : Thread} {event : Event} (member : event ∈ (s.workers thread).events) :
    event.counter = (requests event.client).key ∧ Open s event.client := by
  cases thread with
  | updates => exact ⟨(wired.updates event member).2.1, .inr ⟨event, member, rfl⟩⟩
  | client id =>
      have same := wired.owned id event member
      rw [same]
      exact ⟨numbered.counters id event member, wired.open_of_busy (List.ne_nil_of_mem member)⟩

theorem Wired.thread_of_event (wired : Wired requests s) {thread : Thread} {event : Event}
    (member : event ∈ (s.workers thread).events) :
    thread = .updates ∨ thread = .client event.client := by
  cases thread with
  | updates => exact .inl rfl
  | client id => exact .inr (congrArg Thread.client (wired.owned id event member).symm)

theorem Wired.other_of_ne (wired : Wired requests s) {thread thread' : Thread}
    {event event' : Event} (member : event ∈ (s.workers thread).events)
    (member' : event' ∈ (s.workers thread').events) (apart : thread' ≠ thread)
    (same : event'.client = event.client) : thread' = thread.other event.client := by
  rcases wired.thread_of_event member with rfl | rfl
  · rcases wired.thread_of_event member' with rfl | rfl
    · exact absurd rfl apart
    · rw [same]
      rfl
  · rcases wired.thread_of_event member' with rfl | rfl
    · rfl
    · exact absurd (congrArg Thread.client same) apart

theorem reset_numbered (numbered : Numbered requests s) (wired : Wired requests s)
    (turn : inTurn requests s (.reset client) = true)
    (taken : reset s (requests client) client = some s') : Numbered requests s' := by
  have fresh (other : Nat) (opened : Open s other)
      (same : (requests other).key = (requests client).key) : s.unnumbered other = true := by
    apply List.all_eq_true.mp turn
    rw [← same]
    exact wired.mem_receivers opened
  obtain ⟨_, ⟨text, rfl⟩ | rfl⟩ := reset_eq taken
  · exact { numbered with }
  · have next (key : String) :
        (State.setPc { s with seqs := s.seqs.set (requests client).key 0 } client .reset).nextSeq key =
          if key = (requests client).key then 0 else s.nextSeq key :=
      State.nextSeq_set s _ key 0
    -- A number that is taken is of another key's counter.
    have apart {thread : Thread} {event : Event} {seq : Nat}
        (takes : (s.workers thread).Takes event seq) :
        (requests event.client).key ≠ (requests client).key := by
      intro same
      have member := Worker.events_of_takes takes
      obtain ⟨_, updates, own⟩ := (unnumbered_iff s event.client).mp
        (fresh event.client (numbered.counter wired member).2 same)
      have taken := Worker.numberedFor_of_takes takes
      rcases wired.thread_of_event member with rfl | rfl
      · rw [updates] at taken
        cases taken
      · rw [own] at taken
        cases taken
    refine { numbered with current := ?_, counted := ?_, below := ?_ }
    · intro thread event seq holds
      rw [next, if_neg (apart (.inl holds))]
      exact numbered.current thread event seq holds
    · intro thread event seq holds
      rw [next, if_neg (apart (.inr holds))]
      exact numbered.counted thread event seq holds
    · intro other opened seq member
      rw [next]
      split
      next same =>
        have none := ((unnumbered_iff s other).mp (fresh other opened same)).1
        change seq ∈ (s.received other).map Prod.snd at member
        rw [none] at member
        cases member
      next => exact numbered.below other opened seq member

theorem subscribe_numbered {creation : Creation} (numbered : Numbered requests s)
    (wired : Wired requests s)
    (taken : subscribe s (requests client) client creation = some s') : Numbered requests s' := by
  obtain ⟨here, result⟩ := subscribe_eq taken
  have unheard : s.received client = [] := wired.unheard client (by rw [here]; rfl)
  have kept {pc : AttachPc} {feeder : MarketFeeder}
      (handles : ∀ handle found, feeder.handles.lookup handle = some found →
        s.feeder.handles.lookup handle = some found ∨ found.callback.id = client) :
      Numbered requests (State.setPc { s with feeder } client pc) := by
    refine { numbered with below := ?_ }
    intro other opened seq member
    by_cases same : other = client
    · subst same
      change seq ∈ (s.received other).map Prod.snd at member
      rw [unheard] at member
      cases member
    · refine numbered.below other ?_ seq member
      rcases opened with ⟨handle, found, known, id⟩ | queued
      · rcases handles handle found known with before | new
        · exact .inl ⟨handle, found, before, id⟩
        · exact absurd (id.symm.trans new) same
      · exact .inr queued
  rcases result with ⟨text, feeder, failed, rfl⟩ | ⟨handle, feeder, ok, rfl⟩
  · apply kept
    intro handle found known
    rw [MarketFeeder.subscribe_error failed] at known
    exact .inl known
  · obtain ⟨_, handles, _⟩ := MarketFeeder.subscribe_ok ok
    apply kept
    intro handle found known
    rw [handles, Dict.lookup_set] at known
    split at known
    next => cases known; exact .inr rfl
    next => exact .inl known

theorem Numbered.queue (numbered : Numbered requests s) {pc : AttachPc} {events : List Event}
    (counters : ∀ event ∈ events, event.counter = (requests client).key) :
    Numbered requests ((s.setPc client pc).queue (.client client) events) := by
  have before {thread : Thread} {event : Event} {seq : Nat}
      (takes : (((s.setPc client pc).queue (.client client) events).workers thread).Takes event seq) :
      (s.workers thread).Takes event seq := State.takes_queue takes
  refine
    { flight := fun thread event seq takes => numbered.flight thread event seq (before takes)
      current := fun thread event seq holds =>
        numbered.current thread event seq (State.read_queue holds)
      counted := fun thread event seq holds =>
        numbered.counted thread event seq (State.numbered_queue holds)
      single := fun _ _ _ _ _ _ takes takes' =>
        numbered.single _ _ _ _ _ _ (before takes) (before takes')
      alone := fun _ _ _ _ _ _ holds holds' =>
        numbered.alone _ _ _ _ _ _ (State.read_queue holds) (State.read_queue holds')
      increasing := numbered.increasing, below := ?_, counters := ?_ }
  · intro other opened seq member
    refine numbered.below other ?_ seq member
    rcases opened with registered | ⟨event, queued, same⟩
    · exact .inl registered
    · rw [State.queue_workers, if_neg (by simp)] at queued
      exact .inr ⟨event, queued, same⟩
  · intro other event member
    rw [State.queue_workers] at member
    split at member
    next same =>
      cases same
      exact counters event member
    next => exact numbered.counters other event member

theorem update_numbered [QueryLanguage] {key : String} {added modified : List Nat} {nowNs : Int}
    (numbered : Numbered requests s)
    (taken : update requests s key added modified nowNs = some s') : Numbered requests s' := by
  obtain ⟨lsn, _, _, rfl⟩ := update_eq taken
  refine
    { flight := fun thread event seq takes =>
        numbered.flight thread event seq (State.takes_queue takes)
      current := fun thread event seq holds =>
        numbered.current thread event seq (State.read_queue holds)
      counted := fun thread event seq holds =>
        numbered.counted thread event seq (State.numbered_queue holds)
      single := fun _ _ _ _ _ _ takes takes' =>
        numbered.single _ _ _ _ _ _ (State.takes_queue takes) (State.takes_queue takes')
      alone := fun _ _ _ _ _ _ holds holds' =>
        numbered.alone _ _ _ _ _ _ (State.read_queue holds) (State.read_queue holds')
      increasing := numbered.increasing, below := ?_, counters := ?_ }
  · intro other opened seq member
    refine numbered.below other ?_ seq member
    rcases opened with registered | ⟨event, queued, same⟩
    · exact .inl registered
    · rw [State.queue_workers, if_pos rfl, Worker.events_todo] at queued
      obtain ⟨_, _, _, entry, inside, _, id⟩ := mem_emitCompleted queued
      exact .inl ⟨entry.1, entry.2, AList.mem_lookup_iff.mpr inside, id.trans same⟩
  · intro other event member
    rw [State.queue_workers, if_neg (by simp)] at member
    exact numbered.counters other event member

-- A thread that numbers an event has the counter and the client to itself.
theorem Wired.apart_of_inTurn (numbered : Numbered requests s) (wired : Wired requests s)
    {thread other : Thread} {event queued : Event} {rest : List Event} {seq : Nat}
    (turn : inTurn requests s (.number thread) = true)
    (here : s.workers thread = { todo := event :: rest }) (apart : other ≠ thread) :
    ((s.workers other).Takes queued seq → queued.client ≠ event.client) ∧
      ((s.workers other).read = some (queued, seq) →
        (requests queued.client).key ≠ (requests event.client).key) := by
  have member : event ∈ (s.workers thread).events := by simp [here]
  obtain ⟨counter, _⟩ := numbered.counter wired member
  simp only [inTurn, here, List.head?_cons, Option.all_some, Bool.and_eq_true, Bool.not_eq_true',
    List.all_eq_true, Bool.or_eq_true, decide_eq_true_eq] at turn
  obtain ⟨free, unread⟩ := turn
  constructor
  · intro takes same
    have that := wired.other_of_ne member (Worker.events_of_takes takes) apart same
    have taken := Worker.numberedFor_of_takes takes
    rw [that, same, free] at taken
    cases taken
  · intro holds same
    have inside := Worker.events_of_takes (.inl holds)
    obtain ⟨counter', opened'⟩ := numbered.counter wired inside
    have listed : other ∈ s.numberers event.counter := by
      rcases wired.thread_of_event inside with rfl | rfl
      · exact List.mem_cons_self
      · apply List.mem_cons_of_mem
        apply List.mem_map_of_mem
        rw [counter, ← same]
        exact wired.mem_receivers opened'
    have reads := Worker.readsFor_of_read holds
    rw [counter', same, ← counter, (unread other listed).resolve_left apart] at reads
    cases reads

theorem number_numbered {thread : Thread} (numbered : Numbered requests s)
    (wired : Wired requests s) (turn : inTurn requests s (.number thread) = true)
    (taken : number s thread = some s') : Numbered requests s' := by
  obtain ⟨event, rest, here, rfl⟩ := number_eq taken
  obtain ⟨counter, opened⟩ := numbered.counter wired
    (show event ∈ (s.workers thread).events by simp [here])
  have only {other : Thread} {queued : Event} {seq : Nat} (apart : other ≠ thread) :
      ((s.workers other).Takes queued seq → queued.client ≠ event.client) ∧
        ((s.workers other).read = some (queued, seq) →
          (requests queued.client).key ≠ (requests event.client).key) :=
    wired.apart_of_inTurn numbered turn here apart
  refine { increasing := numbered.increasing, flight := ?_, current := ?_, counted := ?_,
           single := ?_, alone := ?_, below := ?_, counters := ?_ }
  · intro other queued seq takes
    rcases State.takes_readSeq takes with ⟨_, rfl, rfl⟩ | ⟨_, before⟩
    · rw [counter]
      exact numbered.below queued.client opened
    · exact numbered.flight other queued seq before
  · intro other queued seq holds
    rcases State.read_readSeq holds with ⟨_, rfl, rfl⟩ | ⟨_, before⟩
    · rw [counter]
      rfl
    · exact numbered.current other queued seq before
  · exact fun other queued seq holds =>
      numbered.counted other queued seq (State.numbered_readSeq holds).2
  · intro first queued seq second queued' seq' takes takes' same
    rcases State.takes_readSeq takes with ⟨rfl, rfl, _⟩ | ⟨apart, before⟩
    · rcases State.takes_readSeq takes' with ⟨rfl, _⟩ | ⟨apart', before'⟩
      · rfl
      · exact absurd same.symm ((only apart').1 before')
    · rcases State.takes_readSeq takes' with ⟨rfl, rfl, _⟩ | ⟨_, before'⟩
      · exact absurd same ((only apart).1 before)
      · exact numbered.single _ _ _ _ _ _ before before' same
  · intro first queued seq second queued' seq' holds holds' same
    rcases State.read_readSeq holds with ⟨rfl, rfl, _⟩ | ⟨apart, before⟩
    · rcases State.read_readSeq holds' with ⟨rfl, _⟩ | ⟨apart', before'⟩
      · rfl
      · exact absurd same.symm ((only apart').2 before')
    · rcases State.read_readSeq holds' with ⟨rfl, rfl, _⟩ | ⟨_, before'⟩
      · exact absurd same ((only apart).2 before)
      · exact numbered.alone _ _ _ _ _ _ before before' same
  · exact fun other opened => numbered.below other
      (opened.mono rfl fun queued inside => State.readSeq_events here _ ▸ inside)
  · intro other queued member
    rw [State.readSeq_events here] at member
    exact numbered.counters other queued member

theorem advance_numbered {thread : Thread} (numbered : Numbered requests s)
    (wired : Wired requests s) (taken : advance s thread = some s') : Numbered requests s' := by
  obtain ⟨event, seq, rest, here, rfl⟩ := advance_eq taken
  obtain ⟨counter, _⟩ := numbered.counter wired
    (show event ∈ (s.workers thread).events by simp [here])
  have holds : (s.workers thread).read = some (event, seq) := by rw [here]
  have now := numbered.current thread event seq holds
  have next (key : String) : (s.writeSeq thread event seq rest).nextSeq key =
      if key = event.counter then seq + 1 else s.nextSeq key :=
    State.nextSeq_set s _ key _
  have grows {number : Nat} {key : String} (lower : number < s.nextSeq key) :
      number < (s.writeSeq thread event seq rest).nextSeq key := by
    rw [next]
    split
    next same =>
      rw [same, counter, now] at lower
      omega
    next => exact lower
  refine { increasing := numbered.increasing, flight := ?_, current := ?_, counted := ?_,
           single := ?_, alone := ?_, below := ?_, counters := ?_ }
  · exact fun other queued number takes =>
      numbered.flight other queued number (State.takes_writeSeq holds takes)
  · intro other queued number read
    obtain ⟨apart, read⟩ := State.read_writeSeq read
    have different : (requests queued.client).key ≠ event.counter := by
      rw [counter]
      exact fun same => apart (numbered.alone _ _ _ _ _ _ read holds same)
    rw [next, if_neg different]
    exact numbered.current other queued number read
  · intro other queued number counted
    rcases State.numbered_writeSeq counted with ⟨_, rfl, rfl⟩ | same
    · rw [next, if_pos counter.symm]
      exact Nat.lt_succ_self _
    · exact grows (numbered.counted other queued number same)
  · exact fun _ _ _ _ _ _ takes takes' => numbered.single _ _ _ _ _ _
      (State.takes_writeSeq holds takes) (State.takes_writeSeq holds takes')
  · exact fun _ _ _ _ _ _ read read' => numbered.alone _ _ _ _ _ _
      (State.read_writeSeq read).2 (State.read_writeSeq read').2
  · exact fun other opened number member => grows (numbered.below other
      (opened.mono rfl fun queued inside => State.writeSeq_events here _ ▸ inside) number member)
  · intro other queued member
    rw [State.writeSeq_events here] at member
    exact numbered.counters other queued member

theorem emit_numbered {thread : Thread} (numbered : Numbered requests s)
    (taken : emit s thread = some s') : Numbered requests s' := by
  obtain ⟨event, seq, rest, here, rfl⟩ := emit_eq taken
  have holds : (s.workers thread).numbered = some (event, seq) := by rw [here]
  have earlier := numbered.flight thread event seq (.inr holds)
  have later := numbered.counted thread event seq holds
  refine { increasing := ?_, flight := ?_, current := ?_, counted := ?_, single := ?_, alone := ?_,
           below := ?_, counters := ?_ }
  · intro other
    rw [State.numbers_deliver]
    split
    · rw [List.pairwise_append]
      refine ⟨numbered.increasing event.client, List.pairwise_singleton _ _, ?_⟩
      intro a before b last
      rw [List.mem_singleton.mp last]
      exact earlier a before
    · exact numbered.increasing other
  · intro other queued number takes
    obtain ⟨apart, takes⟩ := State.takes_deliver takes
    have different : queued.client ≠ event.client := by
      intro same
      exact apart (numbered.single _ _ _ _ _ _ takes (.inr holds) same)
    rw [State.numbers_deliver, if_neg different]
    exact numbered.flight other queued number takes
  · exact fun other queued number read =>
      numbered.current other queued number (State.read_deliver read).2
  · exact fun other queued number counted =>
      numbered.counted other queued number (State.numbered_deliver counted).2
  · exact fun _ _ _ _ _ _ takes takes' => numbered.single _ _ _ _ _ _
      (State.takes_deliver takes).2 (State.takes_deliver takes').2
  · exact fun _ _ _ _ _ _ read read' => numbered.alone _ _ _ _ _ _
      (State.read_deliver read).2 (State.read_deliver read').2
  · intro other opened number member
    have still : Open s other := opened.mono rfl fun _ => State.deliver_events here
    rw [State.numbers_deliver] at member
    split at member
    next same =>
      subst same
      rcases List.mem_append.mp member with older | last
      · exact numbered.below event.client still number older
      · rw [List.mem_singleton.mp last]
        exact later
    next => exact numbered.below other still number member
  · exact fun other queued member =>
      numbered.counters other queued (State.deliver_events here member)

theorem catchUp_counters (turn : inTurn requests s (.catchUp client) = true) :
    ∀ event ∈ replay (requests client) s client, event.counter = (requests client).key := by
  intro event member
  simp only [inTurn, Bool.or_eq_true, Bool.not_eq_true', List.isEmpty_iff] at turn
  rcases turn with without | nothing
  · obtain ⟨_, stream, counter, _⟩ := mem_replay member
    rw [counter, stream, Request.key_of_noExchange without]
  · rw [nothing] at member
    cases member

theorem step_numbered [QueryLanguage] {a : Action} (numbered : Numbered requests s)
    (wired : Wired requests s) (turn : inTurn requests s a = true) (taken : step requests s a = some s') :
    Numbered requests s' := by
  cases a with
  | write provider dataSchema rows =>
      cases taken
      exact { numbered with }
  | update key added modified nowNs => exact update_numbered numbered taken
  | reset client => exact reset_numbered numbered wired turn taken
  | subscribe client creation => exact subscribe_numbered numbered wired taken
  | takeSnapshot client nowNs failure =>
      obtain ⟨handle, _, ⟨text, _, rfl⟩ | ⟨_, spec, _, _, rfl⟩⟩ := takeSnapshot_eq taken
      · exact { numbered with }
      · exact numbered.queue fun event member => (mem_snapshotEvents member).2.2.1
  | catchUp client =>
      obtain ⟨handle, watermark, _, _, rfl⟩ := catchUp_eq taken
      exact numbered.queue (catchUp_counters turn)
  | boundary client =>
      obtain ⟨handle, watermark, _, _, rfl⟩ := boundary_eq taken
      apply numbered.queue
      intro event member
      rw [List.mem_singleton.mp member]
      rfl
  | detach client =>
      obtain ⟨handle, _, _, rfl⟩ := detach_eq taken
      refine { numbered with below := ?_ }
      intro other opened seq member
      refine numbered.below other ?_ seq member
      rcases opened with ⟨held, found, known, id⟩ | queued
      · change (s.feeder.unsubscribe handle).handles.lookup held = some found at known
        rw [MarketFeeder.handles_unsubscribe, Dict.lookup_erase] at known
        split at known
        next => cases known
        next => exact .inl ⟨held, found, known, id⟩
      · exact .inr queued
  | number thread => exact number_numbered numbered wired turn taken
  | advance thread => exact advance_numbered numbered wired taken
  | emit thread => exact emit_numbered numbered taken

theorem start_numbered (feeder : MarketFeeder) (seqs : Dict String Nat)
    (tables : String → String → List Row) : Numbered requests (.start feeder seqs tables) where
  increasing _ := .nil
  flight _ _ _ takes := by rcases takes with holds | holds <;> cases holds
  current _ _ _ holds := by cases holds
  counted _ _ _ holds := by cases holds
  single _ _ _ _ _ _ takes := by rcases takes with holds | holds <;> cases holds
  alone _ _ _ _ _ _ holds := by cases holds
  below _ _ _ member := by cases member
  counters _ _ member := by cases member

theorem numbers_increase [QueryLanguage] {feeder : MarketFeeder} {seqs : Dict String Nat}
    {tables : String → String → List Row}
    (reached : Reaches (step requests) (fun s a => inTurn requests s a = true)
      (.start feeder seqs tables) s)
    (client : Nat) : (s.numbers client).Pairwise (· < ·) := by
  have both : Wired requests s ∧ Numbered requests s := by
    apply reached.invariant fun s => Wired requests s ∧ Numbered requests s
    · exact ⟨start_wired feeder seqs tables, start_numbered feeder seqs tables⟩
    · rintro s a s' ⟨wired, numbered⟩ turn taken
      exact ⟨step_wired wired taken, step_numbered numbered wired turn taken⟩
  exact both.2.increasing client

end Numbers

attribute [local instance] asciiUppercase equalityTests

-- The second client attaches when the first one is gone.
theorem numbers_increase_in_turn :
    ∃ s, Reaches (step tradeRequests) (fun s a => inTurn tradeRequests s a = true)
        (.start {} ∅ fun _ _ => []) s ∧
      s.numbers 0 = [0, 1, 2] ∧ s.numbers 1 = [0, 1] ∧ (s.numbers 0).Pairwise (· < ·) := by
  obtain ⟨s, reached, numbers⟩ := reaches_allowed_of_check (step tradeRequests)
    (fun s a => inTurn tradeRequests s a = true) (.start {} ∅ fun _ _ => [])
    ([tradesUpTo 1000000000] ++ attaches 0 ++
      [tradesUpTo 2000000000, .update "binance|trades|BTCUSDT" [1] [] 2050000000] ++
      emits .updates ++ [.detach 0] ++ attaches 1)
    (fun s => s.numbers 0 = [0, 1, 2] ∧ s.numbers 1 = [0, 1]) (by decide +kernel)
    (by decide +kernel)
  obtain ⟨first, second⟩ := of_decide_eq_true numbers
  exact ⟨s, reached, first, second, numbers_increase reached 0⟩

-- The second client attaches while the first one is subscribed.
theorem attach_resets_other_client :
    ∃ s, Reaches (step tradeRequests) anyStep (.start {} ∅ fun _ _ => []) s ∧
      s.numbers 0 = [0, 1, 0] ∧ ¬ (s.numbers 0).Pairwise (· < ·) := by
  obtain ⟨s, reached, numbers⟩ := reaches_of_check (step tradeRequests) (.start {} ∅ fun _ _ => [])
    ([tradesUpTo 1000000000] ++ attaches 0 ++
      [.reset 1, tradesUpTo 2000000000, .update "binance|trades|BTCUSDT" [1] [] 2050000000] ++
      emits .updates)
    (fun s => s.numbers 0 = [0, 1, 0]) (by decide +kernel)
  have same := of_decide_eq_true numbers
  refine ⟨s, reached, same, ?_⟩
  rw [same]
  decide

end DeepFeeder.Gapless
