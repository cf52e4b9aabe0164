import Mathlib.Order.Basic
import DeepFeeder.Client.Stream

set_option autoImplicit false

namespace DeepFeeder.Client

open Transition
open Gapless (Request Wired EventsMeet)

/-- What the server used for a connection of a stream that had a watermark already: the start of its
snapshot, the rows of the stream's own in the table, and those that the snapshot has, if it did not
fail. -/
structure Resumption where
  watermarkNs : Int
  startNs : Int
  stored : List Row
  sent : Option (List Row)

structure Resumption.Gapless (resumption : Resumption) : Prop where
  start : resumption.startNs ≤ resumption.watermarkNs
  rows : ∀ rows, resumption.sent = some rows → ∀ row ∈ resumption.stored,
    resumption.watermarkNs ≤ row.time → row ∈ rows

structure History where
  session : Session
  resumptions : List Resumption

def storedRows [Uppercase] [QueryLanguage] (r : Request) (server : Gapless.State) : List Row :=
  match schemas r.provider r.dataSchema with
  | none => []
  | some spec =>
      Query.rows { symbol := r.symbol, exchange := r.exchange } spec
        (server.tables r.provider r.dataSchema)

def resumption [Uppercase] [QueryLanguage] (r : Request) (server : Gapless.State)
    (nowNs watermarkNs : Int) (failure : Option String) : Resumption :=
  { watermarkNs, startNs := r.startNs.getD (dayStart nowNs), stored := storedRows r server
    sent := match failure, schemas r.provider r.dataSchema with
      | none, some spec => some (Gapless.snapshotTable server r spec nowNs).rows
      | _, _ => none }

def resumptionsOf [Uppercase] [QueryLanguage] (s : Session) : Action → List Resumption
  | .server (.takeSnapshot client nowNs failure) =>
      match s.connection, s.stream.lastWatermarkNs with
      | some (current, _), some watermarkNs =>
          if current = client then [resumption s.stream.request s.server nowNs watermarkNs failure]
          else []
      | _, _ => []
  | _ => []

namespace History

def start (stream : StreamWorker) (feeder : MarketFeeder) (seqs : Dict String Nat)
    (tables : String → String → List Row) : History :=
  { session := { server := .start feeder seqs tables, stream := { stream with lastWatermarkNs := none } }
    resumptions := [] }

def step [Uppercase] [QueryLanguage] (requests : Nat → Request) (h : History) (a : Action) :
    Option History :=
  (h.session.step requests a).map fun session =>
    { session, resumptions := h.resumptions ++ resumptionsOf h.session a }

end History

-- A stream without `since_ns` resumes on the UTC day of its last watermark or before; one with it has
-- no watermark from the part of a second that was cut off `since_ns`.
def inTime (stream : StreamWorker) (nowNs watermarkNs : Int) : Bool :=
  match stream.sinceNs with
  | some since => !(decide (wholeSecond since ≤ watermarkNs) && decide (watermarkNs < since))
  | none => decide (nowNs / 86400000000000 ≤ watermarkNs / 86400000000000)

def resumesInTime (s : Session) : Action → Bool
  | .server (.takeSnapshot client nowNs _) =>
      match s.connection, s.stream.lastWatermarkNs with
      | some (current, _), some watermarkNs =>
          current ≠ client || inTime s.stream nowNs watermarkNs
      | _, _ => true
  | _ => true

def Back (r : Request) (watermarkNs : Int) : Prop :=
  ∀ since, r.startNs = some since → wholeSecond since ≤ watermarkNs

def EventBack (requests : Nat → Request) (client : Nat) (event : Gapless.Event) : Prop :=
  ∀ w, event.watermarkNs = some w → Back (requests client) w

def heldWatermark : Gapless.AttachPc → Option Int
  | .snapshotted _ watermark | .caughtUp _ watermark => watermark
  | _ => none

structure Resumable [Uppercase] (requests : Nat → Request) (s : Session) : Prop where
  wired : Wired requests s.server
  held : ∀ client w, heldWatermark (s.server.pc client) = some w → Back (requests client) w
  events : EventsMeet (EventBack requests) s.server
  connected : ∀ client handled, s.connection = some (client, handled) →
    requests client = s.stream.request
  last : ∀ w, s.stream.lastWatermarkNs = some w → Back s.stream.request w

def ComesLive [Uppercase] (requests : Nat → Request) (feeder : MarketFeeder) (r : Request)
    (client : Nat) : Prop :=
  ∀ batch part table,
    (part, some table) ∈
        (if r.onlyCompleted then Gapless.completedParts r.timeCol batch
          else Gapless.batchParts r.timeCol batch) →
      table.rows ≠ [] → (filterFields (MarketFeeder.info (r.sub client)).fields table).isSome = true →
        ∃ event ∈ Gapless.emitCompleted requests feeder r.key batch,
          event.client = client ∧ event.phase = .live ∧ event.table.rows = table.rows

variable {requests : Nat → Request} {client : Nat} {r : Request} {s s' : Session}
  {server server' : Gapless.State} {event : Gapless.Event}

section Watermarks

open Gapless

theorem emitTables_watermark {stream counter : String} {phase : Phase}
    {parts : List (Part × Option PaTable)}
    (member : event ∈ emitTables client stream counter phase parts) : event.watermarkNs = none := by
  unfold emitTables at member
  obtain ⟨⟨part, table⟩, _, made⟩ := List.mem_filterMap.mp member
  cases table with
  | none => cases made
  | some table =>
      simp only at made
      split at made
      next => cases made
      next =>
        cases made
        rfl

variable [Uppercase]

theorem emitCompleted_watermark {feeder : MarketFeeder} {key : String} {batch : Batch}
    (member : event ∈ emitCompleted requests feeder key batch) : event.watermarkNs = none := by
  unfold emitCompleted at member
  obtain ⟨entry, _, made⟩ := List.mem_flatMap.mp member
  simp only at made
  split at made
  next => exact emitTables_watermark made
  next => cases made

theorem replay_watermark (member : event ∈ replay r server client) : event.watermarkNs = none := by
  unfold replay catchupSinceNs at member
  split at member
  next =>
    simp only at member
    split at member
    next => cases member
    next =>
      obtain ⟨batch, _, made⟩ := List.mem_flatMap.mp member
      split at made
      next => exact emitTables_watermark made
      next => cases made
  next => cases member

theorem snapshotEvents_watermark {table : PaTable} {watermarkNs : Option Int}
    (member : event ∈ snapshotEvents r client table watermarkNs) :
    event.watermarkNs = watermarkNs := by
  unfold snapshotEvents at member
  simp only at member
  split at member
  next => rw [List.mem_singleton.mp member]
  next =>
    obtain ⟨row, _, rfl⟩ := List.mem_map.mp member
    rfl

variable [QueryLanguage]

theorem watermark_back {spec : SchemaSpec} {nowNs w : Int}
    (chosen : watermark spec (snapshotTable server r spec nowNs) = some w) : Back r w := by
  intro since start
  obtain ⟨row, picked, rfl⟩ := Option.map_eq_some_iff.mp chosen
  obtain ⟨_, selected⟩ := mem_snapshotRange (watermarkRow_mem picked)
  apply Query.start_le _ selected
  rw [Request.query, start]
  rfl

theorem queued_back {a : Gapless.Action}
    (held : ∀ client w, heldWatermark (server.pc client) = some w → Back (requests client) w) :
    ∀ event ∈ queued requests server a, EventBack requests event.client event := by
  intro event member w given
  obtain ⟨key, added, modified, nowNs, lsn, rfl, _, emitted⟩ |
    ⟨client, nowNs, spec, rfl, _, snapshot⟩ | ⟨client, rfl, replayed⟩ |
    ⟨client, handle, watermark, rfl, here, rfl⟩ := mem_queued member
  · rw [emitCompleted_watermark emitted] at given
    cases given
  · rw [snapshotEvents_watermark snapshot] at given
    rw [(mem_snapshotEvents snapshot).1]
    exact watermark_back given
  · rw [replay_watermark replayed] at given
    cases given
  · apply held client w
    rw [here]
    exact given

theorem step_held {a : Gapless.Action}
    (held : ∀ client w, heldWatermark (server.pc client) = some w → Back (requests client) w)
    (taken : Gapless.step requests server a = some server') :
    ∀ client w, heldWatermark (server'.pc client) = some w → Back (requests client) w := by
  have moved {client : Nat} (pc : AttachPc)
      (new : ∀ w, heldWatermark pc = some w → Back (requests client) w) :
      ∀ other w, heldWatermark ((server.setPc client pc).pc other) = some w →
        Back (requests other) w := by
    intro other w given
    rw [State.setPc_pc] at given
    split at given
    next same =>
      rw [same]
      exact new w given
    next => exact held other w given
  cases a with
  | write provider dataSchema rows => cases taken; exact held
  | update key added modified nowNs =>
      obtain ⟨lsn, _, _, rfl⟩ := update_eq taken
      exact held
  | reset client =>
      obtain ⟨_, ⟨text, rfl⟩ | rfl⟩ := reset_eq taken
      · exact moved _ (by simp [heldWatermark])
      · exact moved .reset (by simp [heldWatermark])
  | subscribe client creation =>
      obtain ⟨_, ⟨text, feeder, _, rfl⟩ | ⟨handle, feeder, _, rfl⟩⟩ := subscribe_eq taken
      · exact moved (.failed text) (by simp [heldWatermark])
      · exact moved (.subscribed handle) (by simp [heldWatermark])
  | takeSnapshot client nowNs failure =>
      obtain ⟨handle, _, ⟨text, _, rfl⟩ | ⟨_, spec, _, _, rfl⟩⟩ := takeSnapshot_eq taken
      · exact moved _ (by simp [heldWatermark])
      · exact moved _ fun w given => watermark_back given
  | catchUp client =>
      obtain ⟨handle, watermark, here, _, rfl⟩ := catchUp_eq taken
      exact moved _ fun w given => held client w (by rw [here]; exact given)
  | boundary client =>
      obtain ⟨handle, watermark, _, _, rfl⟩ := boundary_eq taken
      exact moved _ (by simp [heldWatermark])
  | detach client =>
      obtain ⟨handle, _, _, rfl⟩ := detach_eq taken
      exact moved .detached (by simp [heldWatermark])
  | number thread =>
      obtain ⟨event, rest, _, rfl⟩ := number_eq taken
      exact held
  | advance thread =>
      obtain ⟨event, seq, rest, _, rfl⟩ := advance_eq taken
      exact held
  | emit thread =>
      obtain ⟨event, seq, rest, _, rfl⟩ := emit_eq taken
      exact held

end Watermarks

theorem step_resumable [Uppercase] [QueryLanguage] {a : Action} (resumable : Resumable requests s)
    (taken : s.step requests a = some s') : Resumable requests s' := by
  cases a with
  | server a =>
      obtain ⟨server, stepped, rfl⟩ := Option.map_eq_some_iff.mp taken
      exact
        { wired := Gapless.step_wired resumable.wired stepped
          held := step_held resumable.held stepped
          events := Gapless.step_eventsMeet resumable.events (queued_back resumable.held) stepped
          connected := resumable.connected
          last := resumable.last }
  | connect client =>
      simp only [Session.step, Session.connect] at taken
      split at taken
      next =>
        split at taken
        next same =>
          cases taken
          refine { resumable with connected := ?_, last := resumable.last }
          intro other handled here
          cases here
          exact same
        next => cases taken
      next => cases taken
  | recv =>
      simp only [Session.step, Session.recv] at taken
      split at taken
      next => cases taken
      next client handled here =>
        obtain ⟨sent, found, rfl⟩ := Option.map_eq_some_iff.mp taken
        have asked := resumable.connected client handled here
        refine { resumable with connected := ?_, last := ?_ }
        · intro other count now_
          cases now_
          exact asked
        · intro w given
          change sent.1.watermarkNs.or s.stream.lastWatermarkNs = some w at given
          rcases Option.or_eq_some_iff.mp given with own | ⟨_, earlier⟩
          · have back := resumable.events.received client sent (List.mem_of_getElem? found) w own
            rw [asked] at back
            exact back
          · exact resumable.last w earlier
  | disconnect =>
      obtain ⟨connection, _, rfl⟩ := Option.map_eq_some_iff.mp taken
      refine { resumable with connected := ?_, last := resumable.last }
      intro client handled here
      cases here

section Starts

variable {stream : StreamWorker} {nowNs w : Int}

theorem dayStart_le_iff : dayStart nowNs ≤ w ↔ nowNs / 86400000000000 ≤ w / 86400000000000 := by
  unfold dayStart
  omega

theorem start_le_iff (back : Back stream.request w) :
    stream.request.startNs.getD (dayStart nowNs) ≤ w ↔ inTime stream nowNs w = true := by
  change stream.sinceNs.getD (dayStart nowNs) ≤ w ↔ _
  unfold inTime
  cases since : stream.sinceNs with
  | none =>
      rw [Option.getD_none, dayStart_le_iff]
      simp
  | some since_ =>
      have above : wholeSecond since_ ≤ w := back since_ since
      simp [above]

theorem wholeSecond_start_le (back : Back r w) (start : r.startNs.getD (dayStart nowNs) ≤ w) :
    wholeSecond (r.startNs.getD (dayStart nowNs)) ≤ w := by
  cases since : r.startNs with
  | none =>
      rw [since, Option.getD_none] at start
      rw [Option.getD_none, wholeSecond_dayStart]
      exact start
  | some since_ => exact back since_ since

variable [Uppercase] [QueryLanguage]

theorem selects_from {q : Query} {spec : SchemaSpec} {row : Row} {startNs : Int}
    (selected : q.selects spec row = true) (late : wholeSecond startNs ≤ row.time) :
    Query.selects { q with startNs := some startNs } spec row = true := by
  simp only [Query.selects, Bool.and_eq_true] at selected ⊢
  obtain ⟨⟨⟨others, empty⟩, _⟩, ends⟩ := selected
  exact ⟨⟨⟨others, empty⟩, decide_eq_true late⟩, ends⟩

theorem resumption_gapless {failure : Option String} (back : Back r w)
    (start : r.startNs.getD (dayStart nowNs) ≤ w) :
    (resumption r server nowNs w failure).Gapless := by
  refine ⟨start, ?_⟩
  intro rows sent row stored late
  unfold resumption storedRows at sent stored
  simp only at sent stored late
  split at sent
  next spec registered =>
    cases sent
    rw [registered] at stored
    obtain ⟨inside, selected⟩ := Query.mem_rows.mp stored
    have rows : (Gapless.snapshotTable server r spec nowNs).rows =
        (r.query nowNs).rows spec (server.tables r.provider r.dataSchema) :=
      snapshotRange_rows registered _ _ _
    have asked : r.query nowNs =
        { symbol := r.symbol, exchange := r.exchange
          startNs := some (r.startNs.getD (dayStart nowNs)) } := rfl
    rw [rows, asked]
    have bound := wholeSecond_start_le back start
    have chosen := selects_from selected (bound.trans late)
    exact Query.mem_rows.mpr ⟨inside, chosen⟩
  next => cases sent

end Starts

theorem comesLive_of_handle [Uppercase] {feeder : MarketFeeder} {handle : String}
    (same : requests client = r)
    (known : feeder.handles.lookup handle = some (MarketFeeder.info (r.sub client))) :
    ComesLive requests feeder r client := by
  subst same
  intro batch part table listed some_ asked
  obtain ⟨sent, filtered⟩ := Option.isSome_iff_exists.mp asked
  have rows : sent.rows = table.rows := filterFields_rows filtered
  refine ⟨{ client, stream := (requests client).key, counter := (requests client).key, phase := .live
            part := some part, table := sent, watermarkNs := none }, ?_, rfl, rfl, rows⟩
  -- The event that the callback of this handle emits for the part.
  refine List.mem_flatMap.mpr ⟨_, AList.mem_lookup_iff.mp known, ?_⟩
  change _ ∈ if (requests client).key = (requests client).key then _ else _
  rw [if_pos rfl]
  refine List.mem_filterMap.mpr ⟨(part, some sent), ?_, ?_⟩
  · exact List.mem_map.mpr ⟨(part, some table), listed, congrArg (Prod.mk part) filtered⟩
  · change (if sent.rows.isEmpty = true then none else some _) = some _
    rw [if_neg (by simpa [rows] using some_)]
    rfl

theorem mem_resumptionsOf [Uppercase] [QueryLanguage] {a : Action} {found : Resumption}
    (member : found ∈ resumptionsOf s a) :
    ∃ client nowNs failure handled w, a = .server (.takeSnapshot client nowNs failure) ∧
      s.connection = some (client, handled) ∧ s.stream.lastWatermarkNs = some w ∧
      found = resumption s.stream.request s.server nowNs w failure ∧
      resumesInTime s a = inTime s.stream nowNs w := by
  unfold resumptionsOf at member
  split at member
  next client nowNs failure =>
    split at member
    next current handled w here last =>
      split at member
      next same =>
        subst same
        refine ⟨current, nowNs, failure, handled, w, rfl, here, last,
          List.mem_singleton.mp member, ?_⟩
        simp [resumesInTime, here, last]
      next => cases member
    next => cases member
  next => cases member

theorem reconnects_are_gapless [Uppercase] [QueryLanguage] {stream : StreamWorker}
    {feeder : MarketFeeder} {seqs : Dict String Nat} {tables : String → String → List Row}
    {h : History}
    (reached : Reaches (History.step requests) (fun h a => resumesInTime h.session a = true)
      (.start stream feeder seqs tables) h) :
    (∀ found ∈ h.resumptions, found.Gapless) ∧
      (∀ a, ∀ found ∈ resumptionsOf h.session a,
        found.startNs ≤ found.watermarkNs ↔ resumesInTime h.session a = true) ∧
      ∀ client handled handle, h.session.connection = some (client, handled) →
        (h.session.server.pc client).handle = some handle →
          ComesLive requests h.session.server.feeder h.session.stream.request client := by
  have invariant : Resumable requests h.session ∧ ∀ found ∈ h.resumptions, found.Gapless := by
    apply reached.invariant fun h =>
      Resumable requests h.session ∧ ∀ found ∈ h.resumptions, found.Gapless
    · refine ⟨⟨Gapless.start_wired _ _ _, ?_, Gapless.start_eventsMeet _ _ _, ?_, ?_⟩, ?_⟩
      · intro client w given
        cases given
      · intro client handled here
        cases here
      · intro w given
        cases given
      · intro found member
        cases member
    · rintro h a h' ⟨resumable, gapless⟩ inTime taken
      obtain ⟨session, stepped, rfl⟩ := Option.map_eq_some_iff.mp taken
      refine ⟨step_resumable resumable stepped, ?_⟩
      intro found member
      rcases List.mem_append.mp member with before | new
      · exact gapless found before
      · obtain ⟨client, nowNs, failure, handled, w, rfl, _, last, rfl, same⟩ :=
          mem_resumptionsOf new
        rw [same] at inTime
        have back := resumable.last w last
        exact resumption_gapless back ((start_le_iff back).mpr inTime)
  obtain ⟨resumable, gapless⟩ := invariant
  refine ⟨gapless, ?_, ?_⟩
  · intro a found member
    obtain ⟨client, nowNs, failure, handled, w, rfl, _, last, rfl, same⟩ := mem_resumptionsOf member
    rw [same]
    exact start_le_iff (resumable.last w last)
  · intro client handled handle here held
    have asked := resumable.connected client handled here
    have known := (resumable.wired.subscribed client handle held).2
    rw [asked] at known
    exact comesLive_of_handle asked known

attribute [local instance] asciiUppercase equalityTests

def trades : StreamWorker := { provider := "binance", dataSchema := "trades", symbol := "BTCUSDT" }

def tradesRequests (_ : Nat) : Request := trades.request

def connects (client : Nat) (nowNs : Int) : List Action :=
  [.connect client, .server (.reset client), .server (.subscribe client (.started 256)),
    .server (.takeSnapshot client nowNs none), .server (.number (.client client)),
    .server (.advance (.client client)), .server (.emit (.client client)), .recv]

def oneTrade : Action :=
  .server (.write "binance" "trades" [Gapless.tradeAt 1000000000])

-- The stream reconnects later on the day of its watermark.
theorem reconnects_are_gapless_same_day :
    ∃ h, Reaches (History.step tradesRequests) (fun h a => resumesInTime h.session a = true)
        (.start trades {} ∅ fun _ _ => []) h ∧
      h.resumptions.map (fun found => (found.startNs, found.watermarkNs)) = [(0, 1000000000)] ∧
      ∀ found ∈ h.resumptions, found.Gapless := by
  obtain ⟨h, reached, resumptions⟩ := reaches_allowed_of_check (History.step tradesRequests)
    (fun h a => resumesInTime h.session a = true) (.start trades {} ∅ fun _ _ => [])
    ([oneTrade] ++ connects 0 2000000000 ++ [.disconnect] ++ connects 1 86399000000000)
    (fun h => h.resumptions.map (fun found => (found.startNs, found.watermarkNs)) =
      [(0, 1000000000)]) (by decide +kernel) (by decide +kernel)
  exact ⟨h, reached, of_decide_eq_true resumptions, (reconnects_are_gapless reached).1⟩

-- The stream reconnects after midnight.
theorem reconnect_after_midnight_skips :
    ∃ h, Reaches (History.step tradesRequests) anyStep (.start trades {} ∅ fun _ _ => []) h ∧
      h.resumptions.map (fun found => (found.startNs, found.watermarkNs)) =
        [(86400000000000, 1000000000)] ∧
      ¬ ∀ found ∈ h.resumptions, found.Gapless := by
  obtain ⟨h, reached, resumptions⟩ := reaches_of_check (History.step tradesRequests)
    (.start trades {} ∅ fun _ _ => [])
    ([oneTrade] ++ connects 0 2000000000 ++ [.disconnect] ++ connects 1 86401000000000)
    (fun h => h.resumptions.map (fun found => (found.startNs, found.watermarkNs)) =
      [(86400000000000, 1000000000)]) (by decide +kernel)
  have times := of_decide_eq_true resumptions
  refine ⟨h, reached, times, ?_⟩
  intro gapless
  have member : (86400000000000, 1000000000) ∈
      h.resumptions.map fun found => (found.startNs, found.watermarkNs) := by
    rw [times]
    exact List.mem_singleton_self _
  obtain ⟨found, inside, same⟩ := List.mem_map.mp member
  have start := (gapless found inside).start
  simp only [Prod.mk.injEq] at same
  omega

end DeepFeeder.Client
