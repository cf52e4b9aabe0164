import DeepFeeder.Fanout.Core
import DeepFeeder.Shared.Transition

set_option autoImplicit false

-- The tasks that send events run while the handler waits for a frame of its client, and a send that
-- fails schedules an unsubscribe of its own.
namespace DeepFeeder.WsStream

inductive Exc where
  | webSocketDisconnect
  | other
  | cancelled
  deriving DecidableEq

-- `except Exception`: a cancellation is a BaseException only.
def Exc.isException : Exc → Bool
  | .webSocketDisconnect | .other => true
  | .cancelled => false

inductive Received where
  | text
  | raised (e : Exc)
  deriving DecidableEq

/-- Where the handler is: in `receive_text`, in the `sleep(0)` of the inner handler, in the `finally`
of the outer `try`, or gone. -/
inductive Handler where
  | receiving
  | sleeping
  | finishing (pending : Option Exc)
  | returned
  | raised (e : Exc)
  deriving DecidableEq

structure State where
  handler : Handler
  receives : Nat
  closed : Bool
  unsubDone : Bool
  -- Tasks in `send_text`, in `ws.close`, and scheduled `_do_unsubscribe` tasks.
  sending : Nat
  closing : Nat
  scheduled : Nat
  -- The handles given to `market_feeder.unsubscribe`.
  calls : List String
  deriving DecidableEq

inductive Action where
  | proceed
  | startSend
  | endSend (fails : Bool)
  | endClose
  | runScheduled

def attached : State :=
  { handler := .receiving, receives := 0, closed := false, unsubDone := false, sending := 0
    closing := 0, scheduled := 0, calls := [] }

-- The call and the flag are set without an await between them; what `unsubscribe` raises is dropped.
def doUnsubscribe (handle : String) (s : State) : State :=
  if s.unsubDone then s
  else
    { s with
      calls := if handle = "" then s.calls else s.calls ++ [handle]
      unsubDone := true }

-- `except WebSocketDisconnect: pass` around the loop.
def leave (e : Exc) : Handler :=
  if e = .webSocketDisconnect then .finishing none else .finishing (some e)

def proceed (recv : Nat → Received) (handle : String) (s : State) : Option State :=
  match s.handler with
  | .receiving =>
      let received := { s with receives := s.receives + 1 }
      match recv s.receives with
      | .text => some received
      | .raised e =>
          if e.isException then some { received with handler := .sleeping }
          else some { received with handler := leave e }
  | .sleeping => some { s with handler := .receiving }
  | .finishing pending =>
      let done := doUnsubscribe handle s
      match pending with
      | none => some { done with handler := .returned }
      | some e => some { done with handler := .raised e }
  | .returned | .raised _ => none

def step (recv : Nat → Received) (handle : String) (s : State) : Action → Option State
  | .proceed => proceed recv handle s
  | .startSend => if s.closed then some s else some { s with sending := s.sending + 1 }
  | .endSend fails =>
      if s.sending = 0 then none
      else
        let sent := { s with sending := s.sending - 1 }
        if fails then some { sent with closed := true, closing := s.closing + 1 } else some sent
  | .endClose =>
      if s.closing = 0 then none
      else some { s with closing := s.closing - 1, scheduled := s.scheduled + 1 }
  | .runScheduled =>
      if s.scheduled = 0 then none
      else some (doUnsubscribe handle { s with scheduled := s.scheduled - 1 })

def Handler.ended : Handler → Bool
  | .returned | .raised _ => true
  | _ => false

variable {recv : Nat → Received} {handle : String}

structure Inv (handle : String) (s : State) : Prop where
  once : s.calls = if s.unsubDone then [handle] else []
  ended : s.handler.ended = true → s.unsubDone = true
  failed : s.closing ≠ 0 ∨ s.scheduled ≠ 0 → s.closed = true

theorem inv_attached (handle : String) : Inv handle attached := by
  constructor
  · rfl
  · intro gone
    cases gone
  · rintro (closing | scheduled)
    · exact absurd rfl closing
    · exact absurd rfl scheduled

theorem doUnsubscribe_once {s : State} (named : handle ≠ "")
    (once : s.calls = if s.unsubDone then [handle] else []) :
    (doUnsubscribe handle s).calls = [handle] ∧ (doUnsubscribe handle s).unsubDone = true := by
  unfold doUnsubscribe
  split
  next done =>
    rw [if_pos done] at once
    exact ⟨once, done⟩
  next open_ =>
    rw [if_neg open_] at once
    refine ⟨?_, rfl⟩
    simp only [once, List.nil_append]

@[simp] theorem doUnsubscribe_handler (s : State) : (doUnsubscribe handle s).handler = s.handler := by
  unfold doUnsubscribe
  split <;> rfl

@[simp] theorem doUnsubscribe_closed (s : State) : (doUnsubscribe handle s).closed = s.closed := by
  unfold doUnsubscribe
  split <;> rfl

@[simp] theorem doUnsubscribe_closing (s : State) : (doUnsubscribe handle s).closing = s.closing := by
  unfold doUnsubscribe
  split <;> rfl

@[simp] theorem doUnsubscribe_scheduled (s : State) :
    (doUnsubscribe handle s).scheduled = s.scheduled := by
  unfold doUnsubscribe
  split <;> rfl

theorem Inv.unsubscribe {s : State} (inv : Inv handle s) (named : handle ≠ "") :
    Inv handle (doUnsubscribe handle s) := by
  obtain ⟨calls, done⟩ := doUnsubscribe_once named inv.once
  constructor
  · rw [calls, done]
    rfl
  · exact fun _ => done
  · simpa using inv.failed

theorem proceed_inv {s s' : State} (named : handle ≠ "") (inv : Inv handle s)
    (taken : proceed recv handle s = some s') : Inv handle s' := by
  obtain ⟨once, ended, failed⟩ := inv
  unfold proceed at taken
  split at taken
  next receiving =>
    simp only at taken
    split at taken
    · cases taken
      exact ⟨once, by simp [receiving, Handler.ended], failed⟩
    · split at taken
      · cases taken
        exact ⟨once, by simp [Handler.ended], failed⟩
      · cases taken
        refine ⟨once, ?_, failed⟩
        unfold leave
        split
        · simp [Handler.ended]
        · simp [Handler.ended]
  next =>
    cases taken
    exact ⟨once, by simp [Handler.ended], failed⟩
  next pending finishing =>
    obtain ⟨calls, done⟩ := doUnsubscribe_once named once
    have gone (after : Handler) : Inv handle { doUnsubscribe handle s with handler := after } := by
      refine ⟨?_, fun _ => done, ?_⟩
      · rw [calls, done]
        rfl
      · simpa using failed
    simp only at taken
    split at taken
    · cases taken
      exact gone _
    · cases taken
      exact gone _
  next => cases taken
  next => cases taken

theorem step_cases {s s' : State} {a : Action} (taken : step recv handle s a = some s') :
    proceed recv handle s = some s' ∨
      (∃ sending closed closing scheduled, s' = { s with sending, closed, closing, scheduled } ∧
        (s.closed = true → closed = true) ∧
        (closing ≠ 0 ∨ scheduled ≠ 0 → closed = true ∨ s.closing ≠ 0 ∨ s.scheduled ≠ 0)) ∨
      s.scheduled ≠ 0 ∧ s' = doUnsubscribe handle { s with scheduled := s.scheduled - 1 } := by
  cases a with
  | proceed => exact .inl taken
  | startSend =>
      simp only [step] at taken
      split at taken
      · cases taken
        exact .inr (.inl ⟨_, _, _, _, rfl, id, .inr⟩)
      · cases taken
        exact .inr (.inl ⟨_, _, _, _, rfl, id, .inr⟩)
  | endSend fails =>
      simp only [step] at taken
      split at taken
      · cases taken
      · split at taken
        · cases taken
          exact .inr (.inl ⟨_, true, _, _, rfl, fun _ => rfl, fun _ => .inl rfl⟩)
        · cases taken
          exact .inr (.inl ⟨_, _, _, _, rfl, id, .inr⟩)
  | endClose =>
      simp only [step] at taken
      split at taken
      · cases taken
      next closing =>
        cases taken
        exact .inr (.inl ⟨_, _, _, _, rfl, id, fun _ => .inr (.inl closing)⟩)
  | runScheduled =>
      simp only [step] at taken
      split at taken
      · cases taken
      next scheduled =>
        cases taken
        exact .inr (.inr ⟨scheduled, rfl⟩)

theorem step_inv {s s' : State} {a : Action} (named : handle ≠ "") (inv : Inv handle s)
    (taken : step recv handle s a = some s') : Inv handle s' := by
  rcases step_cases taken with went | ⟨sending, closed, closing, scheduled, rfl, stays, since⟩ |
    ⟨scheduled, rfl⟩
  · exact proceed_inv named inv went
  · refine ⟨inv.once, inv.ended, ?_⟩
    intro working
    rcases since working with failed | before
    · exact failed
    · exact stays (inv.failed before)
  · have before : Inv handle { s with scheduled := s.scheduled - 1 } :=
      ⟨inv.once, inv.ended, fun _ => inv.failed (.inr scheduled)⟩
    exact before.unsubscribe named

abbrev Reached (recv : Nat → Received) (handle : String) : State → Prop :=
  Transition.Reaches (step recv handle) Transition.anyStep attached

theorem inv_reached {s : State} (named : handle ≠ "") (reached : Reached recv handle s) :
    Inv handle s :=
  reached.invariant (Inv handle) (inv_attached handle) fun _ _ _ inv _ taken =>
    step_inv named inv taken

theorem ended_unsubscribed {s : State} (named : handle ≠ "") (reached : Reached recv handle s)
    (ended : s.handler.ended = true) : s.calls = [handle] := by
  have inv := inv_reached named reached
  rw [inv.once, if_pos (inv.ended ended)]

def Handler.inLoop : Handler → Bool
  | .receiving | .sleeping => true
  | _ => false

/-- The `n`-th receive is the disconnect: text and errors before it, errors after it, and nobody
cancels the task. -/
structure DisconnectsAt (recv : Nat → Received) (n : Nat) : Prop where
  disconnect : recv n = .raised .webSocketDisconnect
  before : ∀ m, m < n → recv m = .text ∨ recv m = .raised .other
  after : ∀ m, n < m → recv m = .raised .webSocketDisconnect ∨ recv m = .raised .other

theorem DisconnectsAt.not_cancelled {n : Nat} (connection : DisconnectsAt recv n) (m : Nat) :
    recv m ≠ .raised .cancelled := by
  intro cancelled
  rcases Nat.lt_trichotomy m n with early | same | late
  · rcases connection.before m early with text | other
    · rw [text] at cancelled
      cases cancelled
    · rw [other] at cancelled
      cases cancelled
  · rw [same, connection.disconnect] at cancelled
    cases cancelled
  · rcases connection.after m late with again | other
    · rw [again] at cancelled
      cases cancelled
    · rw [other] at cancelled
      cases cancelled

-- The inner handler catches a disconnect with everything else, so the outer one never sees it.
theorem proceed_inLoop {s s' : State} (uncancelled : ∀ m, recv m ≠ .raised .cancelled)
    (inLoop : s.handler.inLoop = true) (taken : proceed recv handle s = some s') :
    ∃ handler receives, handler.inLoop = true ∧ s' = { s with handler, receives } := by
  unfold proceed at taken
  split at taken
  next receiving =>
    simp only at taken
    split at taken
    · cases taken
      exact ⟨s.handler, _, inLoop, rfl⟩
    next e raised =>
      have caught : e.isException = true := by
        cases e with
        | cancelled => exact absurd raised (uncancelled _)
        | webSocketDisconnect | other => rfl
      rw [if_pos caught] at taken
      cases taken
      exact ⟨.sleeping, _, rfl, rfl⟩
  next =>
    cases taken
    exact ⟨.receiving, _, rfl, rfl⟩
  next pending finishing =>
    rw [finishing] at inLoop
    cases inLoop
  next => cases taken
  next => cases taken

structure Spins (s : State) : Prop where
  inLoop : s.handler.inLoop = true
  failed : s.unsubDone = true → s.closed = true

theorem step_spins {s s' : State} {a : Action} (uncancelled : ∀ m, recv m ≠ .raised .cancelled)
    (inv : Inv handle s) (spins : Spins s) (taken : step recv handle s a = some s') : Spins s' := by
  obtain ⟨inLoop, failed⟩ := spins
  rcases step_cases taken with went | ⟨sending, closed, closing, scheduled, rfl, stays, _⟩ |
    ⟨scheduled, rfl⟩
  · obtain ⟨handler, receives, stays, rfl⟩ := proceed_inLoop uncancelled inLoop went
    exact ⟨stays, failed⟩
  · exact ⟨inLoop, fun done => stays (failed done)⟩
  · have closed := inv.failed (.inr scheduled)
    exact ⟨by simpa using inLoop, fun _ => by simpa using closed⟩

theorem spins_reached {s : State} (named : handle ≠ "")
    (uncancelled : ∀ m, recv m ≠ .raised .cancelled)
    (reached : Reached recv handle s) : Spins s := by
  have both : Inv handle s ∧ Spins s := by
    refine reached.invariant (fun s => Inv handle s ∧ Spins s) ?_ ?_
    · exact ⟨inv_attached handle, rfl, fun done => by cases done⟩
    · rintro s a s' ⟨inv, spins⟩ _ taken
      exact ⟨step_inv named inv taken, step_spins uncancelled inv spins taken⟩
  exact both.2

/-- The handler calls no receive after the disconnect, it can return, and when it returns its handle
has been unsubscribed once. -/
structure CleansUp (recv : Nat → Received) (handle : String) (n : Nat) : Prop where
  leaves : ∀ s, Reached recv handle s → s.receives ≤ n + 1
  returns : ∃ s, Reached recv handle s ∧ s.handler = .returned
  once : ∀ s, Reached recv handle s → s.handler = .returned → s.calls = [handle]

theorem handle_ne_empty [Uppercase] (sub : Subscription) : sub.handle ≠ "" := by
  intro empty
  have letters := congrArg String.length empty
  unfold Subscription.handle at letters
  rw [String.length_append, String.length_append] at letters
  have colon : ":".length = 1 := rfl
  have none : "".length = 0 := rfl
  omega

-- In every run of every connection the handler is still in its loop, and as long as no send has failed
-- the subscription is there.
theorem never_cleans_up [Uppercase] {n : Nat} (sub : Subscription)
    (connection : DisconnectsAt recv n) : ¬ CleansUp recv sub.handle n ∧
      ∀ s, Reached recv sub.handle s →
        s.handler.inLoop = true ∧ (s.closed = false → s.calls = []) := by
  have named := handle_ne_empty sub
  have spins (s : State) (reached : Reached recv sub.handle s) : Spins s :=
    spins_reached named connection.not_cancelled reached
  constructor
  · intro cleans
    obtain ⟨s, reached, returned⟩ := cleans.returns
    have inLoop := (spins s reached).inLoop
    rw [returned] at inLoop
    cases inLoop
  · intro s reached
    refine ⟨(spins s reached).inLoop, ?_⟩
    intro unfailed
    have pending : ¬ s.unsubDone = true := by
      intro done
      rw [(spins s reached).failed done] at unfailed
      cases unfailed
    rw [(inv_reached named reached).once, if_neg pending]

def silent (_ : Nat) : Received := .raised .webSocketDisconnect

theorem silent_disconnects : DisconnectsAt silent 0 :=
  { disconnect := rfl
    before := fun _ early => absurd early (Nat.not_lt_zero _)
    after := fun _ _ => .inl rfl }

def tradesClient : Subscription :=
  { provider := "binance", dataSchema := "trades", symbol := "BTCUSDT"
    callback := { id := 1, target := 1 } }

attribute [local instance] asciiUppercase

theorem silent_never_cleaned_up :
    ¬ CleansUp silent tradesClient.handle 0 ∧
      ∀ s, Reached silent tradesClient.handle s →
        s.handler.inLoop = true ∧ (s.closed = false → s.calls = []) :=
  never_cleans_up tradesClient silent_disconnects

-- It is asked for its next frame after the disconnect as before it.
theorem silent_still_receiving : ¬ CleansUp silent tradesClient.handle 0 := by
  intro cleans
  obtain ⟨s, reached, more⟩ := Transition.reaches_of_check (step silent tradesClient.handle) attached
    [.proceed, .proceed, .proceed] (fun s => s.receives == 2) rfl
  have upTo := cleans.leaves s reached
  rw [beq_iff_eq] at more
  omega

end DeepFeeder.WsStream
