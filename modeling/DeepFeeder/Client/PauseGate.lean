import DeepFeeder.Client.TradingBot

set_option autoImplicit false

namespace DeepFeeder.Client

open Transition

universe u

/-- A bot, whether it is on hold since a `pause`, whether the envelope that is next to be dispatched
had passed its pause check by then, and the other envelopes that were dispatched on hold. -/
structure Held (Env : Type u) where
  bot : Bot Env
  onHold : Bool := false
  exempt : Bool := false
  heldDispatches : List Env := []

namespace Held

variable {Env : Type u}

def note (w : Held Env) : BotAction Env → Held Env
  | .pause => { w with onHold := true, exempt := if w.onHold then w.exempt else w.bot.pc.isPassed }
  | .resume | .stop => { w with onHold := false }
  | .gateTest => { w with exempt := false }
  | .dispatch =>
      match w.bot.pc with
      | .passed env =>
          if w.onHold && !w.exempt then { w with heldDispatches := w.heldDispatches ++ [env] } else w
      | _ => w
  | _ => w

def step (w : Held Env) (a : BotAction Env) : Option (Held Env) :=
  (w.bot.step a).map fun bot => { w.note a with bot }

-- No envelope comes to the pause check on hold, and none is in it when the hold starts.
def keepsHold (w : Held Env) : BotAction Env → Bool
  | .gateTest => !w.onHold
  | .pause => !w.bot.pc.isWaiting
  | _ => true

structure Quiet (w : Held Env) : Prop where
  waiting : w.onHold = true → w.bot.pc.isWaiting = false
  passed : w.onHold = true → w.bot.pc.isPassed = true → w.exempt = true
  dispatches : w.heldDispatches = []

variable {w w' : Held Env} {a : BotAction Env}

theorem step_eq (taken : w.step a = some w') :
    ∃ bot, w.bot.step a = some bot ∧ w' = { w.note a with bot } := by
  obtain ⟨bot, stepped, rfl⟩ := Option.map_eq_some_iff.mp taken
  exact ⟨bot, stepped, rfl⟩

theorem Quiet.away (quiet : Quiet w) {bot : Bot Env} (waiting : bot.pc.isWaiting = false)
    (passed : bot.pc.isPassed = false) : Quiet { w with bot } where
  waiting _ := waiting
  passed _ isPassed := by
    change bot.pc.isPassed = true at isPassed
    rw [passed] at isPassed
    cases isPassed
  dispatches := quiet.dispatches

theorem Quiet.still (quiet : Quiet w) {bot : Bot Env} (same : bot.pc = w.bot.pc) :
    Quiet { w with bot } where
  waiting hold := by
    change bot.pc.isWaiting = false
    rw [same]
    exact quiet.waiting hold
  passed hold isPassed := by
    change bot.pc.isPassed = true at isPassed
    rw [same] at isPassed
    exact quiet.passed hold isPassed
  dispatches := quiet.dispatches

theorem Quiet.free (dispatches : w.heldDispatches = []) (free : w.onHold = false) : Quiet w := by
  refine ⟨fun hold => ?_, fun hold => ?_, dispatches⟩
  · rw [free] at hold
    cases hold
  · rw [free] at hold
    cases hold

theorem note_dispatch (quiet : Quiet w) : w.note .dispatch = w := by
  simp only [note]
  split
  next env here =>
    split
    next late =>
      rw [Bool.and_eq_true, Bool.not_eq_true'] at late
      have exempt := quiet.passed late.1 (by rw [here]; rfl)
      rw [late.2] at exempt
      cases exempt
    next => rfl
  next => rfl

theorem step_quiet (quiet : Quiet w) (keeps : w.keepsHold a = true) (taken : w.step a = some w') :
    Quiet w' := by
  obtain ⟨bot, stepped, rfl⟩ := step_eq taken
  cases a with
  | start =>
      simp only [Bot.step, Bot.start] at stepped
      split at stepped
      next => cases stepped; exact quiet.away rfl rfl
      next => cases stepped
  | pause =>
      cases stepped
      have unchecked : w.bot.pc.isWaiting = false := by simpa [keepsHold] using keeps
      refine ⟨fun _ => unchecked, ?_, quiet.dispatches⟩
      intro _ passed
      change (if w.onHold then w.exempt else w.bot.pc.isPassed) = true
      split
      next hold => exact quiet.passed hold passed
      next => exact passed
  | resume => exact .free quiet.dispatches rfl
  | stop => exact .free quiet.dispatches rfl
  | gateTest =>
      have free : w.onHold = false := by simpa [keepsHold] using keeps
      exact .free quiet.dispatches free
  | wake =>
      simp only [Bot.step, Bot.wake] at stepped
      split at stepped
      next env here _ =>
        cases stepped
        -- On hold nothing is there to wake.
        have free : w.onHold = false := by
          by_contra hold
          have unchecked := quiet.waiting (by simpa using hold)
          rw [here] at unchecked
          cases unchecked
        exact .free quiet.dispatches free
      next => cases stepped
  | dispatch =>
      obtain ⟨_, _, _, rfl, _, apart⟩ := Bot.loop_step rfl (by simp) stepped
      obtain ⟨waiting, passed⟩ := apart (by simp) (by simp)
      rw [note_dispatch quiet]
      exact quiet.away waiting passed
  | loopTest | subscribe | get | backOff | leave =>
      obtain ⟨_, _, _, rfl, _, apart⟩ := Bot.loop_step rfl (by simp) stepped
      obtain ⟨waiting, passed⟩ := apart (by simp) (by simp)
      exact quiet.away waiting passed
  | _ => exact quiet.still (Bot.step_pc rfl stepped)

theorem dispatch_held {env : Env} (hold : w.onHold = true) (late : w.exempt = false)
    (here : w.bot.pc = .passed env) :
    ∃ w', w.step .dispatch = some w' ∧ env ∈ w'.heldDispatches := by
  refine ⟨{ w with bot := { w.bot with pc := .loopTest },
                   heldDispatches := w.heldDispatches ++ [env] }, ?_, by simp⟩
  simp [step, Bot.step, Bot.dispatch, note, here, hold, late]

theorem wake_held {env : Env} (hold : w.onHold = true) (late : w.exempt = false)
    (paused : w.bot.paused = true) (here : w.bot.pc = .waiting env) :
    ∃ w', run step w [.wake, .dispatch] = some w' ∧ env ∈ w'.heldDispatches := by
  have woken : w.step .wake = some { w with bot := { w.bot with pc := .passed env } } := by
    simp [step, Bot.step, Bot.wake, note, here, paused]
  obtain ⟨w', dispatched, member⟩ :=
    dispatch_held (w := { w with bot := { w.bot with pc := .passed env } }) hold late rfl
  exact ⟨w', by simp [run, woken, dispatched], member⟩

theorem gate_held {env : Env} (hold : w.onHold = true) (here : w.bot.pc = .gate env) :
    ∃ actions w', run step w (.gateTest :: actions) = some w' ∧ env ∈ w'.heldDispatches := by
  cases paused : w.bot.paused with
  | true =>
      have tested : w.step .gateTest =
          some { w with bot := { w.bot with pc := .waiting env }, exempt := false } := by
        simp [step, Bot.step, Bot.gateTest, note, here, paused]
      obtain ⟨w', woken, member⟩ := wake_held
        (w := { w with bot := { w.bot with pc := .waiting env }, exempt := false }) hold rfl paused rfl
      exact ⟨[.wake, .dispatch], w', by rw [run, tested]; exact woken, member⟩
  | false =>
      have tested : w.step .gateTest =
          some { w with bot := { w.bot with pc := .passed env }, exempt := false } := by
        simp [step, Bot.step, Bot.gateTest, note, here, paused]
      obtain ⟨w', dispatched, member⟩ := dispatch_held
        (w := { w with bot := { w.bot with pc := .passed env }, exempt := false }) hold rfl rfl
      exact ⟨[.dispatch], w', by simp [run, tested, dispatched], member⟩

theorem paused_bots_do_not_trade {bot : Bot Env}
    (reached : Reaches step (fun w a => w.keepsHold a = true) { bot } w) :
    w.heldDispatches = [] ∧
      ∀ env, w.onHold = true → w.bot.pc = .gate env →
        ∃ actions w', run step w (.gateTest :: actions) = some w' ∧ env ∈ w'.heldDispatches := by
  have quiet : Quiet w := by
    apply reached.invariant Quiet
    · refine ⟨fun hold => ?_, fun hold => ?_, rfl⟩
      · cases hold
      · cases hold
    · exact fun w a w' quiet keeps taken => step_quiet quiet keeps taken
  exact ⟨quiet.dispatches, fun env hold here => gate_held hold here⟩

def takesOne : List (BotAction Nat) := [.start, .loopTest, .subscribe true, .onData 0 7, .get]

-- The envelope has passed its check when the bot is paused.
theorem paused_bots_do_not_trade_after_check :
    ∃ w : Held Nat, Reaches step (fun w a => w.keepsHold a = true) { bot := {} } w ∧
      w.onHold = true ∧ w.bot.queue = [] ∧ w.heldDispatches = [] := by
  obtain ⟨w, reached, check⟩ := reaches_allowed_of_check step (fun w a => w.keepsHold a = true)
    { bot := {} } (takesOne ++ [.gateTest, .pause, .dispatch])
    (fun w => w.onHold && w.bot.queue.isEmpty) (by decide +kernel) (by decide +kernel)
  simp only [Bool.and_eq_true, List.isEmpty_iff] at check
  exact ⟨w, reached, check.1, check.2, (paused_bots_do_not_trade reached).1⟩

-- The bot is paused before the check, whose wait does not wait.
theorem paused_bot_dispatches :
    ∃ w : Held Nat, Reaches step anyStep { bot := {} } w ∧ w.bot.paused = true ∧
      w.heldDispatches = [7] := by
  obtain ⟨w, reached, check⟩ := reaches_of_check step { bot := {} }
    (takesOne ++ [.pause, .gateTest, .wake, .dispatch])
    (fun w => w.bot.paused && decide (w.heldDispatches = [7])) (by decide +kernel)
  simp only [Bool.and_eq_true, decide_eq_true_eq] at check
  exact ⟨w, reached, check.1, check.2⟩

end Held

end DeepFeeder.Client
