import Mathlib.Logic.Function.Basic
import DeepFeeder.Shared.Transition

set_option autoImplicit false

namespace DeepFeeder.Client

universe u

inductive Pc (Env : Type u) where
  | notRunning
  | loopTest
  | subscribing
  | getting
  | gate (env : Env)
  | waiting (env : Env)
  | passed (env : Env)
  | backingOff
  | leaving

namespace Pc

variable {Env : Type u}

def isPassed : Pc Env → Bool
  | .passed _ => true
  | _ => false

def isWaiting : Pc Env → Bool
  | .waiting _ => true
  | _ => false

end Pc

-- The statements of `stop` that are done; it holds the lock till the last of them.
inductive Control where
  | free
  | flagged
  | unpaused
  | unsubscribed
  deriving DecidableEq

inductive Producer (Env : Type u) where
  | idle
  | full (env : Env)
  | dropped (env : Env)

/-- A `TradingBot`; an item without an envelope is the sentinel. -/
structure Bot (Env : Type u) where
  maxsize : Nat := 10000
  queue : List (Option Env) := []
  stopFlag : Bool := false
  paused : Bool := false
  pc : Pc Env := .notRunning
  subscribed : Bool := false
  control : Control := .free
  producers : Nat → Producer Env := fun _ => .idle

inductive BotAction (Env : Type u) where
  | start
  | stop
  | stopUnpause
  | stopUnsubscribe
  | stopPut
  | pause
  | resume
  | onData (producer : Nat) (env : Env)
  | dropOldest (producer : Nat)
  | putAgain (producer : Nat)
  | loopTest
  -- `done` tells whether the call of `subscribe` returned.
  | subscribe (done : Bool)
  | get
  | gateTest
  | wake
  | dispatch
  | backOff
  | leave

namespace Bot

variable {Env : Type u}

-- A queue without a maximal size is never full.
def hasRoom (bot : Bot Env) : Bool := bot.maxsize = 0 || bot.queue.length < bot.maxsize

-- `put_nowait`, with its exception swallowed.
def put (bot : Bot Env) (item : Option Env) : Bot Env :=
  if bot.hasRoom then { bot with queue := bot.queue ++ [item] } else bot

def setProducer (bot : Bot Env) (producer : Nat) (state : Producer Env) : Bot Env :=
  { bot with producers := Function.update bot.producers producer state }

def start (bot : Bot Env) : Option (Bot Env) :=
  match bot.control, bot.pc with
  | .free, .notRunning => some { bot with stopFlag := false, paused := false, pc := .loopTest }
  | _, _ => none

def stop (bot : Bot Env) : Option (Bot Env) :=
  match bot.control with
  | .free => some { bot with stopFlag := true, control := .flagged }
  | _ => none

def stopUnpause (bot : Bot Env) : Option (Bot Env) :=
  match bot.control with
  | .flagged => some { bot with paused := false, control := .unpaused }
  | _ => none

def stopUnsubscribe (bot : Bot Env) : Option (Bot Env) :=
  match bot.control with
  | .unpaused => some { bot with subscribed := false, control := .unsubscribed }
  | _ => none

def stopPut (bot : Bot Env) : Option (Bot Env) :=
  match bot.control with
  | .unsubscribed => some { bot.put none with control := .free }
  | _ => none

def onData (bot : Bot Env) (producer : Nat) (env : Env) : Option (Bot Env) :=
  match bot.producers producer with
  | .idle => some (if bot.hasRoom then bot.put (some env) else bot.setProducer producer (.full env))
  | _ => none

-- `get_nowait` raises when the queue is empty by now.
def dropOldest (bot : Bot Env) (producer : Nat) : Option (Bot Env) :=
  match bot.producers producer, bot.queue with
  | .full _, [] => some (bot.setProducer producer .idle)
  | .full env, _ :: rest => some { bot.setProducer producer (.dropped env) with queue := rest }
  | _, _ => none

def putAgain (bot : Bot Env) (producer : Nat) : Option (Bot Env) :=
  match bot.producers producer with
  | .dropped env => some ((bot.put (some env)).setProducer producer .idle)
  | _ => none

def loopTest (bot : Bot Env) : Option (Bot Env) :=
  match bot.pc with
  | .loopTest => some { bot with pc := if bot.stopFlag then .leaving else .subscribing }
  | _ => none

def subscribe (bot : Bot Env) (done : Bool) : Option (Bot Env) :=
  match bot.pc with
  | .subscribing =>
      some (if bot.subscribed || done then { bot with subscribed := true, pc := .getting }
        else { bot with pc := .backingOff })
  | _ => none

def get (bot : Bot Env) : Option (Bot Env) :=
  match bot.pc, bot.queue with
  | .getting, none :: rest => some { bot with queue := rest, pc := .leaving }
  | .getting, some env :: rest => some { bot with queue := rest, pc := .gate env }
  | _, _ => none

def gateTest (bot : Bot Env) : Option (Bot Env) :=
  match bot.pc with
  | .gate env => some { bot with pc := if bot.paused then .waiting env else .passed env }
  | _ => none

-- `Event.wait` returns when the flag is set.
def wake (bot : Bot Env) : Option (Bot Env) :=
  match bot.pc, bot.paused with
  | .waiting env, true => some { bot with pc := .passed env }
  | _, _ => none

def dispatch (bot : Bot Env) : Option (Bot Env) :=
  match bot.pc with
  | .passed _ => some { bot with pc := .loopTest }
  | _ => none

def backOff (bot : Bot Env) : Option (Bot Env) :=
  match bot.pc with
  | .backingOff => some { bot with subscribed := false, pc := .loopTest }
  | _ => none

def leave (bot : Bot Env) : Option (Bot Env) :=
  match bot.pc with
  | .leaving => some { bot with subscribed := false, pc := .notRunning }
  | _ => none

def step (bot : Bot Env) : BotAction Env → Option (Bot Env)
  | .start => bot.start
  | .stop => bot.stop
  | .stopUnpause => bot.stopUnpause
  | .stopUnsubscribe => bot.stopUnsubscribe
  | .stopPut => bot.stopPut
  | .pause => some { bot with paused := true }
  | .resume => some { bot with paused := false }
  | .onData producer env => bot.onData producer env
  | .dropOldest producer => bot.dropOldest producer
  | .putAgain producer => bot.putAgain producer
  | .loopTest => bot.loopTest
  | .subscribe done => bot.subscribe done
  | .get => bot.get
  | .gateTest => bot.gateTest
  | .wake => bot.wake
  | .dispatch => bot.dispatch
  | .backOff => bot.backOff
  | .leave => bot.leave

variable {bot bot' : Bot Env} {a : BotAction Env}

theorem put_eq (bot : Bot Env) (item : Option Env) :
    bot.put item = { bot with queue := (bot.put item).queue } := by
  unfold put
  split
  · rfl
  · rfl

theorem put_pc (bot : Bot Env) (item : Option Env) : (bot.put item).pc = bot.pc := by
  rw [put_eq]

theorem mem_put {item other : Option Env} (member : other ∈ (bot.put item).queue) :
    other ∈ bot.queue ∨ other = item := by
  unfold put at member
  split at member
  next =>
    rcases List.mem_append.mp member with before | last
    · exact .inl before
    · exact .inr (List.mem_singleton.mp last)
  next => exact .inl member

def movesLoop : BotAction Env → Bool
  | .start | .loopTest | .subscribe _ | .get | .gateTest | .wake | .dispatch | .backOff | .leave =>
      true
  | _ => false

theorem step_pc (other : movesLoop a = false) (taken : bot.step a = some bot') :
    bot'.pc = bot.pc := by
  cases a with
  | stop =>
      simp only [step, stop] at taken
      split at taken
      next => cases taken; rfl
      next => cases taken
  | stopUnpause =>
      simp only [step, stopUnpause] at taken
      split at taken
      next => cases taken; rfl
      next => cases taken
  | stopUnsubscribe =>
      simp only [step, stopUnsubscribe] at taken
      split at taken
      next => cases taken; rfl
      next => cases taken
  | stopPut =>
      simp only [step, stopPut] at taken
      split at taken
      next => cases taken; exact put_pc bot none
      next => cases taken
  | pause => cases taken; rfl
  | resume => cases taken; rfl
  | onData producer env =>
      simp only [step, onData] at taken
      split at taken
      next =>
        cases taken
        split
        · exact put_pc bot (some env)
        · rfl
      next => cases taken
  | dropOldest producer =>
      simp only [step, dropOldest] at taken
      split at taken
      next => cases taken; rfl
      next => cases taken; rfl
      next => cases taken
  | putAgain producer =>
      simp only [step, putAgain] at taken
      split at taken
      next => cases taken; exact put_pc bot _
      next => cases taken
  | _ => cases other

-- A step of the run loop takes at most items from the front of the queue, and only the pause check
-- takes the loop into the check or past it.
theorem loop_step (moves : movesLoop a = true) (notStart : a ≠ .start)
    (taken : bot.step a = some bot') :
    ∃ pc queue subscribed, bot' = { bot with pc, queue, subscribed } ∧ queue <:+ bot.queue ∧
      (a ≠ .gateTest → a ≠ .wake → pc.isWaiting = false ∧ pc.isPassed = false) := by
  cases a with
  | start => exact absurd rfl notStart
  | loopTest =>
      simp only [step, loopTest] at taken
      split at taken
      next =>
        cases taken
        refine ⟨_, _, _, rfl, List.suffix_rfl, fun _ _ => ?_⟩
        split
        · exact ⟨rfl, rfl⟩
        · exact ⟨rfl, rfl⟩
      next => cases taken
  | subscribe done =>
      simp only [step, subscribe] at taken
      split at taken
      next =>
        cases taken
        split
        · exact ⟨_, _, _, rfl, List.suffix_rfl, fun _ _ => ⟨rfl, rfl⟩⟩
        · exact ⟨_, _, _, rfl, List.suffix_rfl, fun _ _ => ⟨rfl, rfl⟩⟩
      next => cases taken
  | get =>
      simp only [step, get] at taken
      split at taken
      next queue =>
        cases taken
        exact ⟨_, _, _, rfl, queue ▸ List.suffix_cons _ _, fun _ _ => ⟨rfl, rfl⟩⟩
      next queue =>
        cases taken
        exact ⟨_, _, _, rfl, queue ▸ List.suffix_cons _ _, fun _ _ => ⟨rfl, rfl⟩⟩
      next => cases taken
  | gateTest =>
      simp only [step, gateTest] at taken
      split at taken
      next => cases taken; exact ⟨_, _, _, rfl, List.suffix_rfl, fun check => absurd rfl check⟩
      next => cases taken
  | wake =>
      simp only [step, wake] at taken
      split at taken
      next => cases taken; exact ⟨_, _, _, rfl, List.suffix_rfl, fun _ check => absurd rfl check⟩
      next => cases taken
  | dispatch =>
      simp only [step, dispatch] at taken
      split at taken
      next => cases taken; exact ⟨_, _, _, rfl, List.suffix_rfl, fun _ _ => ⟨rfl, rfl⟩⟩
      next => cases taken
  | backOff =>
      simp only [step, backOff] at taken
      split at taken
      next => cases taken; exact ⟨_, _, _, rfl, List.suffix_rfl, fun _ _ => ⟨rfl, rfl⟩⟩
      next => cases taken
  | leave =>
      simp only [step, leave] at taken
      split at taken
      next => cases taken; exact ⟨_, _, _, rfl, List.suffix_rfl, fun _ _ => ⟨rfl, rfl⟩⟩
      next => cases taken
  | _ => cases moves

end Bot

end DeepFeeder.Client
