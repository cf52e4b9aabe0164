import DeepFeeder.Client.TradingBot

set_option autoImplicit false

namespace DeepFeeder.Client

open Transition

universe u

/-- A bot, with as history the envelopes that `_on_data` was called with, those that were put into the
queue, those that were taken out of it and whether by the run loop, those that were dispatched, and the
number of calls that found the queue emptied, or full again, after their first `put_nowait`. -/
structure Handoff (Env : Type u) where
  bot : Bot Env
  received : List Env := []
  enqueued : List Env := []
  removed : List (Env × Bool) := []
  dispatched : List Env := []
  missed : Nat := 0

namespace Handoff

variable {Env : Type u}

def ofClient (client : Nat) : BotAction Env → Bool
  | .onData producer _ | .dropOldest producer | .putAgain producer => producer = client
  | _ => true

def note (w : Handoff Env) : BotAction Env → Handoff Env
  | .onData _ env =>
      { w with
        received := w.received ++ [env]
        enqueued := w.enqueued ++ if w.bot.hasRoom then [env] else [] }
  | .dropOldest _ =>
      match w.bot.queue with
      | [] => { w with missed := w.missed + 1 }
      | item :: _ => { w with removed := w.removed ++ item.toList.map (·, false) }
  | .putAgain producer =>
      match w.bot.producers producer with
      | .dropped env =>
          if w.bot.hasRoom then { w with enqueued := w.enqueued ++ [env] }
          else { w with missed := w.missed + 1 }
      | _ => w
  | .get =>
      match w.bot.queue with
      | some env :: _ => { w with removed := w.removed ++ [(env, true)] }
      | _ => w
  | .dispatch =>
      match w.bot.pc with
      | .passed env => { w with dispatched := w.dispatched ++ [env] }
      | _ => w
  | _ => w

def step (w : Handoff Env) (a : BotAction Env) : Option (Handoff Env) :=
  (w.bot.step a).map fun bot => { w.note a with bot }

def queued (bot : Bot Env) : List Env := bot.queue.filterMap id

def arriving (bot : Bot Env) (client : Nat) : List Env :=
  match bot.producers client with
  | .idle => []
  | .full env | .dropped env => [env]

def inHand (bot : Bot Env) : List Env :=
  match bot.pc with
  | .gate env | .waiting env | .passed env => [env]
  | _ => []

/-- Each envelope that arrived was put into the queue, or its call is under way; what has left the
queue is the oldest; and those dispatched are some of those received, in order. -/
structure DropsOldest (w : Handoff Env) (client : Nat) : Prop where
  arrived : w.received = w.enqueued ++ arriving w.bot client
  oldest : w.enqueued = w.removed.map Prod.fst ++ queued w.bot
  dispatched : w.dispatched.Sublist w.received

structure Handed (w : Handoff Env) (client : Nat) : Prop where
  arrived : ∃ before, w.received = before ++ arriving w.bot client ∧ w.enqueued.Sublist before ∧
    before.length = w.enqueued.length + w.missed
  oldest : w.enqueued = w.removed.map Prod.fst ++ queued w.bot
  taken : (w.removed.filter Prod.snd).map Prod.fst = w.dispatched ++ inHand w.bot

-- `get_nowait` finds the queue filled yet, and the second `put_nowait` finds room.
def findsPlace (w : Handoff Env) : BotAction Env → Bool
  | .dropOldest _ => !w.bot.queue.isEmpty
  | .putAgain _ => w.bot.hasRoom
  | _ => true

variable {w w' : Handoff Env} {a : BotAction Env} {client : Nat}

theorem step_eq (taken : w.step a = some w') :
    ∃ bot, w.bot.step a = some bot ∧ w' = { w.note a with bot } := by
  obtain ⟨bot, stepped, rfl⟩ := Option.map_eq_some_iff.mp taken
  exact ⟨bot, stepped, rfl⟩

def isQuiet : BotAction Env → Bool
  | .stopPut | .onData .. | .dropOldest _ | .putAgain _ | .get | .dispatch => false
  | _ => true

theorem quiet_step {bot bot' : Bot Env} (quiet : isQuiet a = true) (taken : bot.step a = some bot') :
    bot'.queue = bot.queue ∧ bot'.producers = bot.producers ∧ inHand bot' = inHand bot := by
  cases a with
  | start =>
      simp only [Bot.step, Bot.start] at taken
      split at taken
      next _ here => cases taken; exact ⟨rfl, rfl, by simp [inHand, here]⟩
      next => cases taken
  | stop =>
      simp only [Bot.step, Bot.stop] at taken
      split at taken
      next => cases taken; exact ⟨rfl, rfl, rfl⟩
      next => cases taken
  | stopUnpause =>
      simp only [Bot.step, Bot.stopUnpause] at taken
      split at taken
      next => cases taken; exact ⟨rfl, rfl, rfl⟩
      next => cases taken
  | stopUnsubscribe =>
      simp only [Bot.step, Bot.stopUnsubscribe] at taken
      split at taken
      next => cases taken; exact ⟨rfl, rfl, rfl⟩
      next => cases taken
  | pause => cases taken; exact ⟨rfl, rfl, rfl⟩
  | resume => cases taken; exact ⟨rfl, rfl, rfl⟩
  | loopTest =>
      simp only [Bot.step, Bot.loopTest] at taken
      split at taken
      next here =>
          cases taken
          refine ⟨rfl, rfl, ?_⟩
          unfold inHand
          rw [here]
          cases bot.stopFlag <;> rfl
      next => cases taken
  | subscribe done =>
      simp only [Bot.step, Bot.subscribe] at taken
      split at taken
      next here =>
          cases taken
          split
          next => exact ⟨rfl, rfl, by simp [inHand, here]⟩
          next => exact ⟨rfl, rfl, by simp [inHand, here]⟩
      next => cases taken
  | gateTest =>
      simp only [Bot.step, Bot.gateTest] at taken
      split at taken
      next env here =>
          cases taken
          refine ⟨rfl, rfl, ?_⟩
          unfold inHand
          rw [here]
          cases bot.paused <;> rfl
      next => cases taken
  | wake =>
      simp only [Bot.step, Bot.wake] at taken
      split at taken
      next env here _ => cases taken; exact ⟨rfl, rfl, by simp [inHand, here]⟩
      next => cases taken
  | backOff =>
      simp only [Bot.step, Bot.backOff] at taken
      split at taken
      next here => cases taken; exact ⟨rfl, rfl, by simp [inHand, here]⟩
      next => cases taken
  | leave =>
      simp only [Bot.step, Bot.leave] at taken
      split at taken
      next here => cases taken; exact ⟨rfl, rfl, by simp [inHand, here]⟩
      next => cases taken
  | stopPut | onData | dropOldest | putAgain | get | dispatch => cases quiet

theorem put_spec (bot : Bot Env) (item : Option Env) :
    (bot.put item).pc = bot.pc ∧ (bot.put item).producers = bot.producers ∧
      (bot.put item).queue = bot.queue ++ if bot.hasRoom then [item] else [] := by
  unfold Bot.put
  split
  next => exact ⟨rfl, rfl, rfl⟩
  next => exact ⟨rfl, rfl, (List.append_nil _).symm⟩

theorem arriving_congr {bot bot' : Bot Env} (same : bot'.producers = bot.producers) (client : Nat) :
    arriving bot' client = arriving bot client := by
  unfold arriving
  rw [same]

theorem arriving_setProducer (bot : Bot Env) (client : Nat) (state : Producer Env) :
    arriving (bot.setProducer client state) client =
      match state with
      | .idle => []
      | .full env | .dropped env => [env] := by
  unfold arriving Bot.setProducer
  simp only [Function.update_self]

theorem Handed.same (handed : Handed w client) (received : w'.received = w.received)
    (enqueued : w'.enqueued = w.enqueued) (removed : w'.removed = w.removed)
    (dispatched : w'.dispatched = w.dispatched) (missed : w'.missed = w.missed)
    (arriving_ : arriving w'.bot client = arriving w.bot client)
    (queued_ : queued w'.bot = queued w.bot) (inHand_ : inHand w'.bot = inHand w.bot) :
    Handed w' client where
  arrived := by
    rw [received, enqueued, missed, arriving_]
    exact handed.arrived
  oldest := by
    rw [enqueued, removed, queued_]
    exact handed.oldest
  taken := by
    rw [removed, dispatched, inHand_]
    exact handed.taken

theorem handed_onData {producer : Nat} {env : Env} (handed : Handed w client)
    (own : producer = client) (taken : w.step (.onData producer env) = some w') :
    Handed w' client := by
  subst own
  obtain ⟨bot, stepped, rfl⟩ := step_eq taken
  obtain ⟨before, received, sub, counted⟩ := handed.arrived
  simp only [Bot.step, Bot.onData] at stepped
  split at stepped
  next idle =>
      have none : arriving w.bot producer = [] := by
        unfold arriving
        rw [idle]
      rw [none, List.append_nil] at received
      cases stepped
      obtain ⟨pc, producers, queue⟩ := put_spec w.bot (some env)
      by_cases room : w.bot.hasRoom = true
      next =>
          rw [if_pos room] at queue
          have later : queued (w.bot.put (some env)) = queued w.bot ++ [env] := by
            unfold queued
            rw [queue, List.filterMap_append]
            rfl
          constructor
          next =>
              refine ⟨before ++ [env], ?_, ?_, ?_⟩
              next => simp [note, room, arriving_congr producers, none, received]
              next => simpa [note, room] using sub
              next => simp only [note, room, if_true, List.length_append]; omega
          next => simp [note, room, later, handed.oldest]
          next => simpa [note, room, inHand, pc] using handed.taken
      next =>
          constructor
          next =>
              refine ⟨before, ?_, ?_, ?_⟩
              next => simp [note, room, arriving_setProducer, received]
              next => simpa [note, room] using sub
              next => simpa [note, room] using counted
          next => simpa [note, room, queued, Bot.setProducer] using handed.oldest
          next => simpa [note, room, inHand, Bot.setProducer] using handed.taken
  next => cases stepped

theorem handed_dropOldest {producer : Nat} (handed : Handed w client) (own : producer = client)
    (taken : w.step (.dropOldest producer) = some w') : Handed w' client := by
  subst own
  obtain ⟨bot, stepped, rfl⟩ := step_eq taken
  obtain ⟨before, received, sub, counted⟩ := handed.arrived
  simp only [Bot.step, Bot.dropOldest] at stepped
  split at stepped
  next env full empty =>
      have here : arriving w.bot producer = [env] := by
        unfold arriving
        rw [full]
      rw [here] at received
      cases stepped
      constructor
      next =>
          refine ⟨before ++ [env], ?_, ?_, ?_⟩
          next => simp [note, empty, arriving_setProducer, received]
          next => simpa [note, empty] using sub.trans (List.sublist_append_left before [env])
          next => simp only [note, empty, List.length_append, List.length_singleton]; omega
      next => simpa [note, empty, queued, Bot.setProducer] using handed.oldest
      next => simpa [note, empty, inHand, Bot.setProducer] using handed.taken
  next env item rest full filled =>
      have here : arriving w.bot producer = [env] := by
        unfold arriving
        rw [full]
      rw [here] at received
      cases stepped
      have oldest := handed.oldest
      unfold queued at oldest
      rw [filled, List.filterMap_cons] at oldest
      constructor
      next =>
          refine ⟨before, ?_, ?_, ?_⟩
          next => simpa [note, filled, arriving, Bot.setProducer] using received
          next => simpa [note, filled] using sub
          next => simpa [note, filled] using counted
      next =>
          cases item with
          | none => simpa [note, filled, queued] using oldest
          | some _ => simpa [note, filled, queued] using oldest
      next =>
          cases item with
          | none => simpa [note, filled, inHand, Bot.setProducer] using handed.taken
          | some _ => simpa [note, filled, inHand, Bot.setProducer] using handed.taken
  next => cases stepped

theorem handed_putAgain {producer : Nat} (handed : Handed w client) (own : producer = client)
    (taken : w.step (.putAgain producer) = some w') : Handed w' client := by
  subst own
  obtain ⟨bot, stepped, rfl⟩ := step_eq taken
  obtain ⟨before, received, sub, counted⟩ := handed.arrived
  simp only [Bot.step, Bot.putAgain] at stepped
  split at stepped
  next env dropped =>
      have here : arriving w.bot producer = [env] := by
        unfold arriving
        rw [dropped]
      rw [here] at received
      cases stepped
      obtain ⟨pc, producers, queue⟩ := put_spec w.bot (some env)
      have idle := arriving_setProducer (w.bot.put (some env)) producer .idle
      by_cases room : w.bot.hasRoom = true
      next =>
          rw [if_pos room] at queue
          constructor
          next =>
              refine ⟨before ++ [env], ?_, ?_, ?_⟩
              next => simp [note, dropped, room, idle, received]
              next => simpa [note, dropped, room] using sub
              next => simp only [note, dropped, room, if_true, List.length_append]; omega
          next =>
              have oldest := handed.oldest
              simp [note, dropped, room, queued, Bot.setProducer, queue, oldest]
          next => simpa [note, dropped, room, inHand, Bot.setProducer, pc] using handed.taken
      next =>
          rw [if_neg room, List.append_nil] at queue
          constructor
          next =>
              refine ⟨before ++ [env], ?_, ?_, ?_⟩
              next => simp [note, dropped, room, idle, received]
              next =>
                  simpa [note, dropped, room] using sub.trans (List.sublist_append_left before [env])
              next =>
                  simp only [note, dropped, room, List.length_append, List.length_singleton]
                  simp only [Bool.false_eq_true, if_false]
                  omega
          next =>
              have oldest := handed.oldest
              simpa [note, dropped, room, queued, Bot.setProducer, queue] using oldest
          next => simpa [note, dropped, room, inHand, Bot.setProducer, pc] using handed.taken
  next => cases stepped

theorem handed_get (handed : Handed w client) (taken : w.step .get = some w') :
    Handed w' client := by
  obtain ⟨bot, stepped, rfl⟩ := step_eq taken
  have oldest := handed.oldest
  have got := handed.taken
  unfold queued at oldest
  unfold inHand at got
  simp only [Bot.step, Bot.get] at stepped
  split at stepped
  next rest getting filled =>
      cases stepped
      rw [getting, List.append_nil] at got
      rw [filled, List.filterMap_cons] at oldest
      constructor
      next => simpa [note, filled, arriving] using handed.arrived
      next => simpa [note, filled, queued] using oldest
      next => simpa [note, filled, inHand] using got
  next env rest getting filled =>
      cases stepped
      rw [getting, List.append_nil] at got
      rw [filled, List.filterMap_cons] at oldest
      constructor
      next => simpa [note, filled, arriving] using handed.arrived
      next => simpa [note, filled, queued] using oldest
      next => simpa [note, filled, inHand] using got
  next => cases stepped

theorem handed_dispatch (handed : Handed w client) (taken : w.step .dispatch = some w') :
    Handed w' client := by
  obtain ⟨bot, stepped, rfl⟩ := step_eq taken
  have got := handed.taken
  unfold inHand at got
  simp only [Bot.step, Bot.dispatch] at stepped
  split at stepped
  next env passed =>
      cases stepped
      rw [passed] at got
      constructor
      next => simpa [note, passed, arriving] using handed.arrived
      next => simpa [note, passed, queued] using handed.oldest
      next => simpa [note, passed, inHand] using got
  next => cases stepped

theorem handed_stopPut (handed : Handed w client) (taken : w.step .stopPut = some w') :
    Handed w' client := by
  obtain ⟨bot, stepped, rfl⟩ := step_eq taken
  simp only [Bot.step, Bot.stopPut] at stepped
  split at stepped
  next =>
      cases stepped
      obtain ⟨pc, producers, queue⟩ := put_spec w.bot none
      refine handed.same rfl rfl rfl rfl rfl (arriving_congr producers client) ?_ ?_
      next =>
          unfold queued
          simp only [queue, List.filterMap_append]
          split
          next => exact List.append_nil _
          next => exact List.append_nil _
      next =>
          unfold inHand
          simp only [pc]
  next => cases stepped

theorem step_handed (handed : Handed w client) (own : ofClient client a = true)
    (taken : w.step a = some w') : Handed w' client := by
  cases a with
  | onData producer env => exact handed_onData handed (of_decide_eq_true own) taken
  | dropOldest producer => exact handed_dropOldest handed (of_decide_eq_true own) taken
  | putAgain producer => exact handed_putAgain handed (of_decide_eq_true own) taken
  | get => exact handed_get handed taken
  | dispatch => exact handed_dispatch handed taken
  | stopPut => exact handed_stopPut handed taken
  | start | stop | stopUnpause | stopUnsubscribe | pause | resume | loopTest | subscribe | gateTest
  | wake | backOff | leave =>
      obtain ⟨bot, stepped, rfl⟩ := step_eq taken
      obtain ⟨queue, producers, hand⟩ := quiet_step rfl stepped
      refine handed.same rfl rfl rfl rfl rfl (arriving_congr producers client) ?_ hand
      unfold queued
      exact congrArg _ queue

theorem handed_of_reaches {maxsize : Nat}
    (reached : Reaches step (fun _ a => ofClient client a = true) { bot := { maxsize } } w) :
    Handed w client := by
  refine reached.invariant (Handed · client) ?_ fun _ _ _ handed own taken =>
    step_handed handed own taken
  exact ⟨⟨[], rfl, List.Sublist.refl _, rfl⟩, rfl, rfl⟩

theorem dropsOldest_iff_missed {maxsize : Nat}
    (reached : Reaches step (fun _ a => ofClient client a = true) { bot := { maxsize } } w) :
    w.DropsOldest client ↔ w.missed = 0 := by
  have handed := handed_of_reaches reached
  obtain ⟨before, received, sub, counted⟩ := handed.arrived
  constructor
  next =>
      intro drops
      have arrived := drops.arrived
      rw [received, List.append_cancel_right_eq] at arrived
      rw [arrived] at counted
      omega
  next =>
      intro none
      have whole : w.enqueued = before := sub.eq_of_length (by omega)
      refine ⟨by rw [received, whole], handed.oldest, ?_⟩
      have removed : (w.removed.map Prod.fst).Sublist w.received := by
        have kept := (List.sublist_append_left (w.removed.map Prod.fst) (queued w.bot))
        rw [← handed.oldest, whole] at kept
        exact kept.trans (received ▸ List.sublist_append_left _ _)
      have got : ((w.removed.filter Prod.snd).map Prod.fst).Sublist (w.removed.map Prod.fst) :=
        List.filter_sublist.map _
      rw [handed.taken] at got
      exact ((List.sublist_append_left _ _).trans got).trans removed

theorem step_missed (taken : w.step a = some w') :
    w'.missed = w.missed + if w.findsPlace a then 0 else 1 := by
  obtain ⟨bot, stepped, rfl⟩ := step_eq taken
  cases a with
  | dropOldest producer =>
      cases filled : w.bot.queue with
      | nil => simp [note, findsPlace, filled]
      | cons item rest => simp [note, findsPlace, filled]
  | putAgain producer =>
      simp only [Bot.step, Bot.putAgain] at stepped
      split at stepped
      next env dropped =>
          by_cases room : w.bot.hasRoom = true
          next => simp [note, findsPlace, dropped, room]
          next => simp [note, findsPlace, dropped, room]
      next => cases stepped
  | get =>
      simp only [note, findsPlace, if_true, Nat.add_zero]
      split
      next => rfl
      next => rfl
  | dispatch =>
      simp only [note, findsPlace, if_true, Nat.add_zero]
      split
      next => rfl
      next => rfl
  | onData | start | stop | stopUnpause | stopUnsubscribe | stopPut | pause | resume | loopTest
  | subscribe | gateTest | wake | backOff | leave => rfl

theorem run_missed {actions : List (BotAction Env)} (result : run step w actions = some w') :
    w'.missed = 0 ↔
      w.missed = 0 ∧ runMeets step (fun w a => w.findsPlace a = true) w actions = true := by
  induction actions generalizing w with
  | nil =>
      cases result
      exact (and_iff_left rfl).symm
  | cons a rest ih =>
      obtain ⟨next, taken, later⟩ := Option.bind_eq_some_iff.mp result
      rw [ih later, step_missed taken]
      by_cases place : w.findsPlace a = true
      next => simp [runMeets, taken, place]
      next => simp [runMeets, place]

/-- In a run with one thread of the client the policy is drop-oldest exactly when no call of `_on_data`
has found the queue emptied, or full again, after its first `put_nowait` had failed. -/
theorem dropsOldest_iff {maxsize : Nat} {actions : List (BotAction Env)}
    (own : ∀ a ∈ actions, ofClient client a = true)
    (result : run step { bot := { maxsize } } actions = some w) :
    w.DropsOldest client ↔ runMeets step (fun w a => w.findsPlace a = true)
      ({ bot := { maxsize } } : Handoff Env) actions = true := by
  have reached : Reaches step (fun _ a => ofClient client a = true) { bot := { maxsize } } w :=
    .run .refl (runMeets_of_mem (fun a member _ => own a member) _) result
  rw [dropsOldest_iff_missed reached, run_missed result]
  exact and_iff_right rfl

def secondFull : List (BotAction Nat) :=
  [.start, .loopTest, .subscribe true, .onData 0 1, .onData 0 2]

-- The first envelope makes room for the second one.
theorem dropsOldest_overflow :
    ∃ w : Handoff Nat, run step { bot := { maxsize := 1 } }
        (secondFull ++ [.dropOldest 0, .putAgain 0, .get, .gateTest, .dispatch]) = some w ∧
      w.received = [1, 2] ∧ w.dispatched = [2] ∧ w.DropsOldest 0 := by
  have checked : (run step ({ bot := { maxsize := 1 } } : Handoff Nat)
      (secondFull ++ [.dropOldest 0, .putAgain 0, .get, .gateTest, .dispatch])).map
        (fun w => decide (w.received = [1, 2] ∧ w.dispatched = [2])) = some true := by
    decide +kernel
  obtain ⟨w, result, lists⟩ := Option.map_eq_some_iff.mp checked
  obtain ⟨received, dispatched⟩ := of_decide_eq_true lists
  exact ⟨w, result, received, dispatched,
    (dropsOldest_iff (by decide) result).mpr (by decide +kernel)⟩

-- The run loop takes the first envelope before it can be dropped, and the second one is nowhere.
theorem newest_lost :
    ∃ w : Handoff Nat, Reaches step (fun _ a => ofClient 0 a = true) { bot := { maxsize := 1 } } w ∧
      w.received = [1, 2] ∧ w.enqueued = [1] ∧ arriving w.bot 0 = [] ∧ ¬w.DropsOldest 0 := by
  obtain ⟨w, reached, checked⟩ := reaches_allowed_of_check step (fun _ a => ofClient 0 a = true)
    { bot := { maxsize := 1 } } (secondFull ++ [.get, .dropOldest 0])
    (fun w => decide (w.received = [1, 2] ∧ w.enqueued = [1] ∧ arriving w.bot 0 = []))
    (by decide +kernel) (by decide +kernel)
  obtain ⟨received, enqueued, ended⟩ := of_decide_eq_true checked
  refine ⟨w, reached, received, enqueued, ended, fun drops => ?_⟩
  have arrived := drops.arrived
  rw [received, enqueued, ended] at arrived
  cases arrived

end Handoff

end DeepFeeder.Client
