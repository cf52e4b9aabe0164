import DeepFeeder.Client.TradingBot

set_option autoImplicit false

namespace DeepFeeder.Client

open Transition

universe u

/-- A bot, whether `stop` was called since the start of its latest run loop, and what was so for each
run loop that came to its end. -/
structure Lives (Env : Type u) where
  bot : Bot Env
  stopped : Bool := false
  exits : List Bool := []

namespace Lives

variable {Env : Type u}

def ends (bot : Bot Env) : BotAction Env → Bool
  | .loopTest => bot.stopFlag
  | .get => bot.queue.head?.any Option.isNone
  | _ => false

def stoppedAfter (w : Lives Env) : BotAction Env → Bool
  | .start => false
  | .stop => true
  | _ => w.stopped

def step (w : Lives Env) (a : BotAction Env) : Option (Lives Env) :=
  (w.bot.step a).map fun bot =>
    { bot, stopped := w.stoppedAfter a
      exits := if ends w.bot a then w.exits ++ [w.stopped] else w.exits }

-- A run loop is started only while no sentinel is queued.
def startsClean (w : Lives Env) : BotAction Env → Bool
  | .start => w.bot.queue.all Option.isSome
  | _ => true

structure Signed (w : Lives Env) : Prop where
  flag : w.bot.stopFlag = true → w.stopped = true
  sentinel : none ∈ w.bot.queue → w.stopped = true
  control : w.bot.control ≠ .free → w.stopped = true
  exits : ∀ stopped ∈ w.exits, stopped = true

variable {w w' : Lives Env} {a : BotAction Env} {bot bot' : Bot Env}

structure Follows (bot bot' : Bot Env) : Prop where
  flag : bot'.stopFlag = bot.stopFlag
  sentinel : none ∈ bot'.queue → none ∈ bot.queue ∨ bot.control ≠ .free
  control : bot'.control ≠ .free → bot.control ≠ .free

theorem follows_same (flag : bot'.stopFlag = bot.stopFlag) (queue : bot'.queue = bot.queue)
    (control : bot'.control = bot.control) : Follows bot bot' where
  flag := flag
  sentinel member := .inl (queue ▸ member)
  control busy := control ▸ busy

theorem put_follows (bot : Bot Env) (env : Env) : Follows bot (bot.put (some env)) := by
  have queued := @Bot.mem_put Env bot (some env) none
  rw [Bot.put_eq]
  refine ⟨rfl, ?_, fun busy => busy⟩
  intro member
  rcases queued member with before | absurd
  · exact .inl before
  · cases absurd

theorem step_follows (notStart : a ≠ .start) (notStop : a ≠ .stop) (taken : bot.step a = some bot') :
    Follows bot bot' := by
  cases a with
  | start => exact absurd rfl notStart
  | stop => exact absurd rfl notStop
  | stopUnpause =>
      simp only [Bot.step, Bot.stopUnpause] at taken
      split at taken
      next held =>
        cases taken
        exact ⟨rfl, fun member => .inl member, fun _ => by rw [held]; decide⟩
      next => cases taken
  | stopUnsubscribe =>
      simp only [Bot.step, Bot.stopUnsubscribe] at taken
      split at taken
      next held =>
        cases taken
        exact ⟨rfl, fun member => .inl member, fun _ => by rw [held]; decide⟩
      next => cases taken
  | stopPut =>
      simp only [Bot.step, Bot.stopPut] at taken
      split at taken
      next held =>
        cases taken
        refine ⟨?_, fun _ => .inr (by rw [held]; decide), fun busy => absurd rfl busy⟩
        change (bot.put none).stopFlag = bot.stopFlag
        rw [Bot.put_eq]
      next => cases taken
  | pause => cases taken; exact follows_same rfl rfl rfl
  | resume => cases taken; exact follows_same rfl rfl rfl
  | onData producer env =>
      simp only [Bot.step, Bot.onData] at taken
      split at taken
      next =>
        cases taken
        split
        · exact put_follows bot env
        · exact follows_same rfl rfl rfl
      next => cases taken
  | dropOldest producer =>
      simp only [Bot.step, Bot.dropOldest] at taken
      split at taken
      next => cases taken; exact follows_same rfl rfl rfl
      next queue =>
        cases taken
        refine ⟨rfl, fun member => .inl ?_, fun busy => busy⟩
        rw [queue]
        exact List.mem_cons_of_mem _ member
      next => cases taken
  | putAgain producer =>
      simp only [Bot.step, Bot.putAgain] at taken
      split at taken
      next => cases taken; exact { put_follows bot _ with }
      next => cases taken
  | _ =>
      obtain ⟨_, _, _, rfl, suffix, _⟩ := Bot.loop_step rfl (by simp) taken
      exact ⟨rfl, fun member => .inl (suffix.subset member), fun busy => busy⟩

theorem Signed.ended (signed : Signed w) (over_ : ends w.bot a = true) : w.stopped = true := by
  cases a with
  | loopTest => exact signed.flag over_
  | get =>
      cases queue : w.bot.queue with
      | nil => simp [ends, queue] at over_
      | cons item rest =>
          apply signed.sentinel
          simp only [ends, queue, List.head?_cons, Option.any_some, Option.isNone_iff_eq_none] at over_
          rw [queue, over_]
          exact List.mem_cons_self
  | _ => cases over_

theorem step_signed (signed : Signed w) (clean : w.startsClean a = true)
    (taken : w.step a = some w') : Signed w' := by
  obtain ⟨bot, stepped, rfl⟩ := Option.map_eq_some_iff.mp taken
  have exits : ∀ stopped ∈ (if ends w.bot a then w.exits ++ [w.stopped] else w.exits),
      stopped = true := by
    split
    next over_ =>
      intro stopped member
      rcases List.mem_append.mp member with before | last
      · exact signed.exits stopped before
      · rw [List.mem_singleton.mp last]
        exact signed.ended over_
    next => exact signed.exits
  by_cases isStart : a = .start
  · subst isStart
    simp only [Bot.step, Bot.start] at stepped
    split at stepped
    next free _ =>
      cases stepped
      refine ⟨fun flag => (by cases flag), ?_, fun busy => absurd free busy, exits⟩
      intro sentinel
      have item := List.all_eq_true.mp clean none sentinel
      cases item
    next => cases stepped
  · by_cases isStop : a = .stop
    · subst isStop
      exact ⟨fun _ => rfl, fun _ => rfl, fun _ => rfl, exits⟩
    · have follows := step_follows isStart isStop stepped
      have same : w.stoppedAfter a = w.stopped := by
        cases a <;> first | rfl | exact absurd rfl isStart | exact absurd rfl isStop
      refine ⟨?_, ?_, ?_, exits⟩
      · intro flag
        exact same.trans (signed.flag (follows.flag ▸ flag))
      · intro sentinel
        rcases follows.sentinel sentinel with before | busy
        · exact same.trans (signed.sentinel before)
        · exact same.trans (signed.control busy)
      · intro busy
        exact same.trans (signed.control (follows.control busy))

def atGet (w : Lives Env) : Lives Env :=
  { w with bot := { w.bot with pc := .getting, subscribed := true } }

theorem run_to_get (here : w.bot.pc = .loopTest) (goesOn : w.bot.stopFlag = false) :
    run step w [.loopTest, .subscribe true] = some w.atGet := by
  simp [run, step, Bot.step, Bot.loopTest, Bot.subscribe, stoppedAfter, ends, atGet, here, goesOn]

theorem get_sentinel {rest : List (Option Env)} (here : w.bot.pc = .getting)
    (items : w.bot.queue = none :: rest) :
    ∃ w', run step w [.get] = some w' ∧ w'.exits = w.exits ++ [w.stopped] := by
  refine ⟨{ w with bot := { w.bot with queue := rest, pc := .leaving },
                   exits := w.exits ++ [w.stopped] }, ?_, rfl⟩
  simp [run, step, Bot.step, Bot.get, stoppedAfter, ends, here, items]

theorem get_envelope {rest : List (Option Env)} {env : Env} (here : w.bot.pc = .getting)
    (items : w.bot.queue = some env :: rest) (unpaused : w.bot.paused = false) :
    run step w [.get, .gateTest, .dispatch] =
      some { w with bot := { w.bot with queue := rest, pc := .loopTest } } := by
  simp [run, step, Bot.step, Bot.get, Bot.gateTest, Bot.dispatch, stoppedAfter, ends, here, items,
    unpaused]

-- A run loop that nothing stops comes to a sentinel that is queued; the induction is on the items
-- before it.
theorem sentinel_ends (queue : List (Option Env)) (items : w.bot.queue = queue)
    (sentinel : none ∈ queue) (here : w.bot.pc = .loopTest) (goesOn : w.bot.stopFlag = false)
    (unpaused : w.bot.paused = false) (unstopped : w.stopped = false) :
    ∃ actions w', .stop ∉ actions ∧ run step w actions = some w' ∧ false ∈ w'.exits := by
  induction queue generalizing w with
  | nil => cases sentinel
  | cons item rest ih =>
      have next_ := run_to_get here goesOn
      cases item with
      | none =>
          obtain ⟨w', got, exits⟩ := get_sentinel (w := w.atGet) rfl items
          refine ⟨[.loopTest, .subscribe true] ++ [.get], w', by simp, ?_, ?_⟩
          · rw [run_append next_, got]
          · rw [exits, show w.atGet.stopped = false from unstopped]
            simp
      | some env =>
          have got := get_envelope (w := w.atGet) rfl items unpaused
          obtain ⟨actions, w', noStop, ended, exits⟩ := ih
            (w := { w.atGet with bot := { w.atGet.bot with queue := rest, pc := .loopTest } })
            rfl (by simpa using sentinel) rfl goesOn unpaused unstopped
          refine ⟨[.loopTest, .subscribe true] ++ ([.get, .gateTest, .dispatch] ++ actions), w',
            by simpa using noStop, ?_, exits⟩
          rw [run_append next_, run_append got, ended]

theorem dirty_start_ends (free : w.bot.control = .free) (idle : w.bot.pc = .notRunning)
    (sentinel : none ∈ w.bot.queue) :
    ∃ actions w', .stop ∉ actions ∧ run step w (.start :: actions) = some w' ∧
      false ∈ w'.exits := by
  have started : w.step .start = some
      { bot := { w.bot with stopFlag := false, paused := false, pc := .loopTest }
        stopped := false, exits := w.exits } := by
    simp [step, Bot.step, Bot.start, stoppedAfter, ends, free, idle]
  obtain ⟨actions, w', noStop, ended, exits⟩ := sentinel_ends
    (w := { bot := { w.bot with stopFlag := false, paused := false, pc := .loopTest }
            stopped := false, exits := w.exits }) w.bot.queue rfl sentinel rfl rfl rfl rfl
  exact ⟨actions, w', noStop, by rw [run, started]; exact ended, exits⟩

def new (maxsize : Nat) : Lives Env := { bot := { maxsize } }

theorem run_loops_end_on_stop {maxsize : Nat}
    (reached : Reaches step (fun w a => w.startsClean a = true) (new maxsize) w) :
    (∀ stopped ∈ w.exits, stopped = true) ∧
      (w.bot.control = .free → w.bot.pc = .notRunning → w.startsClean .start = false →
        ∃ actions w', .stop ∉ actions ∧ run step w (.start :: actions) = some w' ∧
          false ∈ w'.exits) := by
  have signed : Signed w := by
    apply reached.invariant Signed
    · refine ⟨fun flag => ?_, fun sentinel => ?_, fun busy => absurd rfl busy, fun _ member => ?_⟩
      · cases flag
      · cases sentinel
      · cases member
    · exact fun w a w' signed clean taken => step_signed signed clean taken
  refine ⟨signed.exits, ?_⟩
  intro free idle dirty
  obtain ⟨item, member, isNone⟩ := List.all_eq_false.mp dirty
  have sentinel : item = none := by simpa using isNone
  exact dirty_start_ends free idle (sentinel ▸ member)

def runsOnce : List (BotAction Nat) := [.start, .loopTest, .subscribe true]

def stops : List (BotAction Nat) := [.stop, .stopUnpause, .stopUnsubscribe, .stopPut]

-- The sentinel ends the run loop, and the bot is started again.
theorem run_loops_end_on_stop_twice :
    ∃ w : Lives Nat, Reaches step (fun w a => w.startsClean a = true) (new 10000) w ∧
      w.exits = [true] ∧ w.bot.stopFlag = false ∧ ∀ stopped ∈ w.exits, stopped = true := by
  obtain ⟨w, reached, check⟩ := reaches_allowed_of_check step (fun w a => w.startsClean a = true)
    (new 10000) (runsOnce ++ stops ++ [.get, .leave] ++ runsOnce)
    (fun w => decide (w.exits = [true]) && !w.bot.stopFlag) (by decide +kernel) (by decide +kernel)
  simp only [Bool.and_eq_true, decide_eq_true_eq, Bool.not_eq_true'] at check
  exact ⟨w, reached, check.1, check.2, (run_loops_end_on_stop reached).1⟩

-- `stop` is called while an envelope is dispatched: the loop ends on the flag, and the sentinel ends
-- the next one.
theorem sentinel_ends_later_run :
    ∃ w : Lives Nat, Reaches step anyStep (new 10000) w ∧ w.exits = [true, false] ∧
      ¬ ∀ stopped ∈ w.exits, stopped = true := by
  obtain ⟨w, reached, check⟩ := reaches_of_check step (new 10000)
    (runsOnce ++ [.onData 0 7, .get, .gateTest] ++ stops ++ [.dispatch, .loopTest, .leave] ++
      runsOnce ++ [.get])
    (fun w => decide (w.exits = [true, false])) (by decide +kernel)
  have exits := of_decide_eq_true check
  refine ⟨w, reached, exits, ?_⟩
  rw [exits]
  decide

end Lives

end DeepFeeder.Client
