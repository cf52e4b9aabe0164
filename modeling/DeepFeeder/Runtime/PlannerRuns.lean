import DeepFeeder.Shared.Tiling
import DeepFeeder.Shared.Transition
import DeepFeeder.Runtime.Planner

set_option autoImplicit false

namespace DeepFeeder

def Task.piece (t : Task) : Tiling.Piece := (t.startId, t.endId)

def Task.Same (t u : Task) : Prop :=
  u.taskId = t.taskId ∧ u.provider = t.provider ∧ u.symbol = t.symbol ∧ u.piece = t.piece

theorem Task.same_update (t : Task) (taskId : Nat) (status : TaskStatus) (tried : Nat)
    (error : Option String) : t.Same (t.update taskId status tried error) := by
  unfold Task.update
  split
  next => exact ⟨rfl, rfl, rfl, rfl⟩
  next => exact ⟨rfl, rfl, rfl, rfl⟩

theorem Task.Same.trans {t u v : Task} (first : t.Same u) (second : u.Same v) : t.Same v :=
  ⟨second.1.trans first.1, second.2.1.trans first.2.1, second.2.2.1.trans first.2.2.1,
    second.2.2.2.trans first.2.2.2⟩

namespace PlannerRuns

open Transition

structure AddGap where
  gap : Gap
  cur : Int
  tasks : List Task := []

/-- A planner, the calls of `add_gap` made on it and, as history, who claimed which task. -/
structure System where
  planner : BackfillPlanner
  calls : List AddGap
  claims : List (String × Nat)

inductive Action where
  | addGap (gap : Gap)
  -- The loop of a call takes one turn.
  | turn (call : Nat) (now : Int)
  | claimTask (provider : String)
  | markDone (taskId : Nat)
  | markFailed (taskId : Nat) (error : String)

def AddGap.turn (call : AddGap) (planner : BackfillPlanner) (now : Int) : AddGap :=
  { call with
    cur := planner.sliceEnd call.gap call.cur + 1
    tasks := call.tasks ++ [planner.slice call.gap call.cur now] }

def taskIds (tasks : List Task) (provider : String) : List Nat :=
  (tasks.filter fun t => t.provider = provider).map Task.taskId

namespace System

def new (maxIdsPerTask : Int) : System :=
  { planner := .new maxIdsPerTask, calls := [], claims := [] }

def claimed (s : System) : List Nat := s.claims.map Prod.snd

def claimedBy (s : System) (provider : String) : List Nat :=
  (s.claims.filter fun claim => claim.1 = provider).map Prod.snd

def enqueued (s : System) (provider : String) : List Nat := taskIds s.planner.tasks provider

end System

/-- A producer marks only what it has claimed. -/
def step (s : System) : Action → Option System
  | .addGap gap => some { s with calls := s.calls ++ [{ gap, cur := gap.startId }] }
  | .turn index now => do
      let call ← s.calls[index]?
      if call.cur ≤ call.gap.endId then
        some { s with
          planner := s.planner.enqueueTask call.gap call.cur now
          calls := s.calls.set index (call.turn s.planner now) }
      else none
  | .claimTask provider =>
      match s.planner.claimTask provider with
      | none => some s
      | some (taskId, planner) =>
          some { s with planner, claims := s.claims ++ [(provider, taskId)] }
  | .markDone taskId =>
      if taskId ∈ s.claimed then some { s with planner := s.planner.markDone taskId } else none
  | .markFailed taskId error =>
      if taskId ∈ s.claimed then some { s with planner := s.planner.markFailed taskId error }
      else none

structure AddGap.Sliced (most : Int) (planner : BackfillPlanner) (call : AddGap) : Prop where
  tiled : Tiling.Tiles most call.gap.startId (call.tasks.map Task.piece) call.cur
  within : call.gap.startId ≤ call.cur ∧ call.cur ≤ max call.gap.startId (call.gap.endId + 1)
  own : ∀ t ∈ call.tasks, t.provider = call.gap.provider ∧ t.symbol = call.gap.symbol
  stored : ∀ t ∈ call.tasks, ∃ u ∈ planner.tasks, t.Same u

structure Inv (most : Int) (s : System) : Prop where
  bound : s.planner.maxIdsPerTask = most
  sliced : ∀ call ∈ s.calls, call.Sliced most s.planner
  order : ∀ provider, s.claimedBy provider ++ s.planner.queues provider = s.enqueued provider
  untouched : ∀ t ∈ s.planner.tasks, t.taskId ∉ s.claimed → t.status = .pending ∧ t.tryCount = 0

section Steps

variable {most : Int} {s : System}

theorem AddGap.Sliced.keep {call : AddGap} {planner later : BackfillPlanner}
    (kept : ∀ t ∈ planner.tasks, ∃ u ∈ later.tasks, t.Same u) (sliced : call.Sliced most planner) :
    call.Sliced most later :=
  { sliced with
    stored := by
      intro t member
      obtain ⟨u, inside, same⟩ := sliced.stored t member
      obtain ⟨v, inside', same'⟩ := kept u inside
      exact ⟨v, inside', same.trans same'⟩ }

theorem kept_enqueueTask (planner : BackfillPlanner) (gap : Gap) (cur now : Int) :
    ∀ t ∈ planner.tasks, ∃ u ∈ (planner.enqueueTask gap cur now).tasks, t.Same u :=
  fun t member => ⟨t, List.mem_append_left _ member, rfl, rfl, rfl, rfl⟩

theorem kept_updateTask (planner : BackfillPlanner) (taskId : Nat) (status : TaskStatus)
    (tried : Nat) (error : Option String) :
    ∀ t ∈ planner.tasks, ∃ u ∈ (planner.updateTask taskId status tried error).tasks, t.Same u :=
  fun t member =>
    ⟨t.update taskId status tried error, List.mem_map_of_mem member,
      t.same_update taskId status tried error⟩

theorem AddGap.Sliced.turn {call : AddGap} (ids : 1 ≤ most)
    (bound : s.planner.maxIdsPerTask = most) (sliced : call.Sliced most s.planner)
    (loops : call.cur ≤ call.gap.endId) (now : Int) :
    (call.turn s.planner now).Sliced most (s.planner.enqueueTask call.gap call.cur now) := by
  have ends : s.planner.sliceEnd call.gap call.cur =
      min (call.cur + most - 1) call.gap.endId := by rw [BackfillPlanner.sliceEnd, bound]
  have inhabited : call.cur ≤ s.planner.sliceEnd call.gap call.cur := by omega
  have short : s.planner.sliceEnd call.gap call.cur - call.cur + 1 ≤ most := by omega
  have old := sliced.keep (kept_enqueueTask s.planner call.gap call.cur now)
  constructor
  case tiled =>
      have longer := sliced.tiled.concat inhabited short
      rw [AddGap.turn, List.map_append]
      exact longer
  case within =>
      have before := sliced.within
      simp only [AddGap.turn]
      omega
  case own =>
      intro t member
      rcases List.mem_append.mp member with earlier | made
      next => exact sliced.own t earlier
      next =>
          rw [List.mem_singleton.mp made]
          exact ⟨rfl, rfl⟩
  case stored =>
      intro t member
      rcases List.mem_append.mp member with earlier | made
      next => exact old.stored t earlier
      next =>
          rw [List.mem_singleton.mp made]
          exact ⟨_, List.mem_append_right _ (List.mem_singleton_self _), rfl, rfl, rfl, rfl⟩

theorem taskIds_update (tasks : List Task) (taskId : Nat) (status : TaskStatus) (tried : Nat)
    (error : Option String) (provider : String) :
    taskIds (tasks.map (Task.update taskId status tried error)) provider =
      taskIds tasks provider := by
  induction tasks with
  | nil => rfl
  | cons t rest ih =>
      unfold taskIds at ih ⊢
      obtain ⟨sameId, sameProvider, _⟩ := t.same_update taskId status tried error
      rw [List.map_cons, List.filter_cons, List.filter_cons, sameProvider]
      split
      next => rw [List.map_cons, List.map_cons, ih, sameId]
      next => exact ih

theorem taskIds_enqueueTask (planner : BackfillPlanner) (gap : Gap) (cur now : Int)
    (provider : String) :
    taskIds (planner.enqueueTask gap cur now).tasks provider =
      taskIds planner.tasks provider ++ if provider = gap.provider then [planner.nextId] else [] := by
  change ((planner.tasks ++ [planner.slice gap cur now]).filter _).map Task.taskId = _
  rw [List.filter_append, List.map_append]
  by_cases same : provider = gap.provider
  next => simp [taskIds, BackfillPlanner.slice, same]
  next => simp [taskIds, BackfillPlanner.slice, same, Ne.symm same]

theorem untouched_updateTask {planner : BackfillPlanner} {taskId : Nat} {status : TaskStatus}
    {tried : Nat} {error : Option String} {others : Nat → Prop}
    (untouched : ∀ t ∈ planner.tasks, others t.taskId → t.status = .pending ∧ t.tryCount = 0)
    (given : ¬ others taskId) :
    ∀ t ∈ (planner.updateTask taskId status tried error).tasks, others t.taskId →
      t.status = .pending ∧ t.tryCount = 0 := by
  intro t member other
  obtain ⟨old, inside, rfl⟩ := List.mem_map.mp member
  rw [Task.update_taskId] at other
  have different : old.taskId ≠ taskId := fun equal => given (equal ▸ other)
  rw [Task.update, if_neg different]
  exact untouched old inside other

theorem Inv.addGap (inv : Inv most s) (gap : Gap) :
    Inv most { s with calls := s.calls ++ [{ gap, cur := gap.startId }] } :=
  { bound := inv.bound
    order := inv.order
    untouched := inv.untouched
    sliced := by
      intro call member
      rcases List.mem_append.mp member with earlier | begun
      next => exact inv.sliced call earlier
      next =>
          rw [List.mem_singleton.mp begun]
          exact { tiled := rfl, within := ⟨Int.le_refl _, Int.le_max_left _ _⟩,
                  own := fun t made => absurd made List.not_mem_nil,
                  stored := fun t made => absurd made List.not_mem_nil } }

theorem Inv.turn (ids : 1 ≤ most) (inv : Inv most s) {index : Nat} {call : AddGap}
    (found : s.calls[index]? = some call) (loops : call.cur ≤ call.gap.endId) (now : Int) :
    Inv most { s with
      planner := s.planner.enqueueTask call.gap call.cur now
      calls := s.calls.set index (call.turn s.planner now) } := by
  have known := inv.sliced call (List.mem_of_getElem? found)
  constructor
  case bound => exact inv.bound
  case sliced =>
      intro other member
      rcases List.mem_or_eq_of_mem_set member with before | turned
      next => exact (inv.sliced other before).keep (kept_enqueueTask _ _ _ _)
      next =>
          rw [turned]
          exact known.turn ids inv.bound loops now
  case order =>
      intro provider
      have ordered := inv.order provider
      unfold System.enqueued at ordered ⊢
      rw [taskIds_enqueueTask, ← ordered]
      change _ ++ (if provider = call.gap.provider then _ else _) = _
      split
      next => rw [List.append_assoc]; rfl
      next => rw [List.append_nil]; rfl
  case untouched =>
      intro t member unclaimed
      rcases List.mem_append.mp member with before | made
      next => exact inv.untouched t before unclaimed
      next =>
          rw [List.mem_singleton.mp made]
          exact ⟨rfl, rfl⟩

theorem Inv.update (inv : Inv most s) {taskId : Nat} (status : TaskStatus) (tried : Nat)
    (error : Option String) {planner : BackfillPlanner} {claims : List (String × Nat)}
    (samePlanner : planner.tasks = s.planner.tasks ∧ planner.maxIdsPerTask = s.planner.maxIdsPerTask)
    (ordered : ∀ provider, ({ s with planner, claims } : System).claimedBy provider ++
      planner.queues provider = s.enqueued provider)
    (more : ∀ id ∈ s.claimed, id ∈ claims.map Prod.snd) (claimed : taskId ∈ claims.map Prod.snd) :
    Inv most { s with planner := planner.updateTask taskId status tried error, claims } := by
  constructor
  case bound => exact samePlanner.2.trans inv.bound
  case sliced =>
      intro call member
      refine ((inv.sliced call member).keep fun t inside => ?_).keep (kept_updateTask planner _ _ _ _)
      exact ⟨t, samePlanner.1 ▸ inside, rfl, rfl, rfl, rfl⟩
  case order =>
      intro provider
      have same := taskIds_update planner.tasks taskId status tried error provider
      exact (ordered provider).trans (by rw [System.enqueued, ← samePlanner.1, ← same]; rfl)
  case untouched =>
      refine @untouched_updateTask _ _ _ _ _ (· ∉ claims.map Prod.snd) (fun t member other => ?_)
        (not_not_intro claimed)
      exact inv.untouched t (samePlanner.1 ▸ member) fun before => other (more t.taskId before)

theorem claimTask_eq_some {planner later : BackfillPlanner} {provider : String} {taskId : Nat}
    (claimed : planner.claimTask provider = some (taskId, later)) :
    ∃ rest, planner.queues provider = taskId :: rest ∧
      later = ({ planner with
        queues := fun other => if other = provider then rest else planner.queues other } :
          BackfillPlanner).updateTask taskId .running 1 none := by
  unfold BackfillPlanner.claimTask at claimed
  split at claimed
  next => cases claimed
  next id rest queued =>
      cases claimed
      exact ⟨rest, queued, rfl⟩

theorem Inv.claimTask (inv : Inv most s) {provider : String} {taskId : Nat}
    {planner : BackfillPlanner} (claimed : s.planner.claimTask provider = some (taskId, planner)) :
    Inv most { s with planner, claims := s.claims ++ [(provider, taskId)] } := by
  obtain ⟨rest, queued, rfl⟩ := claimTask_eq_some claimed
  refine inv.update _ _ _ ⟨rfl, rfl⟩ (fun other => ?_) (fun id before => ?_) ?_
  next =>
      have ordered := inv.order other
      unfold System.claimedBy at ordered ⊢
      rw [List.filter_append, List.map_append]
      by_cases same : other = provider
      next =>
          subst same
          rw [queued] at ordered
          simpa using ordered
      next => simpa [same, Ne.symm same] using ordered
  next =>
      rw [List.map_append]
      exact List.mem_append_left _ before
  next =>
      rw [List.map_append]
      exact List.mem_append_right _ (List.mem_singleton_self _)

theorem Inv.step (ids : 1 ≤ most) {a : Action} {s' : System} (inv : Inv most s)
    (taken : PlannerRuns.step s a = some s') : Inv most s' := by
  cases a with
  | addGap gap =>
      cases taken
      exact inv.addGap gap
  | turn index now =>
      obtain ⟨call, found, taken⟩ := Option.bind_eq_some_iff.mp taken
      split at taken
      next loops =>
          cases taken
          exact inv.turn ids found loops now
      next => cases taken
  | claimTask provider =>
      simp only [PlannerRuns.step] at taken
      split at taken
      next =>
          cases taken
          exact inv
      next claimed =>
          cases taken
          exact inv.claimTask claimed
  | markDone taskId =>
      simp only [PlannerRuns.step] at taken
      split at taken
      next claimed =>
          cases taken
          exact inv.update _ _ _ ⟨rfl, rfl⟩ inv.order (fun _ before => before) claimed
      next => cases taken
  | markFailed taskId error =>
      simp only [PlannerRuns.step] at taken
      split at taken
      next claimed =>
          cases taken
          exact inv.update _ _ _ ⟨rfl, rfl⟩ inv.order (fun _ before => before) claimed
      next => cases taken

theorem Inv.reaches (ids : 1 ≤ most) (reached : Reaches PlannerRuns.step anyStep (.new most) s) :
    Inv most s := by
  refine reached.invariant (Inv most) ?_ fun _ _ _ inv _ taken => inv.step ids taken
  exact { bound := rfl, sliced := fun call member => absurd member List.not_mem_nil,
          order := fun _ => rfl, untouched := fun t member => absurd member List.not_mem_nil }

theorem mem_taskIds {tasks : List Task} {provider : String} {taskId : Nat} :
    taskId ∈ taskIds tasks provider ↔ ∃ t ∈ tasks, t.taskId = taskId ∧ t.provider = provider := by
  simp only [taskIds, List.mem_map, List.mem_filter, decide_eq_true_eq, and_assoc]
  exact exists_congr fun t => and_congr_right fun _ => and_comm

theorem Inv.claimed_own (inv : Inv most s) {provider : String} {taskId : Nat}
    (claimed : (provider, taskId) ∈ s.claims) :
    ∃ t ∈ s.planner.tasks, t.taskId = taskId ∧ t.provider = provider := by
  rw [← mem_taskIds]
  change taskId ∈ s.enqueued provider
  rw [← inv.order provider]
  refine List.mem_append_left _ (List.mem_map.mpr ⟨(provider, taskId), ?_, rfl⟩)
  exact List.mem_filter.mpr ⟨claimed, decide_eq_true rfl⟩

theorem task_unique (planner : BackfillPlanner) {t u : Task} (tIn : t ∈ planner.tasks)
    (uIn : u ∈ planner.tasks) (same : t.taskId = u.taskId) : t = u :=
  List.inj_on_of_nodup_map planner.unique tIn uIn same

-- Two claims of one task would be claims of one provider, whose queue held it only once.
theorem Inv.claimed_nodup (inv : Inv most s) : s.claimed.Nodup := by
  rw [List.nodup_iff_sublist]
  intro taskId twice
  obtain ⟨pairs, inside, equal⟩ := List.sublist_map_iff.mp twice
  obtain ⟨⟨first, one⟩, rest, rfl, oneId, equal⟩ := List.map_eq_cons_iff.mp equal.symm
  obtain ⟨⟨second, two⟩, _, rfl, twoId, equal⟩ := List.map_eq_cons_iff.mp equal
  cases List.map_eq_nil_iff.mp equal
  obtain ⟨t, tIn, tId, tOwn⟩ := inv.claimed_own (inside.subset List.mem_cons_self)
  obtain ⟨u, uIn, uId, uOwn⟩ := inv.claimed_own
    (inside.subset (List.mem_cons_of_mem _ List.mem_cons_self))
  change one = taskId at oneId
  change two = taskId at twoId
  subst oneId
  cases task_unique s.planner tIn uIn (by rw [tId, uId, twoId])
  cases tOwn.symm.trans uOwn
  have byOne : [one, one].Sublist (s.claimedBy first) := by
    have kept := (inside.filter fun claim => claim.1 = first).map Prod.snd
    simpa [System.claimedBy, twoId] using kept
  have single : (s.enqueued first).Nodup :=
    (List.filter_sublist.map Task.taskId).nodup s.planner.unique
  rw [← inv.order first] at single
  exact List.nodup_iff_sublist.mp single one (byOne.trans (List.sublist_append_left _ _))

end Steps

structure Planned (most : Int) (s : System) : Prop where
  -- A call of `add_gap` that has not come to the end of its gap takes another turn, but only so many.
  continues : ∀ index call now, s.calls[index]? = some call →
    ((step s (.turn index now)).isSome ↔ call.cur ≤ call.gap.endId)
  ends : ∀ call ∈ s.calls,
    (call.tasks.length : Int) ≤ max 0 (call.gap.endId - call.gap.startId + 1)
  tiles : ∀ call ∈ s.calls, call.gap.startId ≤ call.gap.endId → call.gap.endId < call.cur →
    Tiling.Exact most call.gap.startId call.gap.endId (call.tasks.map Task.piece)
  own : ∀ call ∈ s.calls, ∀ t ∈ call.tasks, t.provider = call.gap.provider ∧
    t.symbol = call.gap.symbol ∧ ∃ u ∈ s.planner.tasks, t.Same u
  once : s.claimed.Nodup
  claimant : ∀ claim ∈ s.claims, ∃ t ∈ s.planner.tasks, t.taskId = claim.2 ∧ t.provider = claim.1
  -- A provider has claimed the first of its tasks, and the rest are queued in the same order.
  order : ∀ provider, s.claimedBy provider ++ s.planner.queues provider = s.enqueued provider
  pending : ∀ t ∈ s.planner.tasks, t.taskId ∉ s.claimed →
    t.status = .pending ∧ t.taskId ∈ s.planner.queues t.provider

theorem planned_of_reaches (most : Int) (ids : 1 ≤ most) {s : System}
    (reached : Reaches step anyStep (.new most) s) : Planned most s := by
  have inv := Inv.reaches ids reached
  constructor
  case continues =>
      intro index call now found
      simp only [step, found, Option.bind_eq_bind, Option.bind_some]
      split
      next loops => simpa using loops
      next ended => simpa using ended
  case ends =>
      intro call member
      have sliced := inv.sliced call member
      have shorter := sliced.tiled.length_le
      have within := sliced.within
      rw [List.length_map] at shorter
      omega
  case tiles =>
      intro call member inhabited ended
      have sliced := inv.sliced call member
      have here : call.cur = call.gap.endId + 1 := by
        have within := sliced.within
        omega
      exact (here ▸ sliced.tiled).exact
  case own =>
      intro call member t made
      have own := (inv.sliced call member).own t made
      exact ⟨own.1, own.2, (inv.sliced call member).stored t made⟩
  case once => exact inv.claimed_nodup
  case claimant => exact fun claim member => inv.claimed_own member
  case order => exact inv.order
  case pending =>
      intro t member unclaimed
      refine ⟨(inv.untouched t member unclaimed).1, ?_⟩
      have enqueued : t.taskId ∈ s.enqueued t.provider := mem_taskIds.mpr ⟨t, member, rfl, rfl⟩
      rw [← inv.order t.provider] at enqueued
      refine (List.mem_append.mp enqueued).resolve_left fun claimed => unclaimed ?_
      exact (List.filter_sublist.map Prod.snd).subset claimed

def twoGaps : List Action :=
  [.addGap { provider := "binance", symbol := "BTCUSDT", startId := 1, endId := 9,
             discoveredAtNs := 0 },
   .addGap { provider := "other", symbol := "BTCUSDT", startId := 3, endId := 3,
             discoveredAtNs := 0 },
   .turn 0 0, .turn 0 0, .turn 1 0, .claimTask "binance", .turn 0 0, .claimTask "other"]

-- Two gaps cut up in turns, with claims in between.
theorem planned_of_reaches_twoGaps : ∃ s, Reaches step anyStep (.new 4) s ∧ Planned 4 s ∧
    s.claims = [("binance", 0), ("other", 2)] ∧
    s.calls.map (fun call => call.tasks.map Task.piece) = [[(1, 4), (5, 8), (9, 9)], [(3, 3)]] := by
  obtain ⟨s, reached, checked⟩ := reaches_of_check step (.new 4) twoGaps
    (fun s => s.claims = [("binance", 0), ("other", 2)] ∧
      s.calls.map (fun call => call.tasks.map Task.piece) =
        [[(1, 4), (5, 8), (9, 9)], [(3, 3)]]) (by decide +kernel)
  exact ⟨s, reached, planned_of_reaches 4 (by decide) reached, of_decide_eq_true checked⟩

end PlannerRuns

end DeepFeeder
