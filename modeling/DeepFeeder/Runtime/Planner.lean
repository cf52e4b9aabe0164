import Mathlib.Data.List.Nodup
import Mathlib.Data.Int.Order.Basic

set_option autoImplicit false

namespace DeepFeeder

structure Gap where
  provider : String
  symbol : String
  startId : Int
  endId : Int
  discoveredAtNs : Int
  priority : Int := 0

inductive TaskStatus where
  | pending
  | running
  | done
  | failed
  deriving DecidableEq

structure Task where
  -- A fresh `uuid4` is the next number.
  taskId : Nat
  provider : String
  symbol : String
  startId : Int
  endId : Int
  createdAtNs : Int
  status : TaskStatus := .pending
  tryCount : Nat := 0
  lastError : String := ""

def Task.update (taskId : Nat) (status : TaskStatus) (tried : Nat) (error : Option String)
    (t : Task) : Task :=
  if t.taskId = taskId then
    { t with status, tryCount := t.tryCount + tried, lastError := error.getD t.lastError }
  else t

theorem Task.update_taskId (t : Task) (taskId : Nat) (status : TaskStatus) (tried : Nat)
    (error : Option String) : (t.update taskId status tried error).taskId = t.taskId := by
  unfold Task.update
  split
  · rfl
  · rfl

/-- `_tasks` in insertion order; a queue holds the ids of the task objects in it. -/
structure BackfillPlanner where
  maxIdsPerTask : Int
  queues : String → List Nat
  tasks : List Task
  nextId : Nat
  fresh : ∀ t ∈ tasks, t.taskId < nextId
  unique : (tasks.map Task.taskId).Nodup

namespace BackfillPlanner

def new (maxIdsPerTask : Int) : BackfillPlanner :=
  { maxIdsPerTask, queues := fun _ => [], tasks := [], nextId := 0, fresh := by simp
    unique := by simp }

def sliceEnd (planner : BackfillPlanner) (gap : Gap) (cur : Int) : Int :=
  min (cur + planner.maxIdsPerTask - 1) gap.endId

def slice (planner : BackfillPlanner) (gap : Gap) (cur now : Int) : Task :=
  { taskId := planner.nextId, provider := gap.provider, symbol := gap.symbol, startId := cur
    endId := planner.sliceEnd gap cur, createdAtNs := now }

def enqueueTask (planner : BackfillPlanner) (gap : Gap) (cur now : Int) : BackfillPlanner :=
  { planner with
    queues := fun provider =>
      if provider = gap.provider then planner.queues provider ++ [planner.nextId]
      else planner.queues provider
    tasks := planner.tasks ++ [planner.slice gap cur now]
    nextId := planner.nextId + 1
    fresh := by
      intro t member
      rcases List.mem_append.mp member with old | new
      · exact Nat.lt_succ_of_lt (planner.fresh t old)
      · rw [List.mem_singleton.mp new]
        exact Nat.lt_succ_self _
    unique := by
      rw [List.map_append, List.nodup_append]
      refine ⟨planner.unique, by simp, ?_⟩
      rintro id old other new rfl
      obtain ⟨t, member, rfl⟩ := List.mem_map.mp old
      have := planner.fresh t member
      simp [slice] at new
      omega }

def updateTask (planner : BackfillPlanner) (taskId : Nat) (status : TaskStatus) (tried : Nat)
    (error : Option String) : BackfillPlanner :=
  { planner with
    tasks := planner.tasks.map (Task.update taskId status tried error)
    fresh := by
      intro t member
      obtain ⟨old, inside, rfl⟩ := List.mem_map.mp member
      exact old.update_taskId taskId status tried error ▸ planner.fresh old inside
    unique := by
      have same : planner.tasks.map (Task.taskId ∘ Task.update taskId status tried error) =
          planner.tasks.map Task.taskId :=
        List.map_congr_left fun t _ => t.update_taskId taskId status tried error
      rw [List.map_map, same]
      exact planner.unique }

def claimTask (planner : BackfillPlanner) (provider : String) :
    Option (Nat × BackfillPlanner) :=
  match planner.queues provider with
  | [] => none
  | taskId :: rest =>
      let popped := { planner with
        queues := fun other => if other = provider then rest else planner.queues other }
      some (taskId, popped.updateTask taskId .running 1 none)

def markDone (planner : BackfillPlanner) (taskId : Nat) : BackfillPlanner :=
  planner.updateTask taskId .done 0 none

def markFailed (planner : BackfillPlanner) (taskId : Nat) (error : String) : BackfillPlanner :=
  planner.updateTask taskId .failed 0 (some error)

end BackfillPlanner

end DeepFeeder
