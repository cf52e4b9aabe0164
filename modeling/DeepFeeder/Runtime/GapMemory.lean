import DeepFeeder.Runtime.GapMonitor
import DeepFeeder.Shared.Transition
import DeepFeeder.Storage.Canonical

set_option autoImplicit false

namespace DeepFeeder

structure Page where
  rows : List Tick
  envs : List Envelope
  lastBid : Int

inductive MonitorPc where
  | fetch
  | scan (page : Page)
  | addGap (t : Tick) (seq : Int) (lastSeq : Option Int) (gap : Gap) (cur : Int) (page : Page)
  | advance (t : Tick) (seq : Int) (lastSeq : Option Int) (page : Page)

/-- The process and its journal. The last four fields are history: the tasks that any planner
enqueued, the row of each symbol that was last taken for its first, the saved `last_seq` when the
process started, and the tasks that the producer has marked since then. -/
structure GapState where
  monitor : GapMonitor
  planner : BackfillPlanner
  pc : MonitorPc
  enqueued : List Task
  firstSeen : String → Option Int
  startSeq : String → Int
  marked : List Nat

inductive GapAction where
  | append (call : AppendCall)
  | monitor (order : RowOrder) (now : Int)
  | claimTask (provider : String)
  | markDone (taskId : Nat)
  | markFailed (taskId : Nat) (error : String)
  | restart

namespace GapState

def journal (s : GapState) : DuckDbJournal := s.monitor.journal

def lastSaved (s : GapState) (symbol : String) : Int := s.journal.getWatermark (lastSeqScope symbol)

def new (maxIdsPerTask : Int) : GapState :=
  { monitor := .start .new, planner := .new maxIdsPerTask, pc := .fetch, enqueued := []
    firstSeen := fun _ => none, startSeq := fun _ => 0, marked := [] }

def scanRow (s : GapState) (t : Tick) (page : Page) : GapState :=
  match tradeSeq t with
  | none => { s with pc := .scan page }
  | some seq =>
      let (lastSeq, monitor) := s.monitor.getLastSeq t.symbol
      match gapBefore lastSeq t seq with
      | some gap => { s with monitor, pc := .addGap t seq lastSeq gap gap.startId page }
      | none => { s with monitor, pc := .advance t seq lastSeq page }

def saveCursor (s : GapState) (lastBid : Int) : GapState :=
  { s with
    monitor :=
      { s.monitor with
        nextBatch := lastBid + 1, journal := s.journal.setWatermark lastBid batchScope }
    pc := .fetch }

def enqueueSlice (s : GapState) (t : Tick) (seq : Int) (lastSeq : Option Int) (gap : Gap) (cur : Int)
    (page : Page) (now : Int) : GapState :=
  { s with
    planner := s.planner.enqueueTask gap cur now
    pc := .addGap t seq lastSeq gap (s.planner.sliceEnd gap cur + 1) page
    enqueued := s.enqueued ++ [s.planner.slice gap cur now] }

def advanceSeq (s : GapState) (t : Tick) (seq : Int) (lastSeq : Option Int) (page : Page) :
    GapState :=
  if raises lastSeq seq then
    { s with
      monitor := s.monitor.setLastSeq t.symbol seq
      pc := .scan page
      firstSeen := fun symbol =>
        if symbol = t.symbol ∧ lastSeq = none then some seq else s.firstSeen symbol }
  else { s with pc := .scan page }

def monitorStep (s : GapState) (order : RowOrder) (now : Int) : GapState :=
  match s.pc with
  | .fetch =>
      match s.journal.nextCommittedFrom order s.monitor.nextBatch 256 with
      | [] => s
      | env :: envs => { s with pc := .scan { rows := env.rows, envs, lastBid := env.batchId } }
  | .scan page =>
      match page.rows, page.envs with
      | t :: rows, _ => s.scanRow t { page with rows }
      | [], env :: envs => { s with pc := .scan { rows := env.rows, envs, lastBid := env.batchId } }
      | [], [] => s.saveCursor page.lastBid
  | .addGap t seq lastSeq gap cur page =>
      if cur ≤ gap.endId then s.enqueueSlice t seq lastSeq gap cur page now
      else { s with pc := .advance t seq lastSeq page }
  | .advance t seq lastSeq page => s.advanceSeq t seq lastSeq page

def restart (s : GapState) : GapState :=
  { s with
    monitor := .start s.journal
    planner := .new s.planner.maxIdsPerTask
    pc := .fetch
    startSeq := s.lastSaved
    marked := [] }

def step (s : GapState) : GapAction → Option GapState
  | .append call => some
      { s with
        monitor :=
          { s.monitor with
            journal := s.journal.appendEnvelope call.rowNumber call.now call.env } }
  | .monitor order now => some (s.monitorStep order now)
  | .claimTask provider => (s.planner.claimTask provider).map fun claimed =>
      { s with planner := claimed.2 }
  | .markDone taskId => some
      { s with planner := s.planner.markDone taskId, marked := taskId :: s.marked }
  | .markFailed taskId error => some
      { s with planner := s.planner.markFailed taskId error, marked := taskId :: s.marked }
  | .restart => some s.restart

end GapState

def Task.Covers (t : Task) (symbol : String) (i : Int) : Prop :=
  t.symbol = symbol ∧ t.startId ≤ i ∧ i ≤ t.endId

def Covered (tasks : List Task) (symbol : String) (i : Int) : Prop := ∃ t ∈ tasks, t.Covers symbol i

def Present (hot : List HotRow) (symbol : String) (i : Int) : Prop :=
  ∃ r ∈ hot, rowSeq symbol r = some i

theorem Task.covers_update (t : Task) (taskId : Nat) (status : TaskStatus) (tried : Nat)
    (error : Option String) (symbol : String) (i : Int) :
    (t.update taskId status tried error).Covers symbol i ↔ t.Covers symbol i := by
  unfold Task.update Task.Covers
  split
  · rfl
  · rfl

theorem covered_update (planner : BackfillPlanner) (taskId : Nat) (status : TaskStatus)
    (tried : Nat) (error : Option String) (symbol : String) (i : Int) :
    Covered (planner.updateTask taskId status tried error).tasks symbol i ↔
      Covered planner.tasks symbol i := by
  unfold Covered BackfillPlanner.updateTask
  simp [Task.covers_update]

theorem Covered.append_left {tasks : List Task} {symbol : String} {i : Int}
    (covered : Covered tasks symbol i) (more : List Task) : Covered (tasks ++ more) symbol i := by
  obtain ⟨t, member, covers⟩ := covered
  exact ⟨t, List.mem_append_left _ member, covers⟩

theorem Present.append {hot : List HotRow} {symbol : String} {i : Int}
    (present : Present hot symbol i) (more : List HotRow) : Present (hot ++ more) symbol i := by
  obtain ⟨r, member, number⟩ := present
  exact ⟨r, List.mem_append_left _ member, number⟩

end DeepFeeder
