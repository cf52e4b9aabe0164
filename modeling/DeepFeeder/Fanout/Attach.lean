import Mathlib.Data.List.Perm.Subperm
import DeepFeeder.Shared.Transition
import DeepFeeder.Fanout.Snapshot

set_option autoImplicit false

namespace DeepFeeder.Attach

open Transition SymListener

-- `snapshot_range` of one symbol's rows with a start and no end, exchange or fields.
def snapshotRange (spec : SchemaSpec) (table : List Row) (startNs : Int) : List Row :=
  (table.filter fun row =>
    decide (wholeSecond startNs ≤ row.time) &&
      (!spec.cols.contains "IsEmpty" || match row.get "IsEmpty" with
        | .bool empty => !empty
        | _ => false)).insertionSort fun a b => a.time ≤ b.time

-- The rows of the buffered batches that `catchup_since_ns` emits to an `only_completed` client.
def catchupSinceNs (buf : List Batch) (sinceNs : Option Int) : List Row :=
  buf.flatMap fun batch =>
    match sinceNs with
    | none => batch.completed.getD []
    | some since => if since < batch.tsNs then batch.completed.getD [] else []

inductive AttachPc where
  | begin
  | listening
  | subscribed
  | snapshotted (watermark : Option Int)
  | caughtUp (watermark : Option Int)
  | attached (watermark : Option Int)
  deriving DecidableEq

def AttachPc.handleRegistered : AttachPc → Bool
  | .begin | .listening => false
  | _ => true

def AttachPc.pastSnapshot : AttachPc → Bool
  | .begin | .listening | .subscribed => false
  | _ => true

def AttachPc.pastCatchUp : AttachPc → Bool
  | .caughtUp _ | .attached _ => true
  | _ => false

/-- A non-bar table, the rows its listener has not been told of yet, the listener, and one client with
the rows it has received in each phase. -/
structure Attachment where
  spec : SchemaSpec
  startNs : Int
  table : List Row
  pending : List Row
  listener : Option SymListener
  pc : AttachPc
  snapshot : List Row
  catchup : List Row
  live : List Row

def Attachment.start (spec : SchemaSpec) (startNs : Int) : Attachment :=
  { spec, startNs, table := [], pending := [], listener := none, pc := .begin
    snapshot := [], catchup := [], live := [] }

def Attachment.received (s : Attachment) : List Row := s.snapshot ++ s.catchup ++ s.live

inductive Action where
  | append (row : Row)
  -- Another client's subscription starts the listener.
  | ensureListener
  | deliver (count : Nat) (nowNs : Int)
  | listen
  | register
  | takeSnapshot
  | catchUp
  | boundary

-- The listener is told only of rows that are appended after it was started.
def ensureListener (s : Attachment) : Attachment :=
  match s.listener with
  | some _ => s
  | none => { s with listener := some (.init s.spec 256), pending := [] }

def append (s : Attachment) (row : Row) : Attachment :=
  { s with
    table := s.table ++ [row]
    pending := if s.listener.isSome then s.pending ++ [row] else s.pending }

def deliver (s : Attachment) (count : Nat) (nowNs : Int) : Option Attachment :=
  match s.listener with
  | none => none
  | some listener =>
      let emitted := listener.onUpdate ⟨s.pending.take count, []⟩ nowNs
      some { s with
        pending := s.pending.drop count
        listener := some emitted.2
        live :=
          if s.pc.handleRegistered then s.live ++ emitted.1.completed.getD [] else s.live }

def takeSnapshot (s : Attachment) : Attachment :=
  let rows := snapshotRange s.spec s.table s.startNs
  { s with snapshot := rows, pc := .snapshotted (rows.getLast?.map Row.time) }

def buffered (s : Attachment) : List Batch :=
  match s.listener with
  | some listener => listener.buf
  | none => []

def step (s : Attachment) : Action → Option Attachment
  | .append row => some (append s row)
  | .ensureListener => some (ensureListener s)
  | .deliver count nowNs => deliver s count nowNs
  | .listen => match s.pc with
      | .begin => some { ensureListener s with pc := .listening }
      | _ => none
  | .register => match s.pc with
      | .listening => some { s with pc := .subscribed }
      | _ => none
  | .takeSnapshot => match s.pc with
      | .subscribed => some (takeSnapshot s)
      | _ => none
  | .catchUp => match s.pc with
      | .snapshotted watermark =>
          some { s with
            catchup := catchupSinceNs (buffered s) watermark
            pc := .caughtUp watermark }
      | _ => none
  | .boundary => match s.pc with
      | .caughtUp watermark => some { s with pc := .attached watermark }
      | _ => none

def recent (s : Attachment) (rows : List Row) : List Row := rows.filter fun row => s.startNs ≤ row.time

-- Each row of the requested time is received once, but for those that the update thread still holds.
def ExactlyOnce (s : Attachment) : Prop :=
  (recent s s.received ++ recent s s.pending).Perm (recent s s.table)

def overlap (s : Attachment) : Action → List Row
  | .takeSnapshot => s.live ++ s.pending
  | .catchUp => match s.pc with
      | .snapshotted watermark => catchupSinceNs (buffered s) watermark
      | _ => []
  | _ => []

def NoOverlap (s : Attachment) (a : Action) : Prop := ∀ row ∈ overlap s a, row.time < s.startNs

instance (s : Attachment) (a : Action) : Decidable (NoOverlap s a) :=
  inferInstanceAs (Decidable (∀ row ∈ overlap s a, row.time < s.startNs))

structure Accounted (extra : List Row) (s : Attachment) : Prop where
  tick : s.spec.isBar = false
  plain : s.spec.cols.contains "IsEmpty" = false
  wholeStart : wholeSecond s.startNs = s.startNs
  sameSpec : ∀ listener ∈ s.listener, listener.spec = s.spec
  running : s.pc = .begin ∨ s.listener.isSome = true
  noCatchup : s.pc.pastCatchUp = false → s.catchup = []
  noExtra : s.pc.pastSnapshot = false → extra = []
  balance : s.pc.pastSnapshot = true →
    (recent s s.received ++ recent s s.pending).Perm (recent s s.table ++ extra)

variable {extra : List Row} {s s' : Attachment}

theorem Accounted.listener_some (accounted : Accounted extra s) (begun : s.pc ≠ .begin) :
    s.listener.isSome = true :=
  accounted.running.resolve_left begun

theorem Accounted.move (accounted : Accounted extra s) {pc : AttachPc}
    (some : s.listener.isSome = true) (snapshot : pc.pastSnapshot = s.pc.pastSnapshot)
    (catchUp : pc.pastCatchUp = s.pc.pastCatchUp) : Accounted extra { s with pc } where
  tick := accounted.tick
  plain := accounted.plain
  wholeStart := accounted.wholeStart
  sameSpec := accounted.sameSpec
  running := .inr some
  noCatchup early := accounted.noCatchup (catchUp ▸ early)
  noExtra early := accounted.noExtra (snapshot ▸ early)
  balance past := accounted.balance (snapshot ▸ past)

theorem recent_append (s : Attachment) (first second : List Row) :
    recent s (first ++ second) = recent s first ++ recent s second :=
  List.filter_append _ _

theorem recent_eq_nil {rows : List Row} (older : ∀ row ∈ rows, row.time < s.startNs) :
    recent s rows = [] := by
  unfold recent
  rw [List.filter_eq_nil_iff]
  intro row member
  simpa using older row member

theorem snapshotRange_perm (accounted : Accounted extra s) :
    (recent s (snapshotRange s.spec s.table s.startNs)).Perm (recent s s.table) := by
  have rows : (snapshotRange s.spec s.table s.startNs).Perm (recent s s.table) := by
    unfold snapshotRange recent
    rw [accounted.plain, accounted.wholeStart]
    simpa using List.perm_insertionSort _ _
  have twice : recent s (recent s s.table) = recent s s.table := by
    simp [recent, List.filter_filter]
  rw [← twice]
  exact rows.filter _

theorem append_accounted (accounted : Accounted extra s) (row : Row) :
    Accounted extra (append s row) := by
  refine ⟨accounted.tick, accounted.plain, accounted.wholeStart, accounted.sameSpec,
    accounted.running, accounted.noCatchup, accounted.noExtra, ?_⟩
  intro past
  have some : s.listener.isSome = true := by
    apply accounted.listener_some
    intro start
    change s.pc.pastSnapshot = true at past
    rw [start] at past
    cases past
  have waiting : (append s row).pending = s.pending ++ [row] := by
    simp [append, some]
  change (recent s s.received ++ recent s (append s row).pending).Perm
    (recent s (s.table ++ [row]) ++ extra)
  rw [waiting, recent_append, recent_append, ← List.append_assoc, List.append_assoc (recent s s.table)]
  apply ((accounted.balance past).append_right _).trans
  rw [List.append_assoc]
  exact List.perm_append_comm.append_left _

theorem ensureListener_some (s : Attachment) : (ensureListener s).listener.isSome = true := by
  unfold ensureListener
  split
  next running => simp [running]
  next => rfl

theorem ensureListener_pc (s : Attachment) : (ensureListener s).pc = s.pc := by
  unfold ensureListener
  split
  · rfl
  · rfl

theorem ensureListener_accounted (accounted : Accounted extra s) :
    Accounted extra (ensureListener s) := by
  unfold ensureListener
  split
  · exact accounted
  next stopped =>
    have start : s.pc = .begin := by
      rcases accounted.running with start | some
      · exact start
      · simp [stopped] at some
    refine ⟨accounted.tick, accounted.plain, accounted.wholeStart, ?_, .inr rfl,
      accounted.noCatchup, accounted.noExtra, ?_⟩
    · intro listener member
      rw [Option.mem_some_iff] at member
      exact member ▸ rfl
    · intro past
      change s.pc.pastSnapshot = true at past
      rw [start] at past
      cases past

theorem deliver_accounted (accounted : Accounted extra s) {count : Nat} {nowNs : Int}
    (taken : deliver s count nowNs = some s') : Accounted extra s' := by
  unfold deliver at taken
  split at taken
  next => cases taken
  next listener current =>
    have same := accounted.sameSpec listener current
    obtain ⟨completed, spec⟩ :=
      onUpdate_tick (same.symm ▸ accounted.tick) ⟨s.pending.take count, []⟩ nowNs
    simp only [Option.some.injEq, completed] at taken
    subst taken
    refine ⟨accounted.tick, accounted.plain, accounted.wholeStart, ?_, .inr rfl,
      accounted.noCatchup, accounted.noExtra, ?_⟩
    · intro other member
      rw [Option.mem_some_iff] at member
      rw [← member, spec]
      exact same
    · intro past
      change s.pc.pastSnapshot = true at past
      have registered : s.pc.handleRegistered = true := by
        cases here : s.pc <;> simp_all [AttachPc.pastSnapshot, AttachPc.handleRegistered]
      have balance := accounted.balance past
      unfold Attachment.received recent at *
      rw [← List.take_append_drop count s.pending] at balance
      simp only [registered, if_true]
      simpa only [List.filter_append, List.append_assoc] using balance

theorem takeSnapshot_accounted (accounted : Accounted extra s) (here : s.pc = .subscribed) :
    Accounted (extra ++ recent s (s.live ++ s.pending)) (takeSnapshot s) := by
  have some := accounted.listener_some (by simp [here])
  have noCatchup := accounted.noCatchup (by rw [here]; rfl)
  have noExtra := accounted.noExtra (by rw [here]; rfl)
  refine ⟨accounted.tick, accounted.plain, accounted.wholeStart, accounted.sameSpec, .inr some, ?_,
    ?_, ?_⟩
  · intro _
    exact noCatchup
  · intro early
    cases early
  · intro _
    change (recent s (snapshotRange s.spec s.table s.startNs ++ s.catchup ++ s.live) ++
      recent s s.pending).Perm (recent s s.table ++ (extra ++ recent s (s.live ++ s.pending)))
    rw [noCatchup, noExtra, List.append_nil, List.nil_append, recent_append, recent_append,
      List.append_assoc]
    exact (snapshotRange_perm accounted).append_right _

theorem catchUp_accounted (accounted : Accounted extra s) {watermark : Option Int}
    (here : s.pc = .snapshotted watermark) (rows : List Row) :
    Accounted (extra ++ recent s rows) { s with catchup := rows, pc := .caughtUp watermark } := by
  have some := accounted.listener_some (by simp [here])
  refine ⟨accounted.tick, accounted.plain, accounted.wholeStart, accounted.sameSpec, .inr some, ?_,
    ?_, ?_⟩
  · intro early
    cases early
  · intro early
    cases early
  · intro _
    have balance := accounted.balance (by rw [here]; rfl)
    have noCatchup := accounted.noCatchup (by rw [here]; rfl)
    unfold Attachment.received at balance
    rw [noCatchup, List.append_nil, recent_append, List.append_assoc] at balance
    change (recent s (s.snapshot ++ rows ++ s.live) ++ recent s s.pending).Perm
      (recent s s.table ++ (extra ++ recent s rows))
    rw [recent_append, recent_append, List.append_assoc, List.append_assoc, ← List.append_assoc _ extra]
    -- The replayed rows stand between the snapshot and the live rows.
    apply (List.perm_append_comm.append_left _).trans
    rw [← List.append_assoc]
    exact balance.append_right _

theorem step_accounted {a : Action} (accounted : Accounted extra s) (taken : step s a = some s') :
    Accounted (extra ++ recent s (overlap s a)) s' := by
  have silent (nothing : overlap s a = []) (next : Accounted extra s') :
      Accounted (extra ++ recent s (overlap s a)) s' := by
    rw [nothing, recent, List.filter_nil, List.append_nil]
    exact next
  cases a with
  | append row =>
      cases taken
      exact silent rfl (append_accounted accounted row)
  | ensureListener =>
      cases taken
      exact silent rfl (ensureListener_accounted accounted)
  | deliver count nowNs => exact silent rfl (deliver_accounted accounted taken)
  | listen =>
      apply silent rfl
      simp only [step] at taken
      split at taken
      next here =>
        cases taken
        have ensured := ensureListener_accounted accounted
        rw [← ensureListener_pc s] at here
        exact ensured.move (ensureListener_some s) (by rw [here]; rfl) (by rw [here]; rfl)
      next => cases taken
  | register =>
      apply silent rfl
      simp only [step] at taken
      split at taken
      next here =>
        cases taken
        have some := accounted.listener_some (by simp [here])
        exact accounted.move some (by rw [here]; rfl) (by rw [here]; rfl)
      next => cases taken
  | takeSnapshot =>
      simp only [step] at taken
      split at taken
      next here =>
        cases taken
        exact takeSnapshot_accounted accounted here
      next => cases taken
  | catchUp =>
      simp only [step] at taken
      split at taken
      next watermark here =>
        cases taken
        have replayed : overlap s .catchUp = catchupSinceNs (buffered s) watermark := by
          simp [overlap, here]
        rw [replayed]
        exact catchUp_accounted accounted here _
      next => cases taken
  | boundary =>
      apply silent rfl
      simp only [step] at taken
      split at taken
      next watermark here =>
        cases taken
        have some := accounted.listener_some (by simp [here])
        exact accounted.move some (by rw [here]; rfl) (by rw [here]; rfl)
      next => cases taken

theorem start_accounted {spec : SchemaSpec} {startNs : Int} (tick : spec.isBar = false)
    (plain : spec.cols.contains "IsEmpty" = false) (wholeStart : startNs % 1000000000 = 0) :
    Accounted [] (.start spec startNs) := by
  refine ⟨tick, plain, wholeSecond_eq_self wholeStart, ?_, .inl rfl, fun _ => rfl, fun _ => rfl, ?_⟩
  · intro listener member
    cases member
  · intro past
    cases past

theorem attach_loses_none {spec : SchemaSpec} {startNs : Int} (tick : spec.isBar = false)
    (plain : spec.cols.contains "IsEmpty" = false) (wholeStart : startNs % 1000000000 = 0)
    (reached : Reaches step anyStep (.start spec startNs) s) (past : s.pc.pastSnapshot = true) :
    (recent s s.table).Subperm (recent s s.received ++ recent s s.pending) := by
  have accounted : ∃ extra, Accounted extra s := by
    apply reached.invariant fun s => ∃ extra, Accounted extra s
    · exact ⟨[], start_accounted tick plain wholeStart⟩
    · rintro s a s' ⟨extra, accounted⟩ _ taken
      exact ⟨_, step_accounted accounted taken⟩
  obtain ⟨extra, accounted⟩ := accounted
  have within := (List.sublist_append_left (recent s s.table) extra).subperm
  exact within.trans (accounted.balance past).symm.subperm

theorem attach_exactly_once {spec : SchemaSpec} {startNs : Int} (tick : spec.isBar = false)
    (plain : spec.cols.contains "IsEmpty" = false) (wholeStart : startNs % 1000000000 = 0)
    (reached : Reaches step NoOverlap (.start spec startNs) s)
    (past : s.pc.pastSnapshot = true) : ExactlyOnce s := by
  have accounted : Accounted [] s := by
    apply reached.invariant (Accounted []) (start_accounted tick plain wholeStart)
    intro s a s' accounted quiet taken
    have next := step_accounted accounted taken
    rwa [recent_eq_nil quiet] at next
  have balance := accounted.balance past
  rwa [List.append_nil] at balance

def trade (time : Int) : Row := { time, cells := [("TradeID", .int 1)], distinct := by simp }

theorem attach_exactly_once_quiet :
    ∃ s, Reaches step NoOverlap (.start binanceTrades 10000000000) s ∧
      s.snapshot.map Row.time = [11000000000] ∧ s.live.map Row.time = [12000000000] ∧
      ExactlyOnce s := by
  obtain ⟨s, reached, last⟩ := reaches_allowed_of_check step NoOverlap
    (.start binanceTrades 10000000000)
    [.append (trade 11000000000), .listen, .register, .takeSnapshot, .catchUp, .boundary,
      .append (trade 12000000000), .deliver 1 12050000000]
    (fun s => s.snapshot.map Row.time = [11000000000] ∧ s.live.map Row.time = [12000000000] ∧
      s.pc.pastSnapshot = true) (by decide) (by decide +kernel)
  obtain ⟨snapshot, live, past⟩ := of_decide_eq_true last
  exact ⟨s, reached, snapshot, live,
    attach_exactly_once (by decide) (by decide) (by decide) reached past⟩

-- The listener of another client has buffered the trade; it was received after its own market time,
-- so it counts as newer than the watermark.
theorem catchup_repeats_snapshot :
    ∃ s, Reaches step anyStep (.start binanceTrades 10000000000) s ∧
      s.pc = .attached (some 11000000000) ∧ s.pending = [] ∧
      s.table.map Row.time = [11000000000] ∧
      s.received.map Row.time = [11000000000, 11000000000] ∧ ¬ ExactlyOnce s := by
  obtain ⟨s, reached, last⟩ := reaches_of_check step (.start binanceTrades 10000000000)
    [.ensureListener, .append (trade 11000000000), .deliver 1 11050000000, .listen, .register,
      .takeSnapshot, .catchUp, .boundary]
    (fun s => s.pc = .attached (some 11000000000) ∧ s.pending = [] ∧
      s.table.map Row.time = [11000000000] ∧ s.received.map Row.time = [11000000000, 11000000000] ∧
      (recent s s.received).length = 2 ∧ (recent s s.table).length = 1) (by decide +kernel)
  obtain ⟨done, delivered, table, received, twice, once⟩ := of_decide_eq_true last
  refine ⟨s, reached, done, delivered, table, received, ?_⟩
  intro exactlyOnce
  have lengths := exactlyOnce.length_eq
  rw [List.length_append, twice, once] at lengths
  omega

end DeepFeeder.Attach
