import DeepFeeder.Fanout.PhaseOrder
import DeepFeeder.Fanout.Wiring

set_option autoImplicit false

namespace DeepFeeder.Gapless

open Transition SymListener
open MarketFeeder (info)

structure Share where
  rows : List Row
  events : List Event

namespace Share

-- The events that carry added rows; those of the updated part carry modified ones.
def carriers (share : Share) : List (Option Part × List Row) :=
  (share.events.filter fun event => event.part ≠ some .updated).map fun event =>
    (event.part, event.table.rows)

def InOne (row : Row) (carriers : List (Option Part × List Row)) : Prop :=
  ∃! i : Fin carriers.length, row ∈ (carriers.get i).2

def EachInOne (share : Share) : Prop := ∀ row ∈ share.rows, InOne row share.carriers

end Share

namespace Request

-- The client asks for no fields, or some column of the rows is among those that it asks for.
def keepsColumn (r : Request) (rows : List Row) : Bool :=
  match r.fields with
  | none | some [] => true
  | some fields =>
      (PaTable.ofRows r.timeCol rows).names.any fun name =>
        fields.any fun field => lower field = lower name

-- The parts in which added rows reach the client, each with all of them.
def deliveries (r : Request) (rows : List Row) : List (Option Part × List Row) :=
  if rows.isEmpty || !r.keepsColumn rows then []
  else if r.onlyCompleted then [(some .completed, rows)]
  else [(some .added, rows), (some .completed, rows)]

end Request

def State.outcome (s : State) (client : Nat) : List Event :=
  (s.received client).map Prod.fst ++
    (s.workers .updates).events.filter fun event => event.client = client

section Shares

variable [Uppercase] [QueryLanguage] (requests : Nat → Request) (client : Nat)

def share (s : State) : Action → Option Share
  | .update key added modified nowNs =>
      if key = (requests client).key then
        (s.feeder.lsn.lookup key).map fun lsn =>
          { rows := (tableUpdate s lsn added modified).added
            events := (queued requests s (.update key added modified nowNs)).filter fun event =>
              event.client = client }
      else none
  | _ => none

def shares : State → List Action → List Share
  | _, [] => []
  | s, a :: rest =>
      (share requests client s a).toList ++
        match step requests s a with
        | some s' => shares s' rest
        | none => []

end Shares

def Specced [Uppercase] (s : State) : Prop :=
  ∀ key lsn, s.feeder.lsn.lookup key = some lsn →
    schemas lsn.provider lsn.dataSchema = some lsn.spec ∧
      ∃ exchange, key = streamKey lsn.provider lsn.dataSchema lsn.symbol exchange

variable {requests : Nat → Request} {s s' : State} {client : Nat}

theorem filterFields_isSome (fields : Finset String) (t : PaTable) :
    (filterFields (some fields) t).isSome = true ↔
      ∃ name ∈ t.names, lower name ∈ fields.image lower := by
  constructor
  · intro kept
    unfold filterFields at kept
    simp only at kept
    split at kept
    next => cases kept
    next some_ =>
      obtain ⟨name, member⟩ := List.exists_mem_of_ne_nil _ fun nothing => some_ nothing
      rw [List.mem_filter, decide_eq_true_eq] at member
      exact ⟨name, member⟩
  · rintro ⟨name, member, requested⟩
    obtain ⟨live, filtered⟩ := filterFields_some member requested
    rw [filtered]
    rfl

theorem emitTables_carriers (client : Nat) (stream counter : String) (phase : Phase)
    (parts : List (Part × Option PaTable)) (rows : List Row) :
    Share.carriers { rows, events := emitTables client stream counter phase parts } =
      parts.filterMap fun part =>
        if part.1 = .updated then none
        else part.2.bind fun table =>
          if table.rows.isEmpty then none else some (some part.1, table.rows) := by
  unfold Share.carriers emitTables
  induction parts with
  | nil => rfl
  | cons part rest ih =>
      obtain ⟨part, table⟩ := part
      cases table with
      | none =>
          simp only [List.filterMap_cons_none]
          rw [ih]
          cases part <;> rfl
      | some table =>
          by_cases empty : table.rows = []
          · simpa [List.filterMap_cons, empty] using ih
          · by_cases modified : part = .updated
            · simpa [List.filterMap_cons, empty, modified] using ih
            · simpa [List.filterMap_cons, empty, modified] using ih

theorem eachInOne_iff {r : Request} {share : Share}
    (carriers : share.carriers = r.deliveries share.rows) :
    share.EachInOne ↔
      share.rows = [] ∨ r.onlyCompleted = true ∧ r.keepsColumn share.rows = true := by
  unfold Share.EachInOne
  rw [carriers]
  unfold Request.deliveries
  cases rows : share.rows with
  | nil => simp
  | cons first rest =>
      simp only [List.isEmpty_cons, Bool.false_or, reduceCtorEq, false_or]
      cases kept : r.keepsColumn (first :: rest) with
      | false =>
          simp only [Bool.not_false, if_true, Bool.false_eq_true, and_false, iff_false]
          intro each
          obtain ⟨i, _⟩ := each first List.mem_cons_self
          exact i.elim0
      | true =>
          cases completed : r.onlyCompleted with
          | true =>
              simp only [Bool.not_true, Bool.false_eq_true, if_false, if_true, and_self, iff_true]
              intro row member
              exact ⟨0, member, fun i _ => Fin.fin_one_eq_zero i⟩
          | false =>
              simp only [Bool.not_true, Bool.false_eq_true, if_false, false_and, iff_false]
              intro each
              obtain ⟨i, _, only⟩ := each first List.mem_cons_self
              have zero := only ⟨0, by simp⟩ List.mem_cons_self
              have one := only ⟨1, by simp⟩ List.mem_cons_self
              cases zero.trans one.symm

theorem outcome_kept (pc : s'.pc client = s.pc client)
    (own : (s'.workers (.client client)).events = (s.workers (.client client)).events)
    (updates : (s'.workers .updates).events = (s.workers .updates).events)
    (received : s'.received client = s.received client) :
    s'.attached client = s.attached client ∧ s'.outcome client = s.outcome client := by
  unfold State.attached State.outcome
  rw [Worker.idle_eq_isEmpty, Worker.idle_eq_isEmpty, pc, own, updates, received]
  exact ⟨rfl, rfl⟩

theorem setPc_outcome {other : Nat} (apart : other ≠ client) (pc : AttachPc) :
    (s.setPc other pc).attached client = s.attached client ∧
      (s.setPc other pc).outcome client = s.outcome client :=
  outcome_kept (Function.update_of_ne (Ne.symm apart) _ _) rfl rfl rfl

theorem advance_outcome {other : Nat} (apart : other ≠ client) (pc : AttachPc)
    (events : List Event) :
    ((s.setPc other pc).queue (.client other) events).attached client = s.attached client ∧
      ((s.setPc other pc).queue (.client other) events).outcome client = s.outcome client := by
  apply outcome_kept
  · exact Function.update_of_ne (Ne.symm apart) _ _
  · rw [State.queue_workers, if_neg (by simpa using Ne.symm apart)]
    rfl
  · rw [State.queue_workers, if_neg (by simp)]
    rfl
  · rfl

section Outcomes

variable [Uppercase]

-- No key is of two schemas.
theorem streamKey_schema {provider dataSchema symbol provider' dataSchema' symbol' : String}
    {exchange exchange' : Option String} {spec spec' : SchemaSpec}
    (registered : schemas provider dataSchema = some spec)
    (registered' : schemas provider' dataSchema' = some spec')
    (same : streamKey provider dataSchema symbol exchange =
      streamKey provider' dataSchema' symbol' exchange') : spec = spec' := by
  obtain ⟨rfl, rfl⟩ := streamKey_registered registered registered' same
  exact Option.some.inj (registered.symm.trans registered')

theorem start_specced (seqs : Dict String Nat) (tables : String → String → List Row) :
    Specced (.start {} seqs tables) :=
  fun _ _ found => by cases found

theorem keepsColumn_eq (r : Request) (client : Nat) (rows : List Row) :
    r.keepsColumn rows =
      (filterFields (info (r.sub client)).fields (.ofRows r.timeCol rows)).isSome := by
  unfold Request.keepsColumn
  split
  next none_ => simp [filterFields, info, Request.sub, none_]
  next empty => simp [filterFields, info, Request.sub, empty]
  next fields notEmpty some_ =>
    have asked : (info (r.sub client)).fields = some fields.toFinset := by
      simp only [info, Request.sub]
      split
      next none_ => rw [some_] at none_; cases none_
      next empty => exact absurd (some_.symm.trans empty) (by simpa using notEmpty)
      next other _ same => rw [some_, Option.some.injEq] at same; rw [same]
    rw [asked, Bool.eq_iff_iff, filterFields_isSome]
    simp [Finset.mem_image]

def heard (r : Request) (client : Nat) (rows : List Row) : Option PaTable :=
  ((nonEmpty rows).map (.ofRows r.timeCol)).bind (filterFields (info (r.sub client)).fields)

theorem heard_none {r : Request} {rows : List Row}
    (dropped : (rows.isEmpty || !r.keepsColumn rows) = true) : heard r client rows = none := by
  unfold heard nonEmpty
  split
  next => rfl
  next some_ =>
    simp only [some_, Bool.false_or, Bool.not_eq_true', keepsColumn_eq r client,
      Option.isSome_eq_false_iff, Option.isNone_iff_eq_none] at dropped
    exact dropped

theorem heard_some {r : Request} {rows : List Row}
    (kept : (rows.isEmpty || !r.keepsColumn rows) = false) :
    ∃ table, heard r client rows = some table ∧ table.rows = rows ∧ rows.isEmpty = false := by
  simp only [Bool.or_eq_false_iff, Bool.not_eq_false', keepsColumn_eq r client] at kept
  obtain ⟨table, filtered⟩ := Option.isSome_iff_exists.mp kept.2
  refine ⟨table, ?_, filterFields_rows filtered, kept.1⟩
  simp only [heard, nonEmpty, kept.1]
  exact filtered

theorem callback_carriers (r : Request) (client : Nat) (added modified : List Row) (nowNs : Int) :
    let batch : Batch :=
      { added := nonEmpty added, updated := nonEmpty modified, completed := nonEmpty added
        tsNs := nowNs }
    Share.carriers
      { rows := added
        events := emitTables client r.key r.key .live
          ((if r.onlyCompleted then completedParts r.timeCol batch
            else batchParts r.timeCol batch).map fun part =>
              (part.1, part.2.bind (filterFields (info (r.sub client)).fields))) } =
      r.deliveries added := by
  intro batch
  have parts : ((if r.onlyCompleted then completedParts r.timeCol batch
        else batchParts r.timeCol batch).map fun part =>
          (part.1, part.2.bind (filterFields (info (r.sub client)).fields))) =
      if r.onlyCompleted then [(.completed, heard r client added)]
      else [(.added, heard r client added), (.updated, heard r client modified),
        (.completed, heard r client added)] := by
    split
    · rfl
    · rfl
  rw [parts, emitTables_carriers]
  unfold Request.deliveries
  cases dropped : added.isEmpty || !r.keepsColumn added with
  | true =>
      rw [heard_none dropped, if_pos rfl]
      split
      · rfl
      · rfl
  | false =>
      obtain ⟨table, kept, rows, some_⟩ :
          ∃ table, heard r client added = some table ∧ _ := heard_some dropped
      rw [List.isEmpty_eq_false_iff] at some_
      simp only [kept, Bool.false_eq_true, if_false]
      split
      · simp [rows, some_]
      · simp [rows, some_]

def callbackEvents (requests : Nat → Request) (key : String) (batch : Batch) (info : HandleInfo) :
    List Event :=
  let r := requests info.callback.id
  if info.key = key then
    emitTables info.callback.id key r.key .live
      ((if info.onlyCompleted then completedParts r.timeCol batch else batchParts r.timeCol batch).map
        fun part => (part.1, part.2.bind (filterFields info.fields)))
  else []

theorem emitCompleted_eq (requests : Nat → Request) (feeder : MarketFeeder) (key : String)
    (batch : Batch) : emitCompleted requests feeder key batch =
      feeder.handles.entries.flatMap fun entry => callbackEvents requests key batch entry.2 := rfl

theorem mem_callbackEvents {key : String} {batch : Batch} {info : HandleInfo} {event : Event}
    (member : event ∈ callbackEvents requests key batch info) :
    event.client = info.callback.id := by
  unfold callbackEvents at member
  simp only at member
  split at member
  next => exact (mem_emitTables member).1
  next => cases member

theorem other_handles (wired : Wired requests s) {handle : String}
    (held : (s.pc client).handle = some handle) {before after : List (Sigma fun _ => HandleInfo)}
    {own : HandleInfo} (entries : s.feeder.handles.entries = before ++ ⟨handle, own⟩ :: after) :
    ∀ entry ∈ before ++ after, entry.2.callback.id ≠ client := by
  intro entry member same
  have inside : entry ∈ s.feeder.handles.entries := by
    rw [entries]
    grind
  obtain ⟨other, key, found, _⟩ := wired.handles entry.1 entry.2 (AList.mem_lookup_iff.mpr inside)
  have this : other = client := by
    rw [← same, found]
    rfl
  have distinct := s.feeder.handles.nodupKeys
  rw [entries, List.nodupKeys_middle] at distinct
  apply List.notMem_keys_of_nodupKeys_cons distinct
  change handle ∈ _
  rw [(wired.subscribed client handle held).1, ← this, ← key]
  exact List.mem_map_of_mem member

theorem callbackEvents_others (key : String) (batch : Batch)
    {others : List (Sigma fun _ : String => HandleInfo)}
    (apart : ∀ entry ∈ others, entry.2.callback.id ≠ client) :
    (others.flatMap fun entry => callbackEvents requests key batch entry.2).filter
      (fun event => event.client = client) = [] := by
  rw [List.filter_eq_nil_iff]
  intro event member
  obtain ⟨entry, inside, made⟩ := List.mem_flatMap.mp member
  rw [decide_eq_true_eq, mem_callbackEvents made]
  exact apart entry inside

theorem emitCompleted_own (wired : Wired requests s) {handle : String}
    (held : (s.pc client).handle = some handle) (batch : Batch) :
    (emitCompleted requests s.feeder (requests client).key batch).filter
        (fun event => event.client = client) =
      emitTables client (requests client).key (requests client).key .live
        ((if (requests client).onlyCompleted then completedParts (requests client).timeCol batch
          else batchParts (requests client).timeCol batch).map fun part =>
            (part.1, part.2.bind (filterFields (info ((requests client).sub client)).fields))) := by
  obtain ⟨_, known⟩ := wired.subscribed client handle held
  obtain ⟨before, after, entries⟩ := List.append_of_mem (AList.mem_lookup_iff.mp known)
  have apart := other_handles wired held entries
  have all : (callbackEvents requests (requests client).key batch
      (info ((requests client).sub client))).filter (fun event => event.client = client) =
        callbackEvents requests (requests client).key batch
          (info ((requests client).sub client)) := by
    rw [List.filter_eq_self]
    intro event member
    rw [decide_eq_true_eq, mem_callbackEvents member]
    rfl
  rw [emitCompleted_eq, entries, List.flatMap_append, List.flatMap_cons, List.filter_append,
    List.filter_append,
    callbackEvents_others _ _ fun entry member => apart entry (List.mem_append_left _ member),
    callbackEvents_others _ _ fun entry member => apart entry (List.mem_append_right _ member),
    all, List.nil_append, List.append_nil]
  exact if_pos rfl

theorem emit_outcome (wired : Wired requests s) {thread : Thread}
    (attached : s.attached client = true) (taken : emit s thread = some s') :
    s'.attached client = s.attached client ∧ s'.outcome client = s.outcome client := by
  obtain ⟨_, idle⟩ := (attached_iff s client).mp attached
  obtain ⟨event, seq, rest, here, rfl⟩ := emit_eq taken
  cases thread with
  | updates =>
      constructor
      · unfold State.attached
        rw [State.deliver_workers, if_neg (by simp)]
        rfl
      · have before : (s.workers .updates).events = event :: rest := by rw [here]; rfl
        unfold State.outcome
        rw [State.deliver_workers, if_pos rfl, State.deliver_received, before, List.filter_cons]
        by_cases same : client = event.client
        · subst same
          simp
        · simp [same, Ne.symm same]
  | client other =>
      have owner : event.client = other := wired.owned other event (by simp [here])
      have apart : client ≠ other := by
        rintro rfl
        rw [worker_of_ownPhases idle] at here
        cases here
      apply outcome_kept
      · rfl
      · rw [State.deliver_workers, if_neg (by simpa using apart)]
      · rw [State.deliver_workers, if_neg (by simp)]
      · rw [State.deliver_received, if_neg (owner ▸ apart)]

variable [QueryLanguage]

theorem step_specced {a : Action} (specced : Specced s) (taken : step requests s a = some s') :
    Specced s' := by
  apply step_listeners specced _ _ taken
  · exact fun client spec bufLen registered => ⟨registered, (requests client).exchange, rfl⟩
  · intro key added modified nowNs lsn _ found
    obtain ⟨registered, named⟩ := specced key lsn found
    refine ⟨registered.trans (congrArg some ?_), named⟩
    exact (onUpdate_remembers lsn.toSymListener _ nowNs).1.symm

theorem share_carriers {spec : SchemaSpec} (wired : Wired requests s) (specced : Specced s)
    (registered : schemas (requests client).provider (requests client).dataSchema = some spec)
    (tick : spec.isBar = false) (attached : s.attached client = true) {a : Action} {part : Share}
    (gets : share requests client s a = some part) :
    part.carriers = (requests client).deliveries part.rows := by
  obtain ⟨⟨handle, here⟩, _⟩ := (attached_iff s client).mp attached
  unfold share at gets
  split at gets
  next key added modified nowNs =>
    split at gets
    next same =>
      subst same
      obtain ⟨lsn, found, rfl⟩ := Option.map_eq_some_iff.mp gets
      obtain ⟨schema, exchange, own⟩ := specced _ lsn found
      have spec_ : lsn.spec = spec := streamKey_schema schema registered own.symm
      simp only [queued, found]
      rw [emitCompleted_own wired (by rw [here]; rfl)]
      have batch : (lsn.onUpdate (tableUpdate s lsn added modified) nowNs).1 =
          { added := nonEmpty (tableUpdate s lsn added modified).added
            updated := nonEmpty (tableUpdate s lsn added modified).modified
            completed := nonEmpty (tableUpdate s lsn added modified).added
            tsNs := nowNs } := by
        unfold onUpdate
        rw [if_neg (by simp [spec_, tick])]
      rw [batch]
      exact callback_carriers (requests client) client _ _ nowNs
    next => cases gets
  next => cases gets

theorem update_outcome (wired : Wired requests s) {key : String} {added modified : List Nat}
    {nowNs : Int} (taken : update requests s key added modified nowNs = some s') :
    s'.attached client = s.attached client ∧
      s'.outcome client = s.outcome client ++
        (share requests client s (.update key added modified nowNs)).toList.flatMap Share.events := by
  obtain ⟨lsn, found, idle, rfl⟩ := update_eq taken
  refine ⟨?_, ?_⟩
  · simp [State.attached, State.queue, State.setListener]
  · have queued_ : queued requests s (.update key added modified nowNs) =
        emitCompleted requests s.feeder key
          (lsn.onUpdate (tableUpdate s lsn added modified) nowNs).1 := by
      simp only [queued, found]
    have before : s.outcome client = (s.received client).map Prod.fst := by
      simp [State.outcome, idle, Worker.events]
    rw [before]
    simp only [State.outcome, State.queue_workers, if_pos, Worker.events_todo, ← queued_]
    apply congrArg ((s.received client).map Prod.fst ++ ·)
    simp only [share, found, Option.map_some]
    split
    next => simp
    next other =>
      simp only [Option.toList_none, List.flatMap_nil, List.filter_eq_nil_iff, decide_eq_true_eq]
      intro event member same
      rw [queued_] at member
      apply other
      rw [← (mem_emitCompleted member).1, (wired.emitCompleted_own member).1, same]

-- A step leaves an attached client attached, unless it detaches it, and adds its share to what the
-- client receives.
theorem step_outcome (wired : Wired requests s) {a : Action} (attached : s.attached client = true)
    (stays : a ≠ .detach client) (taken : step requests s a = some s') :
    s'.attached client = s.attached client ∧
      s'.outcome client =
        s.outcome client ++ (share requests client s a).toList.flatMap Share.events := by
  obtain ⟨⟨handle, bounded⟩, _⟩ := (attached_iff s client).mp attached
  have apart {other : Nat} {pc : AttachPc} (here : s.pc other = pc)
      (unbounded : ∀ handle, pc ≠ .bounded handle) : other ≠ client := by
    rintro rfl
    exact unbounded handle (here.symm.trans bounded)
  have nothing {s' : State}
      (kept : s'.attached client = s.attached client ∧ s'.outcome client = s.outcome client) :
      s'.attached client = s.attached client ∧ s'.outcome client = s.outcome client ++ [] :=
    ⟨kept.1, kept.2.trans (List.append_nil _).symm⟩
  cases a with
  | write provider dataSchema rows => cases taken; exact nothing ⟨rfl, rfl⟩
  | update key added modified nowNs => exact update_outcome wired taken
  | reset other =>
      obtain ⟨here, ⟨text, rfl⟩ | rfl⟩ := reset_eq taken
      · exact nothing (setPc_outcome (apart here (by simp)) _)
      · exact nothing (setPc_outcome (s := { s with seqs := _ }) (apart here (by simp)) _)
  | subscribe other creation =>
      obtain ⟨here, ⟨text, feeder, _, rfl⟩ | ⟨handle, feeder, _, rfl⟩⟩ := subscribe_eq taken
      · exact nothing (setPc_outcome (s := { s with feeder }) (apart here (by simp)) _)
      · exact nothing (setPc_outcome (s := { s with feeder }) (apart here (by simp)) _)
  | takeSnapshot other nowNs failure =>
      obtain ⟨handle, here, ⟨text, _, rfl⟩ | ⟨_, spec, _, _, rfl⟩⟩ := takeSnapshot_eq taken
      · exact nothing (setPc_outcome (apart here (by simp)) _)
      · exact nothing (advance_outcome (apart here (by simp)) _ _)
  | catchUp other =>
      obtain ⟨handle, watermark, here, _, rfl⟩ := catchUp_eq taken
      exact nothing (advance_outcome (apart here (by simp)) _ _)
  | boundary other =>
      obtain ⟨handle, watermark, here, _, rfl⟩ := boundary_eq taken
      exact nothing (advance_outcome (apart here (by simp)) _ _)
  | detach other =>
      obtain ⟨handle, here, _, rfl⟩ := detach_eq taken
      have other_ : other ≠ client := fun same => stays (congrArg Action.detach same)
      exact nothing (setPc_outcome (s := { s with feeder := _ }) other_ _)
  | number thread =>
      obtain ⟨event, rest, here, rfl⟩ := number_eq taken
      have events := State.readSeq_events here
      exact nothing (outcome_kept rfl (events _) (events _) rfl)
  | advance thread =>
      obtain ⟨event, seq, rest, here, rfl⟩ := advance_eq taken
      have events := State.writeSeq_events here
      exact nothing (outcome_kept rfl (events _) (events _) rfl)
  | emit thread => exact nothing (emit_outcome wired attached taken)

theorem run_outcome {spec : SchemaSpec} {actions : List Action} (wired : Wired requests s)
    (specced : Specced s)
    (registered : schemas (requests client).provider (requests client).dataSchema = some spec)
    (tick : spec.isBar = false) (attached : s.attached client = true)
    (stays : .detach client ∉ actions) (taken : run (step requests) s actions = some s') :
    s'.outcome client =
        s.outcome client ++ (shares requests client s actions).flatMap Share.events ∧
      ∀ part ∈ shares requests client s actions,
        part.carriers = (requests client).deliveries part.rows := by
  induction actions generalizing s with
  | nil =>
      cases taken
      exact ⟨(List.append_nil _).symm, fun _ member => nomatch member⟩
  | cons a rest ih =>
      obtain ⟨next, first, later⟩ := Option.bind_eq_some_iff.mp taken
      rw [List.mem_cons, not_or] at stays
      obtain ⟨here, there⟩ := stays
      obtain ⟨kept, outcome⟩ := step_outcome wired attached (Ne.symm here) first
      obtain ⟨outcomes, each⟩ := ih (step_wired wired first) (step_specced specced first)
        (kept.trans attached) there later
      have unfolded : shares requests client s (a :: rest) =
          (share requests client s a).toList ++ shares requests client next rest := by
        simp only [shares, first]
      rw [unfolded]
      constructor
      · rw [outcomes, outcome, List.flatMap_append, List.append_assoc]
      · intro part member
        rcases List.mem_append.mp member with now | after
        · exact share_carriers wired specced registered tick attached (Option.mem_toList.mp now)
        · exact each part after

theorem reached_specced {seqs : Dict String Nat} {tables : String → String → List Row}
    (reached : Reaches (step requests) anyStep (.start {} seqs tables) s) :
    Wired requests s ∧ Specced s := by
  apply reached.invariant fun s => Wired requests s ∧ Specced s
  · exact ⟨start_wired {} seqs tables, start_specced seqs tables⟩
  · rintro s a s' ⟨wired, specced⟩ _ taken
    exact ⟨step_wired wired taken, step_specced specced taken⟩

/-- What a client receives in a run that it stays attached in are its shares of the updates, in their
order. In each of them the added rows are in the parts that the client's request says, and so in one
event each exactly for a client of completed rows that asks for one of their columns. -/
theorem live_rows_delivered {spec : SchemaSpec} {seqs : Dict String Nat}
    {tables : String → String → List Row} {actions : List Action}
    (registered : schemas (requests client).provider (requests client).dataSchema = some spec)
    (tick : spec.isBar = false)
    (reached : Reaches (step requests) anyStep (.start {} seqs tables) s)
    (attached : s.attached client = true) (stays : .detach client ∉ actions)
    (taken : run (step requests) s actions = some s') :
    s'.outcome client =
        s.outcome client ++ (shares requests client s actions).flatMap Share.events ∧
      ∀ part ∈ shares requests client s actions,
        part.carriers = (requests client).deliveries part.rows ∧
          (part.EachInOne ↔ part.rows = [] ∨
            (requests client).onlyCompleted = true ∧
              (requests client).keepsColumn part.rows = true) := by
  obtain ⟨wired, specced⟩ := reached_specced reached
  obtain ⟨outcome, each⟩ := run_outcome wired specced registered tick attached stays taken
  refine ⟨outcome, ?_⟩
  intro part member
  exact ⟨each part member, eachInOne_iff (each part member)⟩

end Outcomes

attribute [local instance] asciiUppercase equalityTests

def tradeAdded : List Action :=
  [tradesUpTo 1000000000, .update "binance|trades|BTCUSDT" [0] [] 1000000001] ++
    emits .updates

def heardOf (s : State) (client : Nat) : List (Phase × Option Part × List Int) :=
  (s.received client).map fun delivered =>
    (delivered.1.phase, delivered.1.part, delivered.1.table.rows.map Row.time)

theorem completed_trade_delivered :
    ∃ s s', s.attached 0 = true ∧ run (step tradeRequests) s tradeAdded = some s' ∧
      heardOf s' 0 = [(.snapshot, some .completed, []), (.snapshotBoundary, none, []),
        (.live, some .completed, [1000000000])] ∧
      ∀ part ∈ shares tradeRequests 0 s tradeAdded,
        part.carriers = (tradeRequests 0).deliveries part.rows := by
  obtain ⟨s, reached, checked⟩ := reaches_of_check (step tradeRequests) (.start {} ∅ fun _ _ => [])
    (attaches 0)
    (fun s => s.attached 0 && decide ((run (step tradeRequests) s tradeAdded).map (heardOf · 0) =
      some [(.snapshot, some .completed, []), (.snapshotBoundary, none, []),
        (.live, some .completed, [1000000000])]))
    (by decide +kernel)
  rw [Bool.and_eq_true, decide_eq_true_eq] at checked
  obtain ⟨attached, received⟩ := checked
  obtain ⟨s', taken, heard⟩ := Option.map_eq_some_iff.mp received
  refine ⟨s, s', attached, taken, heard, ?_⟩
  have delivered := live_rows_delivered (show schemas "binance" "trades" = _ from rfl) rfl
    reached attached (by simp [tradeAdded, tradesUpTo, emits]) taken
  exact fun part member => (delivered.2 part member).1

-- A client of all parts, as the trades are sent by default, receives the trade twice.
theorem trade_delivered_twice :
    let requests := fun client => { tradeRequests client with onlyCompleted := false }
    ∃ s s', Reaches (step requests) anyStep (.start {} ∅ fun _ _ => []) s ∧
      s.attached 0 = true ∧ run (step requests) s (tradeAdded ++ emits .updates) = some s' ∧
      heardOf s' 0 = [(.snapshot, some .completed, []), (.snapshotBoundary, none, []),
        (.live, some .added, [1000000000]), (.live, some .completed, [1000000000])] ∧
      ∃ part ∈ shares requests 0 s (tradeAdded ++ emits .updates), ¬ part.EachInOne := by
  intro requests
  obtain ⟨s, reached, checked⟩ := reaches_of_check (step requests) (.start {} ∅ fun _ _ => [])
    (attaches 0)
    (fun s => s.attached 0 &&
      decide ((run (step requests) s (tradeAdded ++ emits .updates)).map (heardOf · 0) =
        some [(.snapshot, some .completed, []), (.snapshotBoundary, none, []),
          (.live, some .added, [1000000000]), (.live, some .completed, [1000000000])]) &&
      (shares requests 0 s (tradeAdded ++ emits .updates)).any fun part => !part.rows.isEmpty)
    (by decide +kernel)
  rw [Bool.and_eq_true, Bool.and_eq_true, decide_eq_true_eq] at checked
  obtain ⟨⟨attached, received⟩, added⟩ := checked
  obtain ⟨s', taken, heard⟩ := Option.map_eq_some_iff.mp received
  obtain ⟨part, member, some_⟩ := List.any_eq_true.mp added
  refine ⟨s, s', reached, attached, taken, heard, part, member, ?_⟩
  obtain ⟨wired, specced⟩ := reached_specced reached
  have carriers := (run_outcome wired specced
    (show schemas "binance" "trades" = some binanceTrades from rfl) rfl attached
    (by simp [tradeAdded, tradesUpTo, emits]) taken).2 part member
  rw [eachInOne_iff carriers]
  rintro (empty | ⟨completed, _⟩)
  · simp [empty] at some_
  · cases completed

end DeepFeeder.Gapless
