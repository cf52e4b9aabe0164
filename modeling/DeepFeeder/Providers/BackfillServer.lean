import Mathlib.Tactic.Ring
import DeepFeeder.Shared.BoundedLoop
import DeepFeeder.Providers.Backfill

set_option autoImplicit false

namespace DeepFeeder.BackfillServer

open BoundedLoop

section Tasks

variable [Uppercase]

/-- The rows that `_process_task` accepts of a page, each with its `tid`, and the last id; none where
the loop over the rows raises. -/
def acceptPage (symbol : String) (endId : Int) :
    Int → List Value → Option (List (Int × Tick) × Int)
  | lastId, [] => some ([], lastId)
  | lastId, .dict r :: rest =>
      match (unwrap r).bind fun d => (tradeId d).map fun tid => (d, tid) with
      | none => acceptPage symbol endId lastId rest
      | some (d, tid) =>
          if tid ≤ lastId then acceptPage symbol endId lastId rest
          else if endId < tid then some ([], lastId)
          else
            (restTradeJsonToTick d symbol).bind fun tick =>
              (acceptPage symbol endId tid rest).map fun page => ((tid, tick) :: page.1, page.2)
  -- Only a dictionary has `get`.
  | _, _ :: _ => none

/-- A turn of the loop as the world makes it: the stop event at the test, the decoded response (none
where the request raises) and whether `publish` stores its batch. -/
structure ServerTurn where
  stop : Bool
  response : Option Value
  stored : Bool

structure Progress where
  cur : Int
  lastId : Int
  published : List (List (Int × Tick)) := []

structure Ended where
  published : List (List (Int × Tick))
  raised : Bool

def publishRows (task : Task) (limit : Int) (stored : Bool) (p : Progress) (rows : List Value) :
    Ended ⊕ Progress :=
  match acceptPage task.symbol task.endId p.lastId rows with
  | none => .inl { published := p.published, raised := true }
  | some ([], last) =>
      -- Without a tick the range of the page is skipped.
      if task.endId ≤ last then .inl { published := p.published, raised := false }
      else .inr { p with cur := min (p.cur + limit) (task.endId + 1), lastId := last }
  | some (accepted, last) =>
      if stored then
        let published := p.published ++ [accepted]
        if task.endId ≤ last then .inl { published, raised := false }
        else .inr { cur := last + 1, lastId := last, published }
      else .inl { published := p.published, raised := true }

def turn (pageSize : Int) (task : Task) (turns : Nat → ServerTurn) (k : Nat) (p : Progress) :
    Ended ⊕ Progress :=
  if p.cur ≤ task.endId ∧ (turns k).stop = false then
    match (turns k).response with
    | none => .inl { published := p.published, raised := true }
    | some rows =>
        if rows.truthy then
          match rows with
          | .list rows =>
              publishRows task (min pageSize (task.endId - p.cur + 1)) (turns k).stored p rows
          -- Neither the keys of a dictionary nor letters have `get`; a number is not iterable.
          | _ => .inl { published := p.published, raised := true }
        else .inl { published := p.published, raised := false }
  else .inl { published := p.published, raised := false }

/-- `_process_task` against any server, one request a turn; none where the turns do not suffice. -/
def processTask (pageSize : Int) (task : Task) (turns : Nat → ServerTurn) (fuel : Nat) :
    Option Ended :=
  loop (turn pageSize task turns) fuel 0 { cur := task.startId, lastId := task.startId - 1 }

variable {symbol : String} {endId lastId last : Int} {rows : List Value}
  {accepted : List (Int × Tick)} {pageSize : Int} {task : Task} {turns : Nat → ServerTurn}

def ticksOf (published : List (List (Int × Tick))) : List (List Tick) :=
  published.map (·.map Prod.snd)

def forget : Ended ⊕ Progress → TurnResult
  | .inl ended =>
      .exit (if ended.raised then .raised (ticksOf ended.published)
        else .returned (ticksOf ended.published))
  | .inr next => .next next.cur next.lastId (ticksOf next.published)

theorem acceptPage_dicts (symbol : String) (endId lastId : Int) (rows : List Payload) :
    (acceptPage symbol endId lastId (rows.map .dict)).map
        (fun page => (page.1.map Prod.snd, page.2)) = pageTicks symbol endId lastId rows := by
  induction rows generalizing lastId with
  | nil => rfl
  | cons r rest ih =>
      rw [List.map_cons, acceptPage, pageTicks]
      cases (unwrap r).bind fun d => (tradeId d).map fun tid => (d, tid) with
      | none => exact ih lastId
      | some found =>
          simp only
          split
          next => exact ih lastId
          next =>
              split
              next => rfl
              next => simp only [Option.map_bind, Option.map_map, Function.comp_def, ← ih found.2,
                List.map_cons]

-- On rows that are dictionaries, published without failure, a turn is that of `processTurn`.
theorem turn_eq_processTurn (pageSize : Int) (task : Task) (turns : Nat → ServerTurn) (k : Nat)
    (p : Progress) (getTrades : Int → Int → List Payload)
    (answered : (turns k).response =
      some (.list ((getTrades p.cur (min pageSize (task.endId - p.cur + 1))).map .dict)))
    (stored : (turns k).stored = true) :
    forget (turn pageSize task turns k p) =
      processTurn pageSize task (turns k).stop getTrades p.cur p.lastId (ticksOf p.published) := by
  unfold turn processTurn
  split
  next running =>
      simp only [answered]
      cases getTrades p.cur (min pageSize (task.endId - p.cur + 1)) with
      | nil => rfl
      | cons r rest =>
          have page := acceptPage_dicts task.symbol task.endId p.lastId (r :: rest)
          have truthy : (Value.list ((r :: rest).map .dict)).truthy = true := rfl
          simp only [truthy, if_true, publishPage, publishRows, ← page, stored]
          cases acceptPage task.symbol task.endId p.lastId ((r :: rest).map .dict) with
          | none => rfl
          | some page =>
              obtain ⟨accepted, last⟩ := page
              cases accepted with
              | nil =>
                  simp only [Option.map_some, List.map_nil, List.isEmpty_nil, if_true]
                  split
                  next => rfl
                  next => rfl
              | cons first others =>
                  simp only [Option.map_some, List.map_cons, List.isEmpty_cons]
                  split
                  next => simp [forget, ticksOf]
                  next => simp [forget, ticksOf]
  next => rfl

structure Ascends (lastId endId : Int) (accepted : List (Int × Tick)) (last : Int) : Prop where
  rising : (accepted.map Prod.fst).Pairwise (· < ·)
  inside : ∀ tid ∈ accepted.map Prod.fst, lastId < tid ∧ tid ≤ last ∧ tid ≤ endId
  ends : accepted = [] ∧ last = lastId ∨ accepted ≠ [] ∧ lastId < last ∧ last ≤ endId

theorem acceptPage_ascends (page : acceptPage symbol endId lastId rows = some (accepted, last)) :
    Ascends lastId endId accepted last := by
  induction rows generalizing lastId accepted last with
  | nil =>
      cases page
      exact { rising := .nil, inside := by simp, ends := .inl ⟨rfl, rfl⟩ }
  | cons row rest ih =>
      cases row with
      | dict r =>
          rw [acceptPage] at page
          split at page
          next => exact ih page
          next d tid found =>
              split at page
              next => exact ih page
              next above =>
                  split at page
                  next =>
                      cases page
                      exact { rising := .nil, inside := by simp, ends := .inl ⟨rfl, rfl⟩ }
                  next within =>
                      obtain ⟨tick, _, page⟩ := Option.bind_eq_some_iff.mp page
                      obtain ⟨⟨later, final⟩, parsed, equal⟩ := Option.map_eq_some_iff.mp page
                      cases equal
                      have tail := ih parsed
                      have reaches : tid ≤ final := by
                        rcases tail.ends with ⟨_, same⟩ | ⟨_, higher, _⟩
                        next => omega
                        next => omega
                      refine
                        { rising := List.pairwise_cons.mpr
                            ⟨fun other member => (tail.inside other member).1, tail.rising⟩
                          inside := ?_
                          ends := .inr ⟨List.cons_ne_nil _ _, by omega, ?_⟩ }
                      next =>
                          rw [List.map_cons, List.forall_mem_cons]
                          refine ⟨by omega, fun other member => ?_⟩
                          have known := tail.inside other member
                          omega
                      next =>
                          rcases tail.ends with ⟨_, same⟩ | ⟨_, _, low⟩
                          next => omega
                          next => exact low
      | none | bool | int | float | inf | nan | str | list => cases page

structure Sound (task : Task) (p : Progress) : Prop where
  cur : task.startId ≤ p.cur
  last : task.startId - 1 ≤ p.lastId
  rising : (p.published.flatten.map Prod.fst).Pairwise (· < ·)
  inside : ∀ tid ∈ p.published.flatten.map Prod.fst,
    task.startId ≤ tid ∧ tid ≤ p.lastId ∧ tid ≤ task.endId

def ids (task : Task) : Nat := (task.endId - task.startId + 1).toNat

def measure (task : Task) (p : Progress) : Nat :=
  (task.endId - p.lastId).toNat * (ids task + 1) + (task.endId + 1 - p.cur).toNat

omit [Uppercase] in
theorem Sound.publish {p : Progress} (sound : Sound task p)
    (ascends : Ascends p.lastId task.endId accepted last) (some_ : accepted ≠ []) :
    ((p.published ++ [accepted]).flatten.map Prod.fst).Pairwise (· < ·) ∧
      ∀ tid ∈ (p.published ++ [accepted]).flatten.map Prod.fst,
        task.startId ≤ tid ∧ tid ≤ last ∧ tid ≤ task.endId := by
  have higher : p.lastId < last := by
    rcases ascends.ends with ⟨none, _⟩ | ⟨_, higher, _⟩
    next => exact absurd none some_
    next => exact higher
  have start := sound.last
  rw [List.flatten_append, List.flatten_singleton, List.map_append]
  constructor
  next =>
      refine List.pairwise_append.mpr ⟨sound.rising, ascends.rising, fun a before b after => ?_⟩
      exact Int.lt_of_le_of_lt (sound.inside a before).2.1 (ascends.inside b after).1
  next =>
      intro tid member
      rcases List.mem_append.mp member with before | after
      next =>
          have known := sound.inside tid before
          exact ⟨known.1, by omega, known.2.2⟩
      next =>
          have known := ascends.inside tid after
          exact ⟨by omega, known.2⟩

def Published (task : Task) (ended : Ended) : Prop :=
  (ended.published.flatten.map Prod.fst).Pairwise (· < ·) ∧
    ∀ tid ∈ ended.published.flatten.map Prod.fst, task.startId ≤ tid ∧ tid ≤ task.endId

omit [Uppercase] in
theorem Sound.published {p : Progress} (sound : Sound task p) (raised : Bool) :
    Published task { published := p.published, raised } :=
  ⟨sound.rising, fun tid member =>
    have known := sound.inside tid member
    ⟨known.1, known.2.2⟩⟩

def Moves (task : Task) (p next : Progress) : Prop :=
  p.lastId < next.lastId ∧ next.lastId < task.endId ∧ task.startId ≤ next.cur ∨
    next.lastId = p.lastId ∧ p.cur < next.cur ∧ p.cur ≤ task.endId

omit [Uppercase] in
theorem Moves.lowers {p next : Progress} (moves : Moves task p next) :
    measure task next < measure task p := by
  unfold measure
  rcases moves with ⟨higher, below, start⟩ | ⟨same, later, within⟩
  next =>
      have fewer : (task.endId - next.lastId).toNat + 1 ≤ (task.endId - p.lastId).toNat := by omega
      have range : (task.endId + 1 - next.cur).toNat ≤ ids task := by
        unfold ids
        omega
      calc (task.endId - next.lastId).toNat * (ids task + 1) + (task.endId + 1 - next.cur).toNat
          < (task.endId - next.lastId).toNat * (ids task + 1) + (ids task + 1) := by omega
        _ = ((task.endId - next.lastId).toNat + 1) * (ids task + 1) := by ring
        _ ≤ (task.endId - p.lastId).toNat * (ids task + 1) := Nat.mul_le_mul_right _ fewer
        _ ≤ _ := Nat.le_add_right _ _
  next =>
      rw [same]
      omega

theorem publishRows_spec {limit : Int} {stored : Bool} {p : Progress} (sound : Sound task p)
    (within : p.cur ≤ task.endId) (positive : 1 ≤ limit) :
    (∃ ended, publishRows task limit stored p rows = .inl ended ∧ Published task ended) ∨
      ∃ next, publishRows task limit stored p rows = .inr next ∧ Sound task next ∧
        Moves task p next := by
  unfold publishRows
  split
  next => exact .inl ⟨_, rfl, sound.published true⟩
  next last page =>
      split
      next => exact .inl ⟨_, rfl, sound.published false⟩
      next =>
          have same : last = p.lastId := by
            rcases (acceptPage_ascends page).ends with ⟨_, same⟩ | ⟨some_, _⟩
            next => exact same
            next => exact absurd rfl some_
          have start := sound.cur
          refine .inr ⟨_, rfl, { sound with cur := ?_, last := ?_, inside := ?_ },
            .inr ⟨same, ?_, within⟩⟩
          next => change task.startId ≤ min (p.cur + limit) (task.endId + 1); omega
          next => exact same ▸ sound.last
          next => exact same ▸ sound.inside
          next => change p.cur < min (p.cur + limit) (task.endId + 1); omega
  next accepted last some_ page =>
      have ascends := acceptPage_ascends page
      have filled : accepted ≠ [] := some_
      have higher : p.lastId < last := by
        rcases ascends.ends with ⟨none, _⟩ | ⟨_, higher, _⟩
        next => exact absurd none filled
        next => exact higher
      obtain ⟨rising, inside⟩ := sound.publish ascends filled
      have start := sound.last
      split
      next =>
          simp only
          split
          next =>
              refine .inl ⟨_, rfl, rising, fun tid member => ?_⟩
              have known := inside tid member
              exact ⟨known.1, known.2.2⟩
          next unfinished =>
              refine .inr ⟨_, rfl, { cur := ?_, last := ?_, rising, inside }, .inl ⟨higher, ?_, ?_⟩⟩
              next => change task.startId ≤ last + 1; omega
              next => change task.startId - 1 ≤ last; omega
              next => exact Int.not_le.mp unfinished
              next => change task.startId ≤ last + 1; omega
      next => exact .inl ⟨_, rfl, sound.published true⟩

theorem turn_spec (pages : 1 ≤ pageSize) (k : Nat) {p : Progress} (sound : Sound task p) :
    (∃ ended, turn pageSize task turns k p = .inl ended ∧ Published task ended) ∨
      ∃ next, turn pageSize task turns k p = .inr next ∧ Sound task next ∧ Moves task p next := by
  unfold turn
  split
  next running =>
      split
      next => exact .inl ⟨_, rfl, sound.published true⟩
      next =>
          split
          next =>
              split
              next => exact publishRows_spec sound running.1 (by omega)
              next => exact .inl ⟨_, rfl, sound.published true⟩
          next => exact .inl ⟨_, rfl, sound.published false⟩
  next => exact .inl ⟨_, rfl, sound.published false⟩

-- Whatever the server answers, the task ends within (ids + 1)² requests, and the ids published rise
-- strictly within its range.
theorem processTask_ends (pages : 1 ≤ pageSize) (task : Task) (turns : Nat → ServerTurn) :
    ∃ ended, (∀ fuel, (ids task + 1) * (ids task + 1) ≤ fuel →
        processTask pageSize task turns fuel = some ended) ∧
      (ended.published.flatten.map Prod.fst).Pairwise (· < ·) ∧
      ∀ tid ∈ ended.published.flatten.map Prod.fst, task.startId ≤ tid ∧ tid ≤ task.endId := by
  have start : Sound task { cur := task.startId, lastId := task.startId - 1 } :=
    { cur := Int.le_refl _, last := Int.le_refl _, rising := .nil, inside := by simp }
  have next_ (k : Nat) (p next : Progress) (sound : Sound task p)
      (more : turn pageSize task turns k p = .inr next) : Sound task next ∧ Moves task p next := by
    rcases @turn_spec _ _ _ turns pages k _ sound with ⟨ended, left, _⟩ | ⟨next', moved, spec⟩
    next => cases more.symm.trans left
    next =>
        cases more.symm.trans moved
        exact spec
  obtain ⟨ended, k, p, sound, left, enough⟩ := @loop_ends _ _ (turn pageSize task turns) 0 _
    (Sound task) (measure task) (fun k p next sound more => (next_ k p next sound more).1)
    (fun k p next sound more => (next_ k p next sound more).2.lowers) start
  have published : Published task ended := by
    rcases @turn_spec _ _ _ turns pages k _ sound with ⟨ended', left', spec⟩ | ⟨_, moved, _⟩
    next =>
        cases left.symm.trans left'
        exact spec
    next => cases left.symm.trans moved
  refine ⟨ended, fun fuel many => enough fuel ?_, published⟩
  have first : measure task { cur := task.startId, lastId := task.startId - 1 } =
      ids task * (ids task + 1) + ids task := by
    have above : task.endId - (task.startId - 1) = task.endId - task.startId + 1 := by omega
    have whole : task.endId + 1 - task.startId = task.endId - task.startId + 1 := by omega
    simp only [measure, ids, above, whole]
  calc measure task { cur := task.startId, lastId := task.startId - 1 }
      = ids task * (ids task + 1) + ids task := first
    _ < ids task * (ids task + 1) + (ids task + 1) := by omega
    _ = (ids task + 1) * (ids task + 1) := by ring
    _ ≤ fuel := many

/-- A row that has an `id`, or no two ids under `t` and `tradeId`, or cannot be converted. -/
def OneId (r : Payload) : Prop :=
  ∀ d, unwrap r = some d → (∃ symbol tick, restTradeJsonToTick d symbol = some tick) →
    (field d "id").truthy = false → (field d "t").truthy = true → (field d "tradeId").truthy = true →
      ∀ tid, pyInt (field d "t") = some tid → pyInt (field d "tradeId") = some tid

def publishedIds (ended : Ended) : List (Option Int) := ended.published.flatten.map fun p => p.2.seq

def Sends (rows : Payload → Prop) (turns : Nat → ServerTurn) : Prop :=
  ∀ k items, (turns k).response = some (.list items) → ∀ r, .dict r ∈ items → rows r

theorem restId_of_tick {d : Payload} {symbol : String} {tick : Tick}
    (converted : restTradeJsonToTick d symbol = some tick) :
    ∃ n, tick.seq = some n ∧
      pyInt ((field d "id").or ((field d "tradeId").or (field d "t"))) = some n := by
  unfold restTradeJsonToTick at converted
  simp only [Option.bind_eq_bind, Option.bind_eq_some_iff, Option.some.injEq] at converted
  obtain ⟨n, read, _, _, _, _, _, _, _, _, _, _, _, _, rfl⟩ := converted
  exact ⟨n, rfl, read⟩

omit [Uppercase] in
theorem pyInt_falsy {v : Value} {n : Int} (falsy : v.truthy = false) (read : pyInt v = some n) :
    n = 0 := by
  cases v with
  | bool b =>
      rw [Value.truthy] at falsy
      subst falsy
      cases read
      rfl
  | int m =>
      cases read
      simpa [Value.truthy] using falsy
  | float q =>
      have zero : q = 0 := by simpa [Value.truthy] using falsy
      subst zero
      cases read
      rfl
  | str text =>
      have empty : text = "" := by simpa [Value.truthy] using falsy
      have unread : pyInt (.str "") = none := by decide +kernel
      rw [empty, unread] at read
      cases read
  | none | inf | nan | list | dict => cases read

-- Both orders of the fields read one id of a row, unless it has two under `t` and `tradeId`.
theorem seq_eq_tradeId {d : Payload} {symbol : String} {tick : Tick} {tid : Int}
    (converted : restTradeJsonToTick d symbol = some tick) (read : tradeId d = some tid)
    (same : (field d "id").truthy = false → (field d "t").truthy = true →
      (field d "tradeId").truthy = true →
        ∀ tid, pyInt (field d "t") = some tid → pyInt (field d "tradeId") = some tid) :
    tick.seq = some tid := by
  obtain ⟨n, seq, restRead⟩ := restId_of_tick converted
  unfold tradeId at read
  rw [seq, ← restRead]
  cases id : (field d "id").truthy with
  | true =>
      rw [Value.or_of_truthy id] at read ⊢
      exact read
  | false =>
      rw [Value.or_of_falsy id] at read restRead ⊢
      cases t : (field d "t").truthy with
      | true =>
          rw [Value.or_of_truthy t] at read
          cases other : (field d "tradeId").truthy with
          | true =>
              rw [Value.or_of_truthy other]
              exact same id t other tid read
          | false =>
              rw [Value.or_of_falsy other]
              exact read
      | false =>
          rw [Value.or_of_falsy t] at read
          cases other : (field d "tradeId").truthy with
          | true =>
              rw [Value.or_of_truthy other] at read ⊢
              exact read
          | false =>
              rw [Value.or_of_falsy other] at read restRead ⊢
              rw [restRead, pyInt_falsy t restRead]
              exact read

theorem acceptPage_seqs (page : acceptPage symbol endId lastId rows = some (accepted, last))
    (same : ∀ r, .dict r ∈ rows → OneId r) : ∀ p ∈ accepted, p.2.seq = some p.1 := by
  induction rows generalizing lastId accepted last with
  | nil =>
      cases page
      exact fun p member => absurd member List.not_mem_nil
  | cons row rest ih =>
      have later : ∀ r, .dict r ∈ rest → OneId r := fun r member =>
        same r (List.mem_cons_of_mem _ member)
      cases row with
      | dict r =>
          rw [acceptPage] at page
          split at page
          next => exact ih page later
          next d tid found =>
              split at page
              next => exact ih page later
              next =>
                  split at page
                  next =>
                      cases page
                      exact fun p member => absurd member List.not_mem_nil
                  next =>
                      obtain ⟨tick, converted, page⟩ := Option.bind_eq_some_iff.mp page
                      obtain ⟨⟨others, final⟩, parsed, equal⟩ := Option.map_eq_some_iff.mp page
                      cases equal
                      rintro p (_ | ⟨_, member⟩)
                      next =>
                          obtain ⟨d', unwrapped, known⟩ := Option.bind_eq_some_iff.mp found
                          obtain ⟨tid', read, pair⟩ := Option.map_eq_some_iff.mp known
                          cases pair
                          exact seq_eq_tradeId converted read
                            (same r List.mem_cons_self d unwrapped ⟨symbol, tick, converted⟩)
                      next => exact ih parsed later p member
      | none | bool | int | float | inf | nan | str | list => cases page

def Matched (published : List (List (Int × Tick))) : Prop :=
  ∀ p ∈ published.flatten, p.2.seq = some p.1

omit [Uppercase] in
theorem Matched.append {published : List (List (Int × Tick))} (matched : Matched published)
    (more : ∀ p ∈ accepted, p.2.seq = some p.1) : Matched (published ++ [accepted]) := by
  intro p member
  rw [List.flatten_append, List.flatten_singleton] at member
  rcases List.mem_append.mp member with before | after
  next => exact matched p before
  next => exact more p after

theorem publishRows_matched {limit : Int} {stored : Bool} {p : Progress}
    (matched : Matched p.published) (same : ∀ r, .dict r ∈ rows → OneId r) :
    (∃ ended, publishRows task limit stored p rows = .inl ended ∧ Matched ended.published) ∨
      ∃ next, publishRows task limit stored p rows = .inr next ∧ Matched next.published := by
  unfold publishRows
  split
  next => exact .inl ⟨_, rfl, matched⟩
  next =>
      split
      next => exact .inl ⟨_, rfl, matched⟩
      next => exact .inr ⟨_, rfl, matched⟩
  next accepted last _ page =>
      have more := matched.append (acceptPage_seqs page same)
      split
      next =>
          simp only
          split
          next => exact .inl ⟨_, rfl, more⟩
          next => exact .inr ⟨_, rfl, more⟩
      next => exact .inl ⟨_, rfl, matched⟩

theorem turn_matched (pageSize : Int) (task : Task) (k : Nat) {p : Progress} (sends : Sends OneId turns)
    (matched : Matched p.published) :
    (∃ ended, turn pageSize task turns k p = .inl ended ∧ Matched ended.published) ∨
      ∃ next, turn pageSize task turns k p = .inr next ∧ Matched next.published := by
  unfold turn
  split
  next =>
      split
      next => exact .inl ⟨_, rfl, matched⟩
      next value answered =>
          split
          next =>
              cases value with
              | list items => exact publishRows_matched matched (sends k items answered)
              | none | bool | int | float | inf | nan | str | dict => exact .inl ⟨_, rfl, matched⟩
          next => exact .inl ⟨_, rfl, matched⟩
  next => exact .inl ⟨_, rfl, matched⟩

theorem processTask_matched {fuel : Nat} {ended : Ended} (sends : Sends OneId turns)
    (finished : processTask pageSize task turns fuel = some ended) : Matched ended.published := by
  have run (fuel k : Nat) (p : Progress) (matched : Matched p.published)
      (finished : loop (turn pageSize task turns) fuel k p = some ended) :
      Matched ended.published := by
    induction fuel generalizing k p with
    | zero => cases finished
    | succ fuel ih =>
        rw [loop] at finished
        rcases turn_matched pageSize task k sends matched with
          ⟨left, result, known⟩ | ⟨next, result, known⟩
        next =>
            rw [result] at finished
            cases finished
            exact known
        next =>
            rw [result] at finished
            exact ih (k + 1) next known finished
  exact run fuel 0 _ (fun p member => absurd member (by simp)) finished

omit [Uppercase] in
theorem publishedIds_of_matched {ended : Ended} (matched : Matched ended.published) :
    publishedIds ended = (ended.published.flatten.map Prod.fst).map some := by
  unfold publishedIds
  rw [List.map_map]
  exact List.map_congr_left matched

def onlyId (tid : Int) (symbol : String) : Task :=
  { taskId := 0, provider := "binance", symbol, startId := tid, endId := tid, createdAtNs := 0 }

def answersWith (r : Payload) (_ : Nat) : ServerTurn :=
  { stop := false, response := some (.list [.dict r]), stored := true }

theorem processTask_onlyId {r d : Payload} {tid : Int} {tick : Tick} (unwrapped : unwrap r = some d)
    (read : tradeId d = some tid) (converted : restTradeJsonToTick d symbol = some tick) (fuel : Nat) :
    processTask 1 (onlyId tid symbol) (answersWith r) (fuel + 1) =
      some { published := [[(tid, tick)]], raised := false } := by
  have page : acceptPage symbol tid (tid - 1) [.dict r] = some ([(tid, tick)], tid) := by
    rw [acceptPage, unwrapped, Option.bind_some, read, Option.map_some]
    simp only
    rw [if_neg (by omega), if_neg (by omega), converted]
    rfl
  have turned : turn 1 (onlyId tid symbol) (answersWith r) 0
      { cur := (onlyId tid symbol).startId, lastId := (onlyId tid symbol).startId - 1 } =
        .inl { published := [[(tid, tick)]], raised := false } := by
    unfold turn
    rw [if_pos ⟨Int.le_refl tid, rfl⟩]
    change publishRows (onlyId tid symbol) _ true { cur := tid, lastId := tid - 1 } [.dict r] = _
    have known : acceptPage (onlyId tid symbol).symbol (onlyId tid symbol).endId (tid - 1)
        [.dict r] = some ([(tid, tick)], tid) := page
    unfold publishRows
    simp only [known, if_true]
    rw [if_pos (show (onlyId tid symbol).endId ≤ tid from Int.le_refl tid)]
    rfl
  unfold processTask
  rw [loop, turned]

/-- Against every server that sends only certain rows, every task ends, accepts ascending ids of its
range and publishes no id twice or outside its range, exactly when each of the rows has one id. -/
theorem publishes_once_iff (rows : Payload → Prop) :
    (∀ (pageSize : Int) (task : Task) (turns : Nat → ServerTurn), 1 ≤ pageSize → Sends rows turns →
      ∃ ended, (∀ fuel, (ids task + 1) * (ids task + 1) ≤ fuel →
          processTask pageSize task turns fuel = some ended) ∧
        (ended.published.flatten.map Prod.fst).Pairwise (· < ·) ∧
        (∀ tid ∈ ended.published.flatten.map Prod.fst, task.startId ≤ tid ∧ tid ≤ task.endId) ∧
        (publishedIds ended).Nodup ∧
        ∀ seq ∈ publishedIds ended, ∃ id, seq = some id ∧ task.startId ≤ id ∧ id ≤ task.endId) ↔
      ∀ r, rows r → OneId r := by
  constructor
  next =>
      intro all r sent d unwrapped ⟨symbol, tick, converted⟩ id t other tid read
      have accepted : tradeId d = some tid := by
        unfold tradeId
        rw [Value.or_of_falsy id, Value.or_of_truthy t, read]
      have sends : Sends rows (answersWith r) := by
        rintro k items answered r' member
        cases answered
        rw [List.mem_singleton, Value.dict.injEq] at member
        exact member ▸ sent
      obtain ⟨ended, ends, _, _, _, inside⟩ :=
        all 1 (onlyId tid symbol) (answersWith r) (Int.le_refl 1) sends
      have run := ends _ (Nat.le_succ _)
      rw [processTask_onlyId unwrapped accepted converted, Option.some.injEq] at run
      subst run
      obtain ⟨only, seq, low, high⟩ := inside tick.seq List.mem_cons_self
      obtain ⟨n, known, restRead⟩ := restId_of_tick converted
      rw [Value.or_of_falsy id, Value.or_of_truthy other] at restRead
      obtain rfl : n = only := Option.some.inj (known.symm.trans seq)
      obtain rfl : n = tid := Int.le_antisymm high low
      exact restRead
  next =>
      intro same pageSize task turns pages sends
      obtain ⟨ended, ends, rising, inside⟩ := processTask_ends pages task turns
      have one : Sends OneId turns := fun k items answered r member =>
        same r (sends k items answered r member)
      have matched := processTask_matched one (ends _ (Nat.le_refl _))
      refine ⟨ended, ends, rising, inside, ?_, ?_⟩
      next =>
          rw [publishedIds_of_matched matched]
          exact (rising.imp Int.ne_of_lt).map _ fun _ _ different => by simpa using different
      next =>
          intro seq member
          rw [publishedIds_of_matched matched] at member
          obtain ⟨tid, accepted, rfl⟩ := List.mem_map.mp member
          exact ⟨tid, rfl, inside tid accepted⟩

end Tasks

def fiveToNine : Task :=
  { taskId := 0, provider := "binance", symbol := "BTCUSDT", startId := 5, endId := 9
    createdAtNs := 0 }

-- It is accepted by `t` and published with `tradeId`.
def twoIds : Payload :=
  [("t", .int 5), ("tradeId", .int 99), ("price", .str "1"), ("qty", .str "1")]

attribute [local instance] asciiUppercase

theorem published_outside_task :
    ∃ ended, processTask 1000 fiveToNine (answersWith twoIds) 36 = some ended ∧
      ended.published.flatten.map Prod.fst = [5] ∧ publishedIds ended = [some 99] ∧
      ¬ ∀ seq ∈ publishedIds ended, ∃ id, seq = some id ∧ 5 ≤ id ∧ id ≤ 9 := by
  have run : (processTask 1000 fiveToNine (answersWith twoIds) 36).map (fun ended =>
      (ended.published.flatten.map Prod.fst, publishedIds ended)) = some ([5], [some 99]) := by
    decide +kernel
  obtain ⟨ended, finished, known⟩ := Option.map_eq_some_iff.mp run
  obtain ⟨accepted, seqs⟩ := Prod.mk.inj known
  refine ⟨ended, finished, accepted, seqs, ?_⟩
  rw [seqs]
  intro inside
  obtain ⟨id, same, _, high⟩ := inside (some 99) List.mem_cons_self
  cases same
  omega

end DeepFeeder.BackfillServer
