import Mathlib.Data.List.MinMax
import Mathlib.Data.List.Dedup
import Mathlib.Data.Prod.Lex
import DeepFeeder.Storage.Journal
import DeepFeeder.Shared.Keyed
import DeepFeeder.Shared.Register

set_option autoImplicit false

namespace DeepFeeder

abbrev CanonicalKey := String × String × String × String

structure Stored where
  tsNs : Int
  seq : Option Int
  isFinal : Bool
  payload : Option Payload

def CanonicalRow.stored (r : CanonicalRow) : Stored :=
  { tsNs := r.tsNs, seq := r.seq, isFinal := r.isFinal, payload := r.payload }

def hexDigits (width n : Nat) : List Char :=
  let digits := Nat.toDigits 16 n
  List.replicate (width - digits.length) '0' ++ digits

-- One character of `repr`, exact up to U+00FF; every later character is printed as it is.
def reprChar (quote c : Char) : List Char :=
  if c = quote ∨ c = '\\' then ['\\', c]
  else if c = '\n' then ['\\', 'n']
  else if c = '\r' then ['\\', 'r']
  else if c = '\t' then ['\\', 't']
  else if c.toNat < 32 ∨ 127 ≤ c.toNat ∧ c.toNat ≤ 160 ∨ c.toNat = 173 then
    '\\' :: 'x' :: hexDigits 2 c.toNat
  else [c]

def reprQuote (s : String) : Char :=
  if s.toList.contains (Char.ofNat 39) && !s.toList.contains (Char.ofNat 34) then Char.ofNat 34
  else Char.ofNat 39

def reprStr (s : String) : String :=
  String.ofList (reprQuote s :: s.toList.flatMap (reprChar (reprQuote s)) ++ [reprQuote s])

/-- `str(natural_key(t))`. -/
def natKeyText (t : Tick) : String :=
  let (provider, stream, symbol, position) := naturalKey t
  "(" ++ reprStr provider ++ ", " ++ reprStr stream ++ ", " ++ reprStr symbol ++ ", "
    ++ toString position ++ ")"

structure Candidate extends Stored where
  provider : String
  stream : String
  symbol : String
  natKey : String

def Candidate.key (s : Candidate) : CanonicalKey := (s.provider, s.stream, s.symbol, s.natKey)

def candidate (t : Tick) : Candidate :=
  { provider := t.provider, stream := t.stream, symbol := t.symbol, natKey := natKeyText t
    tsNs := t.tsNs, seq := some (t.seq.getD (-1)), isFinal := t.isFinal, payload := some t.payload }

def Tick.canonicalKey (t : Tick) : CanonicalKey := (t.provider, t.stream, t.symbol, natKeyText t)

def Tick.stored (t : Tick) : Stored := (candidate t).toStored

-- `ORDER BY is_final DESC, COALESCE(seq, -1) DESC, ts_ns DESC`, the greatest first.
def Stored.rank (s : Stored) : Bool ×ₗ Int ×ₗ Int :=
  toLex (s.isFinal, toLex (s.seq.getD (-1), s.tsNs))

-- A comparison with NULL is not true.
def seqNotBelow : Option Int → Option Int → Bool
  | some m, some n => n ≤ m
  | _, _ => false

def seqUnset : Option Int → Bool
  | some n => n < 0
  | none => true

def overwrites (b c : Stored) : Bool :=
  b.isFinal ||
    (!c.isFinal &&
      (seqNotBelow b.seq c.seq || (seqUnset b.seq && seqUnset c.seq && decide (c.tsNs ≤ b.tsNs))))

/-- The row that `ROW_NUMBER()` numbers first in a partition: one that no other row of it precedes
in the `ORDER BY`. Which one among equals is the engine's choice. -/
structure RowNumber where
  first : List Candidate → Option Candidate
  first_mem : ∀ {rows b}, first rows = some b → b ∈ rows
  first_top : ∀ {rows b}, first rows = some b → ∀ s ∈ rows, s.rank ≤ b.rank
  first_ne_none : ∀ {rows}, rows ≠ [] → first rows ≠ none

def tmpBest (rowNumber : RowNumber) (tmpCand : List Candidate) : List Candidate :=
  (tmpCand.map Candidate.key).dedup.filterMap fun key =>
    rowNumber.first (tmpCand.filter fun s => decide (s.key = key))

def CanonicalRow.set (c : CanonicalRow) (b : Stored) (now : Int) : CanonicalRow :=
  { c with
    tsNs := b.tsNs, seq := b.seq, isFinal := b.isFinal, payload := b.payload, updatedAtNs := now }

def CanonicalRow.ofBest (b : Candidate) (now : Int) : CanonicalRow :=
  { provider := b.provider, stream := b.stream, symbol := b.symbol, natKey := b.natKey
    tsNs := b.tsNs, seq := b.seq, isFinal := b.isFinal, payload := b.payload, updatedAtNs := now }

def updateRow (best : List Candidate) (now : Int) (c : CanonicalRow) : CanonicalRow :=
  match Keyed.lookup Candidate.key best c.primaryKey with
  | some b => if overwrites b.toStored c.stored then c.set b.toStored now else c
  | none => c

def missing (canonical : JournalCanonical) (key : CanonicalKey) : Bool :=
  (Keyed.lookup CanonicalRow.primaryKey canonical.rows key).isNone

theorem updateRow_primaryKey (best : List Candidate) (now : Int) (c : CanonicalRow) :
    (updateRow best now c).primaryKey = c.primaryKey := by
  unfold updateRow
  split
  · split
    · rfl
    · rfl
  · rfl

theorem key_of_first {rowNumber : RowNumber} {tmpCand : List Candidate} {key : CanonicalKey}
    {b : Candidate}
    (picked : rowNumber.first (tmpCand.filter fun s => decide (s.key = key)) = some b) :
    b.key = key := by
  simpa using (List.mem_filter.mp (rowNumber.first_mem picked)).2

theorem tmpBest_keys (rowNumber : RowNumber) (tmpCand : List Candidate) :
    ((tmpBest rowNumber tmpCand).map Candidate.key).Nodup := by
  unfold tmpBest
  rw [List.Nodup, List.pairwise_map, List.pairwise_filterMap]
  refine (List.nodup_dedup _).imp ?_
  intro first second distinct b picked other chosen same
  exact distinct ((key_of_first picked).symm.trans (same.trans (key_of_first chosen)))

def mergeIntoCanonicalNoTxn (rowNumber : RowNumber) (canonical : JournalCanonical)
    (ticks : List Tick) (now : Int) : JournalCanonical :=
  let best := tmpBest rowNumber (ticks.map candidate)
  { rows :=
      canonical.rows.map (updateRow best now)
        ++ (best.filter fun b => missing canonical b.key).map fun b => .ofBest b now
    unique := by
      have kept (rows : List CanonicalRow) :
          (rows.map (updateRow best now)).map CanonicalRow.primaryKey =
            rows.map CanonicalRow.primaryKey := by
        rw [List.map_map]
        exact List.map_congr_left fun c _ => updateRow_primaryKey best now c
      have inserted (bs : List Candidate) :
          (bs.map fun b => CanonicalRow.ofBest b now).map CanonicalRow.primaryKey =
            bs.map Candidate.key := List.map_map
      rw [List.map_append, kept, inserted, List.nodup_append]
      refine ⟨canonical.unique, ?_, ?_⟩
      · exact (tmpBest_keys rowNumber _).sublist (List.filter_sublist.map _)
      · rintro key present other new rfl
        obtain ⟨b, member, rfl⟩ := List.mem_map.mp new
        have absent := (List.mem_filter.mp member).2
        exact Keyed.lookup_eq_none_iff.mp (Option.isNone_iff_eq_none.mp absent) present }

structure HotRow where
  provider : String
  stream : String
  symbol : String
  tsNs : Int
  seq : Option Int
  isFinal : Bool
  payload : Option Payload
  batchId : Int

/-- The tables that outlive the process; `hot` is in insertion order. -/
structure DuckDbJournal where
  hot : List HotRow
  canonical : JournalCanonical
  watermarks : String → Option Int

namespace DuckDbJournal

def new : DuckDbJournal :=
  { hot := [], canonical := { rows := [], unique := by simp }, watermarks := fun _ => none }

def hotRows (env : Envelope) : List HotRow :=
  env.rows.map fun t =>
    { provider := t.provider, stream := t.stream, symbol := t.symbol, tsNs := t.tsNs
      seq := some (t.seq.getD (-1)), isFinal := t.isFinal, payload := some t.payload
      batchId := env.batchId }

def appendEnvelope (rowNumber : RowNumber) (now : Int) (journal : DuckDbJournal) (env : Envelope) :
    DuckDbJournal :=
  if env.rows.isEmpty then journal
  else
    { journal with
      hot := journal.hot ++ hotRows env
      canonical := mergeIntoCanonicalNoTxn rowNumber journal.canonical env.rows now }

def getWatermark (journal : DuckDbJournal) (scope : String) : Int :=
  (journal.watermarks scope).getD 0

def setWatermark (journal : DuckDbJournal) (value : Int) (scope : String) : DuckDbJournal :=
  { journal with
    watermarks := fun other => if other = scope then some value else journal.watermarks other }

theorem getWatermark_setWatermark (journal : DuckDbJournal) (value : Int)
    (scope other : String) :
    (journal.setWatermark value scope).getWatermark other =
      if other = scope then value else journal.getWatermark other := by
  unfold getWatermark setWatermark
  split
  next same => simp [same]
  next different => simp [different]

end DuckDbJournal

end DeepFeeder
