import Mathlib.Data.List.Sort
import Mathlib.Data.Int.Order.Basic
import DeepFeeder.Fanout.Language
import DeepFeeder.Shared.Binary64

set_option autoImplicit false

namespace DeepFeeder

def timeCol (provider dataSchema : String) : String :=
  match provider, dataSchema with
  | "tradingview", "quotes" => "LpTime"
  | _, _ => "Timestamp"

-- The microseconds of `datetime.fromtimestamp(t)`: the fraction of the double is rounded.
def timestampMicros (t : Rat) : Int :=
  let seconds := if t < 0 then t.ceil else t.floor
  seconds * 1000000 + Binary64.roundHalfEven (Binary64.round ((t - seconds) * 1000000))

-- `datetime.fromtimestamp(ns / 1_000_000_000)`: the quotient is a double.
def fromTimestamp (ns : Int) : Int := timestampMicros (Binary64.round (ns / 1000000000))

-- Only the second is printed. No datetime is outside the bound.
def wholeSecond (ns : Int) : Int :=
  if ns.natAbs < 2 ^ 53 * 1000000000 then fromTimestamp ns / 1000000 * 1000000000
  else ns / 1000000000 * 1000000000

theorem fromTimestamp_whole {seconds : Int} (small : seconds.natAbs < 2 ^ 53) :
    fromTimestamp (seconds * 1000000000) = seconds * 1000000 := by
  have quotient : ((seconds * 1000000000 : Int) : Rat) / 1000000000 = seconds := by
    push_cast
    field_simp
  have cut : (if (seconds : Rat) < 0 then (seconds : Rat).ceil else (seconds : Rat).floor) = seconds := by
    split <;> simp
  have zero : Binary64.round 0 = 0 := rfl
  unfold fromTimestamp timestampMicros
  simp only [quotient, Binary64.round_intCast small, cut, sub_self, zero_mul, zero]
  exact add_eq_left.mpr (Binary64.roundHalfEven_intCast 0)

theorem wholeSecond_eq_self {ns : Int} (whole : ns % 1000000000 = 0) : wholeSecond ns = ns := by
  have split_ : ns = ns / 1000000000 * 1000000000 := by omega
  unfold wholeSecond
  split
  next near =>
    have small : (ns / 1000000000).natAbs < 2 ^ 53 := by omega
    rw [split_, fromTimestamp_whole small, Int.mul_ediv_cancel _ (by decide)]
  next => exact split_.symm

-- `Timestamp.utcnow().normalize()`.
def dayStart (nowNs : Int) : Int := nowNs / 86400000000000 * 86400000000000

theorem wholeSecond_dayStart (nowNs : Int) : wholeSecond (dayStart nowNs) = dayStart nowNs := by
  apply wholeSecond_eq_self
  unfold dayStart
  omega

-- `fromtimestamp` raises beyond the years of a datetime, and `%Y` prints the first thousand of them in
-- fewer than the four digits that `Instant.parse` reads.
def printable (ns : Int) : Bool :=
  decide (-30610224000 ≤ fromTimestamp ns / 1000000 ∧ fromTimestamp ns / 1000000 ≤ 253402300799)

structure Query where
  symbol : String
  exchange : Option String := none
  startNs : Option Int := none
  endNs : Option Int := none

namespace Query

def bounds (q : Query) : List Int := q.startNs.toList ++ q.endNs.toList

variable [Uppercase]

def filters (q : Query) (spec : SchemaSpec) : List String :=
  rangeSymbolFilter spec q.symbol :: exchangeFilters spec q.exchange

variable [QueryLanguage]

-- The bounds can be printed, and the server compiles the filters; otherwise the call raises.
def answered (q : Query) (spec : SchemaSpec) : Bool :=
  q.bounds.all printable && (q.filters spec).all compiles

-- The schema's own columns decide which of the filters there are.
def selects (q : Query) (spec : SchemaSpec) (row : Row) : Bool :=
  ((q.filters spec).all fun text => holds text row) &&
  (!spec.cols.contains "IsEmpty" || (row.get "IsEmpty").isBool false) &&
  (q.startNs.all fun startNs => decide (wholeSecond startNs ≤ row.time)) &&
  (q.endNs.all fun endNs => decide (row.time ≤ wholeSecond endNs))

def rows (q : Query) (spec : SchemaSpec) (table : List Row) : List Row :=
  (table.filter (q.selects spec)).insertionSort fun a b => a.time ≤ b.time

variable {q : Query} {spec : SchemaSpec} {table : List Row} {row : Row}

theorem mem_rows : row ∈ q.rows spec table ↔ row ∈ table ∧ q.selects spec row = true := by
  unfold rows
  rw [(List.perm_insertionSort _ _).mem_iff, List.mem_filter]

theorem start_le {startNs : Int} (start : q.startNs = some startNs)
    (selected : q.selects spec row = true) : wholeSecond startNs ≤ row.time := by
  simp only [selects, Bool.and_eq_true] at selected
  have bounded := selected.1.2
  rw [start, Option.all_some] at bounded
  exact of_decide_eq_true bounded

end Query

def isFinal (names : List String) (row : Row) : Bool :=
  ["IsFinal", "is_final", "Final", "final"].any fun name =>
    names.contains name && (row.get name).isBool true

-- The row of the snapshot whose time a client may resume from; of the bars the last may be open.
def watermarkRow (spec : SchemaSpec) (names : List String) (rows : List Row) : Option Row :=
  match rows.reverse with
  | [] => none
  | last :: earlier =>
      match spec.isBar && !isFinal names last, earlier with
      | true, previous :: _ => some previous
      | _, _ => some last

theorem watermarkRow_mem {spec : SchemaSpec} {names : List String} {rows : List Row} {row : Row}
    (chosen : watermarkRow spec names rows = some row) : row ∈ rows := by
  rw [← List.mem_reverse]
  unfold watermarkRow at chosen
  split at chosen
  next => cases chosen
  next last earlier reversed =>
    rw [reversed]
    split at chosen
    next previous _ _ =>
      cases chosen
      simp
    next =>
      cases chosen
      simp

end DeepFeeder
