import DeepFeeder.Core.Values
import DeepFeeder.Shared.Fallible
import DeepFeeder.Shared.Grouping

set_option autoImplicit false

namespace DeepFeeder.DhSink

open Fallible

structure Column where
  name : String
  cell : Tick → Option Value

structure Flattener where
  columns : List Column
  nonempty : columns ≠ []

def Flattener.flatten (f : Flattener) (ticks : List Tick) : Option (List (String × List Value)) :=
  f.columns.mapM fun c => (ticks.mapM c.cell).map fun cells => (c.name, cells)

-- `zip(*cols, strict=False)`.
def zipColumns : List (List Value) → List (List Value)
  | [] => []
  | [col] => col.map fun cell => [cell]
  | col :: rest => List.zipWith (fun cell row => cell :: row) col (zipColumns rest)

def Flattener.row (f : Flattener) (t : Tick) : Option (List Value) := f.columns.mapM fun c => c.cell t

section Flatteners

variable (toInstant : Int → Option Value)

def get (key : String) (default : Value) (t : Tick) : Value := (t.payload.lookup key).getD default

def flattenTrades : Flattener :=
  { columns :=
      [ ⟨"EventType", fun _ => some (.str "trade")⟩,
        ⟨"EventTime", fun t => toInstant t.tsNs⟩,
        ⟨"Symbol", fun t => some (.str t.symbol)⟩,
        ⟨"TradeID", fun t => t.seq.map .int⟩,
        ⟨"Price", fun t => (pyFloat (get "Price" (.float 0) t)).map .ofFloat⟩,
        ⟨"Quantity", fun t => (pyFloat (get "Quantity" (.float 0) t)).map .ofFloat⟩,
        ⟨"BuyerID", fun t => (pyInt (get "b" (.int 0) t)).map .int⟩,
        ⟨"SellerID", fun t => (pyInt (get "a" (.int 0) t)).map .int⟩,
        ⟨"Timestamp", fun t => toInstant t.tsNs⟩,
        ⟨"IsBuyerMaker", fun t => some (get "IsBuyerMaker" (.bool false) t)⟩ ]
    nonempty := by simp }

def flattenQuotes : Flattener :=
  { columns :=
      [ ⟨"Exchange", fun t => some (get "exchange" (.str "") t)⟩,
        ⟨"Symbol", fun t => some (.str t.symbol)⟩,
        ⟨"LpTime", fun t => toInstant t.tsNs⟩,
        ⟨"LastPrice", fun t => some (get "last_price" .none t)⟩,
        ⟨"Bid", fun t => some (get "bid" .none t)⟩,
        ⟨"Ask", fun t => some (get "ask" .none t)⟩,
        ⟨"Volume", fun t => some (get "volume" .none t)⟩,
        ⟨"Change", fun t => some (get "change" .none t)⟩,
        ⟨"ChangePct", fun t => some (get "change_pct" .none t)⟩,
        ⟨"VolDelta", fun t => some (get "vol_delta" .none t)⟩ ]
    nonempty := by simp }

def flattenBar : Flattener :=
  { columns :=
      [ ⟨"Exchange", fun t => some (get "exchange" (.str "") t)⟩,
        ⟨"Symbol", fun t => some (get "symbol" (.str "") t)⟩,
        ⟨"Timestamp", fun t => toInstant t.tsNs⟩,
        ⟨"Open", fun t => some (get "open" .none t)⟩,
        ⟨"High", fun t => some (get "high" .none t)⟩,
        ⟨"Low", fun t => some (get "low" .none t)⟩,
        ⟨"Close", fun t => some (get "close" .none t)⟩,
        ⟨"Volume", fun t => some (get "volume" .none t)⟩,
        ⟨"IsFinal", fun t => some (.bool t.isFinal)⟩ ]
    nonempty := by simp }

end Flatteners

universe u

variable {Writer : Type u}

structure WriterSpec (Writer : Type u) where
  writer : Writer
  flattener : Flattener

abbrev WriterKey := String × String

abbrev WriterRegistry (Writer : Type u) := Dict WriterKey (WriterSpec Writer)

namespace WriterRegistry

def add (reg : WriterRegistry Writer) (stream : String) (flattener : Flattener) (writer : Writer)
    (provider : Option String := none) : WriterRegistry Writer :=
  -- `provider or "default"`: an empty name is falsy.
  let owner := match provider with
    | none | some "" => "default"
    | some name => name
  reg.set (owner, stream) { writer, flattener }

def resolve (reg : WriterRegistry Writer) (pair : WriterKey) : Option (WriterSpec Writer) :=
  reg.lookup (if pair.1 = "" then "default" else pair.1, pair.2)

end WriterRegistry

inductive DhTable where
  | tvQuotes
  | tvBars
  | binanceTrades
  deriving DecidableEq

def registerWriters (toInstant : Int → Option Value) : WriterRegistry DhTable :=
  let reg : WriterRegistry DhTable := ∅
  let reg := reg.add "quotes" (flattenQuotes toInstant) .tvQuotes (some "tradingview")
  let reg := reg.add "bars" (flattenBar toInstant) .tvBars (some "tradingview")
  reg.add "trades" (flattenTrades toInstant) .binanceTrades (some "binance")

structure Write (Writer : Type u) where
  writer : Writer
  row : List Value

structure Outcome (Writer : Type u) where
  raised : Bool
  log : List (Write Writer)

def tickPair (t : Tick) : WriterKey := (t.provider, t.stream)

def buckets (env : Envelope) : Dict WriterKey (List Tick) := Dict.groupBy tickPair env.rows

section Calls

-- Whether `write_row` raises, given the rows written before. A row it raises for is not written.
variable (refuses : List (Write Writer) → Write Writer → Bool)

def writeRows : List (Write Writer) → List (Write Writer) → Outcome Writer
  | [], log => { raised := false, log }
  | w :: rest, log =>
      if refuses log w then { raised := true, log } else writeRows rest (log ++ [w])

def writeBuckets (reg : WriterRegistry Writer) :
    List (Sigma fun _ : WriterKey => List Tick) → List (Write Writer) → Outcome Writer
  | [], log => { raised := false, log }
  | ⟨pair, ticks⟩ :: rest, log =>
      match reg.resolve pair with
      | none => writeBuckets reg rest log
      | some spec =>
          match spec.flattener.flatten ticks with
          | none => { raised := true, log }
          | some cols =>
              let rows := zipColumns (cols.map Prod.snd)
              let out := writeRows refuses (rows.map fun row => { writer := spec.writer, row }) log
              if out.raised then out else writeBuckets reg rest out.log

def writeEnvelope (reg : WriterRegistry Writer) (env : Envelope) (log : List (Write Writer)) :
    Outcome Writer :=
  writeBuckets refuses reg (buckets env).entries log

end Calls

theorem zipColumns_cons {col : List Value} {rest : List (List Value)} (more : rest ≠ []) :
    zipColumns (col :: rest) =
      List.zipWith (fun cell row => cell :: row) col (zipColumns rest) := by
  cases rest with
  | nil => exact absurd rfl more
  | cons second rest => rfl

theorem zip_flatten (f : Flattener) (ticks : List Tick) :
    ((f.flatten ticks).map fun cols => zipColumns (cols.map Prod.snd)) = ticks.mapM f.row := by
  obtain ⟨columns, nonempty⟩ := f
  unfold Flattener.flatten Flattener.row
  simp only
  induction columns with
  | nil => exact absurd rfl nonempty
  | cons first rest ih =>
      cases rest with
      | nil =>
          have single (t : Tick) : ([first].mapM fun c => c.cell t) =
              (first.cell t).map fun cell => [cell] := by
            rw [mapM_cons_map]
            cases first.cell t <;> rfl
          simp only [single, mapM_map, mapM_cons_map]
          cases ticks.mapM first.cell <;> rfl
      | cons second rest =>
          have later := ih (by simp)
          simp only [mapM_cons_map _ first, mapM_zipWith, ← later]
          cases ticks.mapM first.cell with
          | none => rfl
          | some col =>
              cases made : (second :: rest).mapM fun c =>
                  (ticks.mapM c.cell).map fun cells => (c.name, cells) with
              | none => rfl
              | some cols =>
                  have more : cols.map Prod.snd ≠ [] := by
                    rw [mapM_cons_map, Option.bind_eq_some_iff] at made
                    obtain ⟨head, _, built⟩ := made
                    obtain ⟨tail, _, rfl⟩ := Option.map_eq_some_iff.mp built
                    simp
                  simp only [Option.map_some, Option.bind_some, List.map_cons,
                    zipColumns_cons more]

end DeepFeeder.DhSink
