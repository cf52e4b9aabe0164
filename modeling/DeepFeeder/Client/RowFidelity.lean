import DeepFeeder.Client.Models
import DeepFeeder.Shared.Fallible

set_option autoImplicit false

namespace DeepFeeder.Client

open IsoText (DateTime)

def valueColumns (provider dataSchema : String) : List String :=
  if isBarSchema provider dataSchema then ["Open", "High", "Low", "Close", "Volume"]
  else if provider = "tradingview" ∧ dataSchema = "quotes" then ["LastPrice", "Volume"]
  else ["Price", "Quantity"]

/-- A row of the table of a schema: an instant in nanoseconds, a text for the symbol, and doubles,
each column but the time perhaps null. -/
structure TableRow (provider dataSchema : String) (spec : SchemaSpec) where
  row : Row
  columns : timeCol provider dataSchema :: row.names = spec.cols
  instant : row.time.natAbs < 2 ^ 63
  symbol : row.get spec.symbolCol = .none ∨ ∃ text, row.get spec.symbolCol = .str text
  numbers : ∀ name ∈ valueColumns provider dataSchema,
    row.get name = .none ∨ ∃ q, row.get name = .ofFloat q

section Encoding

-- `pandas.Timestamp.isoformat(sep)`, and whether the times of the tables have a time zone.
variable (iso : Char → Value → String) (zoned : Bool) (provider dataSchema : String)

-- `_ts_to_iso`: of a time that has a zone pandas does not take `tz="UTC"`, nor does it localize it,
-- and `str` is left.
def utcText (ts : Value) : String :=
  if zoned then iso ' ' ts
  else String.ofList (IsoText.replace "+00:00".toList "Z".toList (iso 'T' ts).toList)

def PrintsIso : Prop :=
  ∀ (sep : Char) (ns : Int), ns.natAbs < 2 ^ 63 →
    iso sep (.int ns) = String.ofList (IsoText.isoformat sep ns ++ "+00:00".toList)

def rowType : String := if isBarSchema provider dataSchema then "bar" else "trade"

def eventEnvelope (symbol : String) (phase part : Value) (stated : Bool) (rows : List Record)
    (watermarkNs : Value) (data : Record) : Record :=
  [("version", .int 1), ("protocol", .str "deepfeeder.fanout.envelope"), ("phase", phase),
    ("part", part), ("provider", .str provider), ("data_schema", .str dataSchema),
    ("symbol", .str symbol), ("row_mode", .bool true)] ++
  (if stated then [("row_type", .str (rowType provider dataSchema))] else []) ++
  [("rows", .list (rows.map .dict)), ("watermark_ns", watermarkNs), ("meta", .dict data)]

def encodeRow {spec : SchemaSpec} (part : RowPart) (r : TableRow provider dataSchema spec) :
    Record :=
  adaptRow (utcText iso zoned)
    ((PaTable.mk spec.cols [r.row]).record (timeCol provider dataSchema) r.row)
    provider dataSchema part none

end Encoding

namespace TypedRow

def timestamp : TypedRow → DateTime
  | .bar row => row.timestamp
  | .trade row => row.timestamp

def symbol : TypedRow → String
  | .bar row => row.symbol
  | .trade row => row.symbol

def values : TypedRow → List (Option PyFloat)
  | .bar row => [row.openPrice, row.high, row.low, row.close, row.volume]
  | .trade row => [row.price, row.quantity]

end TypedRow

def instant (dt : DateTime) : Option Int := dt.offset.map fun offset => (dt.local_ - offset) * 1000

def number : Value → Option PyFloat
  | .float q => some (.finite q)
  | .inf negative => some (.inf negative)
  | .nan => some .nan
  | _ => none

structure Carries (provider dataSchema : String) (spec : SchemaSpec) (row : Row)
    (decoded : TypedRow) : Prop where
  timestamp : instant decoded.timestamp = some row.time
  symbol : row.get spec.symbolCol = .str decoded.symbol
  values : decoded.values = (valueColumns provider dataSchema).map fun name => number (row.get name)

variable {provider dataSchema : String} {spec : SchemaSpec} {iso : Char → Value → String}
  {zoned : Bool}

theorem lookup_record (names : List String) (f : String → Value) (name : String) :
    (names.map fun name => (name, f name)).lookup name =
      if name ∈ names then some (f name) else none := by
  induction names with
  | nil => rfl
  | cons first rest ih =>
      rw [List.map_cons, List.lookup_cons]
      by_cases same : name = first
      · simp [same]
      · have different : (name == first) = false := beq_eq_false_iff_ne.mpr same
        simp only [different, ih, List.mem_cons, same, false_or]

theorem record_get (rows : List Row) (row : Row) (time name : String) :
    ((PaTable.mk spec.cols rows).record time row).get name =
      if name ∈ spec.cols then row.value time name else .none := by
  unfold Record.get PaTable.record
  rw [lookup_record]
  split
  · rfl
  · rfl

theorem adaptBarRow_get (isoformat : Value → String) (row : Record) (part : RowPart) :
    let adapted := adaptBarRow isoformat row provider dataSchema part none
    adapted.get "Timestamp" = tsToIso isoformat (row.get "Timestamp") ∧
      adapted.get "Symbol" = row.get "Symbol" ∧
      ∀ name ∈ ["Open", "High", "Low", "Close", "Volume"], adapted.get name = row.get name := by
  intro adapted
  refine ⟨?_, ?_, ?_⟩
  · rfl
  · rfl
  · simp [adapted, adaptBarRow, Record.get, wanted, List.lookup_cons]

theorem adaptTradeRow_get (isoformat : Value → String) (row : Record) (part : RowPart) :
    let adapted := adaptTradeRow isoformat row provider part none
    adapted.get "Timestamp" = tsToIso isoformat (match row.get "Timestamp" with
        | .none => row.get "Ts"
        | ts => ts) ∧
      adapted.get "Ts" = .none ∧ adapted.get "Symbol" = row.get "Symbol" ∧
      ∀ name ∈ ["Price", "Quantity"], adapted.get name = row.get name := by
  intro adapted
  refine ⟨?_, ?_, ?_, ?_⟩
  · rfl
  · rfl
  · rfl
  · simp [adapted, adaptTradeRow, Record.get, wanted, List.lookup_cons]

def isQuotes (provider dataSchema : String) : Bool :=
  provider = "tradingview" && dataSchema = "quotes"

theorem schema_columns (registered : schemas provider dataSchema = some spec) :
    spec.symbolCol = "Symbol" ∧ "Symbol" ∈ spec.cols ∧ timeCol provider dataSchema ≠ "Symbol" ∧
      (∀ name ∈ valueColumns provider dataSchema,
        name ∈ spec.cols ∧ name ≠ timeCol provider dataSchema) ∧
      (isQuotes provider dataSchema = false →
        timeCol provider dataSchema = "Timestamp" ∧ "Timestamp" ∈ spec.cols) ∧
      (isQuotes provider dataSchema = true → isBarSchema provider dataSchema = false ∧
        "Timestamp" ∉ spec.cols ∧ "Ts" ∉ spec.cols) := by
  have all : ∀ item ∈ schemaItems,
      item.2.2.symbolCol = "Symbol" ∧ "Symbol" ∈ item.2.2.cols ∧
        timeCol item.1 item.2.1 ≠ "Symbol" ∧
        (∀ name ∈ valueColumns item.1 item.2.1,
          name ∈ item.2.2.cols ∧ name ≠ timeCol item.1 item.2.1) ∧
        (isQuotes item.1 item.2.1 = false →
          timeCol item.1 item.2.1 = "Timestamp" ∧ "Timestamp" ∈ item.2.2.cols) ∧
        (isQuotes item.1 item.2.1 = true → isBarSchema item.1 item.2.1 = false ∧
          "Timestamp" ∉ item.2.2.cols ∧ "Ts" ∉ item.2.2.cols) := by
    decide +kernel
  exact all _ (mem_schemaItems registered)

theorem coerceFloat_eq_number {x : Value} (double : x = .none ∨ ∃ q, x = .ofFloat q) :
    coerceFloat x = number x := by
  rcases double with rfl | ⟨q, rfl⟩
  · rfl
  · cases q <;> rfl

theorem utcText_int (prints : PrintsIso iso) {ns : Int} (stored : ns.natAbs < 2 ^ 63) :
    (utcText iso zoned (.int ns)).toList =
      if zoned then IsoText.isoformat ' ' ns ++ "+00:00".toList
      else IsoText.isoformat 'T' ns ++ "Z".toList := by
  have printed (sep : Char) :
      (iso sep (.int ns)).toList = IsoText.isoformat sep ns ++ "+00:00".toList :=
    (congrArg String.toList (prints sep ns stored)).trans String.toList_ofList
  unfold utcText
  split
  · exact printed ' '
  · rw [printed 'T', IsoText.replace_offset]
    exact String.toList_ofList

theorem parseTs_utcText (prints : PrintsIso iso) {ns : Int} (stored : ns.natAbs < 2 ^ 63) :
    parseTs (tsToIso (utcText iso zoned) (.int ns)) =
      some (if ns % 1000 = 0 then some (utc (ns / 1000)) else none) := by
  have near : (ns / 1000 / IsoText.dayMicros).natAbs < 120000 := by
    unfold IsoText.dayMicros
    omega
  change some (parseText (utcText iso zoned (.int ns)).toList) = _
  rw [utcText_int prints stored]
  split
  · rw [parseText_offset ' ' near]
  · rw [parseText_zulu near]

theorem truthy_utcText (prints : PrintsIso iso) {ns : Int} (stored : ns.natAbs < 2 ^ 63) :
    (tsToIso (utcText iso zoned) (.int ns)).truthy = true := by
  change decide (utcText iso zoned (.int ns) ≠ "") = true
  rw [decide_eq_true_eq]
  intro empty
  have printed := congrArg String.toList empty
  rw [utcText_int prints stored] at printed
  split at printed
  · simp at printed
  · simp at printed

theorem TableRow.record_value (r : TableRow provider dataSchema spec) {name : String}
    (column : name ∈ spec.cols) (other : name ≠ timeCol provider dataSchema) :
    ((PaTable.mk spec.cols [r.row]).record (timeCol provider dataSchema) r.row).get name =
      r.row.get name := by
  rw [record_get, if_pos column, Row.value, if_neg other]

theorem TableRow.coerced (r : TableRow provider dataSchema spec) {name : String}
    (column : name ∈ valueColumns provider dataSchema) :
    coerceFloat (r.row.get name) = number (r.row.get name) :=
  coerceFloat_eq_number (r.numbers name column)

structure Decoded (print : Value → String) (now : Int) (r : TableRow provider dataSchema spec)
    (decoded : TypedRow) : Prop where
  timestamp : decoded.timestamp =
    if isQuotes provider dataSchema = false ∧ r.row.time % 1000 = 0 then utc (r.row.time / 1000)
    else utc now
  symbol : decoded.symbol = strOf print (r.row.get "Symbol")
  values : isQuotes provider dataSchema = false →
    decoded.values = (valueColumns provider dataSchema).map fun name => number (r.row.get name)

theorem fromRow_bar (print : Value → String) (now : Int) (provider : Value) {row : Record}
    {ts : Option DateTime} (parsed : parseTs (row.get "Timestamp") = some ts) :
    ∃ decoded, fromRow print now (.str "bar") provider row = some decoded ∧
      decoded.timestamp = ts.getD (utc now) ∧ decoded.symbol = strOf print (row.get "Symbol") ∧
      decoded.values =
        ["Open", "High", "Low", "Close", "Volume"].map fun name => coerceFloat (row.get name) := by
  have bar : (Value.str "bar").isStr "bar" = true := by decide
  unfold fromRow Bar.fromRow
  rw [if_pos bar, parsed]
  exact ⟨_, rfl, rfl, rfl, rfl⟩

theorem fromRow_trade (print : Value → String) (now : Int) (provider : Value) {row : Record}
    {ts : Option DateTime}
    (parsed : parseTs (if (row.get "Timestamp").truthy then row.get "Timestamp" else row.get "Ts") =
      some ts) :
    ∃ decoded, fromRow print now (.str "trade") provider row = some decoded ∧
      decoded.timestamp = ts.getD (utc now) ∧ decoded.symbol = strOf print (row.get "Symbol") ∧
      decoded.values = ["Price", "Quantity"].map fun name => coerceFloat (row.get name) := by
  have trade : ¬ (Value.str "trade").isStr "bar" = true := by decide
  unfold fromRow Trade.fromRow
  rw [if_neg trade, parsed]
  exact ⟨_, rfl, rfl, rfl, rfl⟩

theorem getD_whole (micros now : Int) (whole : Prop) [Decidable whole] :
    (if whole then some (utc micros) else none).getD (utc now) =
      if whole then utc micros else utc now := by
  split
  · rfl
  · rfl

section Rows

variable (registered : schemas provider dataSchema = some spec) (prints : PrintsIso iso)
  (part : RowPart) (r : TableRow provider dataSchema spec) (print : Value → String) (now : Int)

def TableRow.items : Record :=
  (PaTable.mk spec.cols [r.row]).record (timeCol provider dataSchema) r.row

include registered

theorem TableRow.items_symbol : r.items.get "Symbol" = r.row.get "Symbol" := by
  obtain ⟨_, column, notSymbol, _⟩ := schema_columns registered
  exact r.record_value column (Ne.symm notSymbol)

theorem TableRow.items_value {name : String} (column : name ∈ valueColumns provider dataSchema) :
    coerceFloat (r.items.get name) = number (r.row.get name) := by
  obtain ⟨_, _, _, values, _⟩ := schema_columns registered
  obtain ⟨present, notTime⟩ := values name column
  exact (congrArg coerceFloat (r.record_value present notTime)).trans (r.coerced column)

theorem TableRow.sent_values {names : List String} {adapted : Record}
    (columns : valueColumns provider dataSchema = names)
    (kept : ∀ name ∈ names, adapted.get name = r.items.get name) :
    (names.map fun name => coerceFloat (adapted.get name)) =
      (valueColumns provider dataSchema).map fun name => number (r.row.get name) := by
  subst columns
  apply List.map_congr_left
  intro name column
  rw [kept name column, r.items_value registered column]

theorem TableRow.items_timestamp (known : isQuotes provider dataSchema = false) :
    r.items.get "Timestamp" = .int r.row.time := by
  obtain ⟨_, _, _, _, times, _⟩ := schema_columns registered
  obtain ⟨named, column⟩ := times known
  unfold TableRow.items
  rw [record_get, if_pos column, Row.value, if_pos named.symm]

theorem TableRow.items_quote (quotes : isQuotes provider dataSchema = true) :
    r.items.get "Timestamp" = .none ∧ r.items.get "Ts" = .none := by
  obtain ⟨_, _, _, _, _, missing⟩ := schema_columns registered
  obtain ⟨_, noTimestamp, noTs⟩ := missing quotes
  unfold TableRow.items
  exact ⟨(record_get _ _ _ _).trans (if_neg noTimestamp), (record_get _ _ _ _).trans (if_neg noTs)⟩

theorem bars_not_quotes (bars : isBarSchema provider dataSchema = true) :
    isQuotes provider dataSchema = false := by
  obtain ⟨_, _, _, _, _, missing⟩ := schema_columns registered
  by_contra other
  have quotes := missing (by simpa using other)
  cases bars.symm.trans quotes.1

include prints

theorem fromRow_encodeBar (bars : isBarSchema provider dataSchema = true) :
    ∃ decoded, fromRow print now (.str "bar") (.str provider)
        (adaptBarRow (utcText iso zoned) r.items provider dataSchema part none) = some decoded ∧
      Decoded print now r decoded := by
  have known := bars_not_quotes registered bars
  have columns : valueColumns provider dataSchema = ["Open", "High", "Low", "Close", "Volume"] :=
    if_pos bars
  obtain ⟨ts, symbol, values⟩ := adaptBarRow_get (utcText iso zoned) r.items part
  rw [r.items_timestamp registered known] at ts
  rw [r.items_symbol registered] at symbol
  obtain ⟨decoded, done, timestamp, text, read⟩ := fromRow_bar print now (.str provider)
    ((congrArg parseTs ts).trans (parseTs_utcText prints r.instant))
  refine ⟨decoded, done, ?_, ?_, ?_⟩
  · rw [timestamp, getD_whole]
    simp only [known, true_and]
  · rw [text, symbol]
  · intro _
    rw [read, r.sent_values registered columns values]

theorem fromRow_encodeTrade (bars : isBarSchema provider dataSchema = false)
    (known : isQuotes provider dataSchema = false) :
    ∃ decoded, fromRow print now (.str "trade") (.str provider)
        (adaptTradeRow (utcText iso zoned) r.items provider part none) = some decoded ∧
      Decoded print now r decoded := by
  have columns : valueColumns provider dataSchema = ["Price", "Quantity"] := by
    unfold valueColumns
    rw [if_neg (Bool.not_eq_true _ ▸ bars), if_neg (by simpa [isQuotes] using known)]
  obtain ⟨ts, _, symbol, values⟩ := adaptTradeRow_get (utcText iso zoned) r.items part
  rw [r.items_timestamp registered known] at ts
  rw [r.items_symbol registered] at symbol
  obtain ⟨decoded, done, timestamp, text, read⟩ := fromRow_trade print now (.str provider)
    (show parseTs _ = _ by
      rw [ts, if_pos (truthy_utcText prints r.instant)]
      exact parseTs_utcText prints r.instant)
  refine ⟨decoded, done, ?_, ?_, ?_⟩
  · rw [timestamp, getD_whole]
    simp only [known, true_and]
  · rw [text, symbol]
  · intro _
    rw [read, r.sent_values registered columns values]

omit prints

theorem fromRow_encodeQuote (quotes : isQuotes provider dataSchema = true) :
    ∃ decoded, fromRow print now (.str "trade") (.str provider)
        (adaptTradeRow (utcText iso zoned) r.items provider part none) = some decoded ∧
      Decoded print now r decoded := by
  obtain ⟨noTimestamp, noTs⟩ := r.items_quote registered quotes
  obtain ⟨ts, sinceTs, symbol, _⟩ := adaptTradeRow_get (utcText iso zoned) r.items part
  rw [noTimestamp, noTs] at ts
  rw [r.items_symbol registered] at symbol
  obtain ⟨decoded, done, timestamp, text, _⟩ := fromRow_trade print now (.str provider)
    (show parseTs _ = some none by rw [ts, sinceTs]; rfl)
  refine ⟨decoded, done, ?_, ?_, ?_⟩
  · rw [timestamp]
    simp [quotes]
  · rw [text, symbol]
  · intro known
    cases known.symm.trans quotes

include prints

theorem fromRow_encodeRow :
    ∃ decoded, fromRow print now (.str (rowType provider dataSchema)) (.str provider)
        (encodeRow iso zoned provider dataSchema part r) = some decoded ∧
      Decoded print now r decoded := by
  unfold encodeRow adaptRow rowType
  cases bars : isBarSchema provider dataSchema with
  | true => exact fromRow_encodeBar registered prints part r print now bars
  | false =>
      cases quotes : isQuotes provider dataSchema with
      | true => exact fromRow_encodeQuote registered part r print now quotes
      | false => exact fromRow_encodeTrade registered prints part r print now bars quotes

end Rows

theorem rowTypeOf_schema (registered : schemas provider dataSchema = some spec) :
    rowTypeOf .none (.str dataSchema) = some (.str (rowType provider dataSchema)) := by
  have all : ∀ item ∈ schemaItems, (Value.str item.2.1).truthy = true ∧
      "ohlcv_".toList.isPrefixOf item.2.1.toList = isBarSchema item.1 item.2.1 := by
    decide +kernel
  obtain ⟨named, bars⟩ := all _ (mem_schemaItems registered)
  have absent : ¬ Value.none.truthy = true := by decide
  unfold rowTypeOf rowType
  rw [if_neg absent, if_pos named]
  simp only [bars]

theorem rowTypeOf_stated :
    rowTypeOf (.str (rowType provider dataSchema)) (.str dataSchema) =
      some (.str (rowType provider dataSchema)) := by
  have named : (Value.str (rowType provider dataSchema)).truthy = true := by
    unfold rowType
    split
    · decide
    · decide
  unfold rowTypeOf
  rw [if_pos named]

theorem rowDicts_list (rows : List Record) : rowDicts (.list (rows.map .dict)) = some rows := by
  have all : (rows.map Value.dict).mapM asDict = some rows := by
    induction rows with
    | nil => rfl
    | cons row rows ih =>
        rw [List.map_cons, List.mapM_cons, ih]
        rfl
  cases rows with
  | nil => rfl
  | cons => exact all

theorem metaDict_dict (data : Record) : metaDict (.dict data) = some data := by
  cases data with
  | nil => rfl
  | cons => rfl

theorem adaptEnvelope_event (registered : schemas provider dataSchema = some spec)
    (print : Value → String) (now : Int) (symbol : String) (phase part : Value) (stated : Bool)
    (rows : List Record) (watermarkNs : Value) (data : Record) {parsed : List TypedRow}
    (done : rows.mapM (fromRow print now (.str (rowType provider dataSchema)) (.str provider)) =
      some parsed) :
    ∃ envelope, adaptEnvelope print now
        (eventEnvelope provider dataSchema symbol phase part stated rows watermarkNs data) =
        some envelope ∧
      envelope.rows = parsed := by
  let env := eventEnvelope provider dataSchema symbol phase part stated rows watermarkNs data
  have version : (env.lookup "version").getD (.int 1) = .int 1 := rfl
  have sent : env.get "rows" = .list (rows.map .dict) := by
    cases stated <;> rfl
  have notes : env.get "meta" = .dict data := by
    cases stated <;> rfl
  have typed : rowTypeOf (env.get "row_type") (env.get "data_schema") =
      some (.str (rowType provider dataSchema)) := by
    cases stated with
    | true => exact rowTypeOf_stated
    | false => exact rowTypeOf_schema registered
  have source : env.get "provider" = .str provider := rfl
  change ∃ envelope, adaptEnvelope print now env = some envelope ∧ _
  unfold adaptEnvelope
  rw [version, sent, notes, typed, source, rowDicts_list, metaDict_dict]
  simp only [pyInt, Option.bind_eq_bind, Option.bind_some, done]
  exact ⟨_, rfl, rfl⟩

structure Kept (r : TableRow provider dataSchema spec) : Prop where
  known : isQuotes provider dataSchema = false
  whole : r.row.time % 1000 = 0
  named : r.row.get spec.symbolCol ≠ .none

theorem instant_utc (micros : Int) : instant (utc micros) = some (micros * 1000) := by
  change some ((micros - 0) * 1000) = _
  rw [Int.sub_zero]

theorem Decoded.carries {print : Value → String} {now : Int}
    {r : TableRow provider dataSchema spec} {decoded : TypedRow}
    (registered : schemas provider dataSchema = some spec) (row : Decoded print now r decoded)
    (kept : Kept r) : Carries provider dataSchema spec r.row decoded := by
  obtain ⟨symbolCol, _⟩ := schema_columns registered
  refine ⟨?_, ?_, row.values kept.known⟩
  · rw [row.timestamp, if_pos ⟨kept.known, kept.whole⟩, instant_utc, Option.some.injEq]
    exact Int.ediv_mul_cancel (Int.dvd_of_emod_eq_zero kept.whole)
  · obtain ⟨text, named⟩ := r.symbol.resolve_left kept.named
    rw [row.symbol, ← symbolCol, named]
    rfl

theorem Decoded.kept {print : Value → String} {now : Int}
    {r : TableRow provider dataSchema spec} {decoded : TypedRow}
    (row : Decoded print now r decoded) (other : now * 1000 ≠ r.row.time)
    (carries : Carries provider dataSchema spec r.row decoded) : Kept r := by
  have read : isQuotes provider dataSchema = false ∧ r.row.time % 1000 = 0 := by
    by_contra lost
    have clock := carries.timestamp
    rw [row.timestamp, if_neg lost, instant_utc, Option.some.injEq] at clock
    exact other clock
  refine ⟨read.1, read.2, ?_⟩
  rw [carries.symbol]
  exact Value.noConfusion

theorem exists_other (ns : Int) : ∃ now : Int, now * 1000 ≠ ns := by
  by_cases zero : ns = 0
  · exact ⟨1, by omega⟩
  · exact ⟨0, by omega⟩

section Events

variable (print : Value → String) (symbol : String) (phase part : Value) (stated : Bool)
  (rowPart : RowPart) (rows : List (TableRow provider dataSchema spec)) (watermarkNs : Value)
  (data : Record)

-- What a client makes of an event has a row for each of its rows, that carries it.
def Faithful (iso : Char → Value → String) (zoned : Bool) (now : Int) : Prop :=
  ∃ envelope, adaptEnvelope print now
      (eventEnvelope provider dataSchema symbol phase part stated
        (rows.map (encodeRow iso zoned provider dataSchema rowPart)) watermarkNs data) =
      some envelope ∧
    List.Forall₂ (fun r decoded => Carries provider dataSchema spec r.row decoded)
      rows envelope.rows

theorem decoded_event (registered : schemas provider dataSchema = some spec)
    (prints : PrintsIso iso) (now : Int) :
    ∃ envelope, adaptEnvelope print now
        (eventEnvelope provider dataSchema symbol phase part stated
          (rows.map (encodeRow iso zoned provider dataSchema rowPart)) watermarkNs data) =
      some envelope ∧
      List.Forall₂ (Decoded print now) rows envelope.rows := by
  obtain ⟨parsed, done, decoded⟩ := Fallible.mapM_forall₂_iff.mpr
    fun (r : TableRow provider dataSchema spec) (_ : r ∈ rows) =>
      fromRow_encodeRow registered prints rowPart r print now
  rw [← Function.comp_def, ← List.mapM_map] at done
  obtain ⟨envelope, adapted, same⟩ :=
    adaptEnvelope_event registered print now symbol phase part stated _ watermarkNs data done
  exact ⟨envelope, adapted, same ▸ decoded⟩

variable {print symbol phase part stated rowPart rows watermarkNs data}

theorem kept_of_faithful (registered : schemas provider dataSchema = some spec)
    (prints : PrintsIso iso)
    (faithful : ∀ now,
      Faithful print symbol phase part stated rowPart rows watermarkNs data iso zoned now) :
    ∀ r ∈ rows, Kept r := by
  intro r member
  obtain ⟨now, other⟩ := exists_other r.row.time
  obtain ⟨envelope, adapted, decoded⟩ := decoded_event print symbol phase part stated rowPart rows
    watermarkNs data registered prints now
  obtain ⟨same, again, carried⟩ := faithful now
  obtain rfl : envelope = same := Option.some.inj (adapted.symm.trans again)
  have each : List.Forall₂
      (fun (r : TableRow provider dataSchema spec) _ => (now * 1000 ≠ r.row.time → Kept r) ∧ True)
      rows envelope.rows :=
    List.Forall₂.mp (fun _ _ row carries => ⟨fun other => row.kept other carries, trivial⟩)
      decoded carried
  exact ((List.forall₂_and_left _ _).mp each).1 r member other

theorem faithful_of_kept (registered : schemas provider dataSchema = some spec)
    (prints : PrintsIso iso) (kept : ∀ r ∈ rows, Kept r) (now : Int) :
    Faithful print symbol phase part stated rowPart rows watermarkNs data iso zoned now := by
  obtain ⟨envelope, adapted, decoded⟩ := decoded_event print symbol phase part stated rowPart rows
    watermarkNs data registered prints now
  refine ⟨envelope, adapted, ?_⟩
  apply ((List.forall₂_and_left _ _).mpr ⟨kept, decoded⟩).imp
  intro r decoded both
  exact both.2.carries registered both.1

end Events

/-- The rows of an event are decoded to what the table has, at whichever time they are decoded,
exactly where each is of another schema than the quotes, has a time of whole microseconds, and names
its symbol. -/
theorem row_fidelity_iff (registered : schemas provider dataSchema = some spec)
    (prints : PrintsIso iso) (print : Value → String) (symbol : String) (phase part : Value)
    (stated : Bool) (rowPart : RowPart) (rows : List (TableRow provider dataSchema spec))
    (watermarkNs : Value) (data : Record) :
    (∀ now, Faithful print symbol phase part stated rowPart rows watermarkNs data iso zoned now) ↔
      ∀ r ∈ rows, Kept r :=
  ⟨kept_of_faithful registered prints, faithful_of_kept registered prints⟩

def isoUtc (sep : Char) : Value → String
  | .int ns => String.ofList (IsoText.isoformat sep ns ++ "+00:00".toList)
  | _ => ""

def soldRow : TableRow "binance" "trades" binanceTrades where
  row :=
    { time := 1758289530250000000
      cells := [("Symbol", .str "BTCUSDT"), ("TradeID", .int 7), ("Price", .float 115800),
        ("Quantity", .float (1 / 4)), ("BuyerID", .none), ("SellerID", .none),
        ("IsBuyerMaker", .bool true)]
      distinct := by decide }
  columns := rfl
  instant := by decide
  symbol := .inr ⟨"BTCUSDT", rfl⟩
  numbers := by
    intro name member
    have listed : name ∈ ["Price", "Quantity"] := member
    rcases List.mem_pair.mp listed with rfl | rfl
    · exact .inr ⟨.finite 115800, rfl⟩
    · exact .inr ⟨.finite (1 / 4), rfl⟩

-- Decoded ten seconds after it was sold.
theorem sold_row_kept :
    Faithful (fun _ => "") "BTCUSDT" (.str "live") (.str "added") true .added [soldRow]
      (.int 1758289530250000000) [] isoUtc true 1758289540250000 := by
  refine (row_fidelity_iff rfl (fun _ _ _ => rfl) _ _ _ _ _ _ _ _ _).mpr ?_ _
  intro r member
  obtain rfl := List.mem_singleton.mp member
  exact ⟨by decide, by decide, Value.noConfusion⟩

def quoteRow : TableRow "tradingview" "quotes" tradingviewQuotes where
  row :=
    { time := 1758289530000000000
      cells := [("Symbol", .str "AAPL"), ("LastPrice", .float 245), ("Bid", .none), ("Ask", .none),
        ("Volume", .float 1000), ("Change", .none), ("ChangePct", .none), ("VolDelta", .none)]
      distinct := by decide }
  columns := rfl
  instant := by decide
  symbol := .inr ⟨"AAPL", rfl⟩
  numbers := by
    intro name member
    have listed : name ∈ ["LastPrice", "Volume"] := member
    rcases List.mem_pair.mp listed with rfl | rfl
    · exact .inr ⟨.finite 245, rfl⟩
    · exact .inr ⟨.finite 1000, rfl⟩

-- The time of a quote is the clock of the client.
theorem quote_row_lost :
    ¬ ∀ (provider dataSchema : String) (spec : SchemaSpec) (iso : Char → Value → String)
      (zoned : Bool) (print : Value → String)
      (symbol : String) (phase part : Value) (stated : Bool) (rowPart : RowPart)
      (rows : List (TableRow provider dataSchema spec)) (watermarkNs : Value) (data : Record)
      (now : Int), schemas provider dataSchema = some spec → PrintsIso iso →
        Faithful print symbol phase part stated rowPart rows watermarkNs data iso zoned now := by
  intro claimed
  have kept : ∀ r ∈ [quoteRow], Kept r :=
    kept_of_faithful rfl (fun _ _ _ => rfl) fun now =>
      claimed "tradingview" "quotes" tradingviewQuotes isoUtc true (fun _ => "") "AAPL"
        (.str "live") (.str "added") true .added [quoteRow] (.int 1758289530000000000) [] now rfl
        (fun _ _ _ => rfl)
  have known := (kept quoteRow List.mem_cons_self).known
  have quotes : isQuotes "tradingview" "quotes" = true := by decide
  cases known.symm.trans quotes

end DeepFeeder.Client
