import DeepFeeder.Fanout.Gapless

set_option autoImplicit false

namespace DeepFeeder

inductive RowPart where
  | added
  | updated
  | completed
  | snapshot
  | trade
  deriving DecidableEq

def phaseFromPart : RowPart → String
  | .added => "open"
  | .updated => "update"
  | .completed => "close"
  | .snapshot => "snapshot"
  | .trade => "trade"

def afterMark (mark : List Char) : List Char → Option (List Char)
  | [] => none
  | c :: rest =>
      if mark.isPrefixOf (c :: rest) then some ((c :: rest).drop mark.length)
      else afterMark mark rest

def resFromSchema (dataSchema : String) : Value :=
  match afterMark "ohlcv_".toList dataSchema.toList with
  | some rest => .str (String.ofList rest)
  | none => .none

namespace Record

def get (row : Record) (name : String) : Value := (row.lookup name).getD .none

end Record

section Adapters

-- How a timestamp is printed.
variable (isoformat : Value → String)

def tsToIso : Value → Value
  | .none => .none
  | ts => .str (isoformat ts)

def wanted (row : Record) (fieldsList : Option (List String)) (names : List String) : Record :=
  (names.filter fun name => fieldsList.all fun fields => fields.contains name).map fun name =>
    (name, row.get name)

def adaptBarRow (row : Record) (provider dataSchema : String) (part : RowPart)
    (fieldsList : Option (List String)) : Record :=
  [("Type", .str "bar"), ("Phase", .str (phaseFromPart part)),
    ("Provider", (row.lookup "Provider").getD (.str provider)), ("Symbol", row.get "Symbol"),
    ("Timestamp", tsToIso isoformat (row.get "Timestamp"))] ++
  wanted row fieldsList ["Exchange", "BarId", "Open", "High", "Low", "Close", "Volume"] ++
  [("Res", resFromSchema dataSchema), ("Closed", .bool (part = .completed ∨ part = .snapshot))]

def adaptTradeRow (row : Record) (provider : String) (part : RowPart)
    (fieldsList : Option (List String)) : Record :=
  -- A timestamp is truthy whenever it is there.
  let ts := match row.get "Timestamp" with
    | .none => row.get "Ts"
    | ts => ts
  [("Type", .str "trade"), ("Phase", .str (phaseFromPart part)),
    ("Provider", (row.lookup "Provider").getD (.str provider)), ("Symbol", row.get "Symbol"),
    ("Timestamp", tsToIso isoformat ts)] ++
  wanted row fieldsList
    ["Exchange", "TradeID", "Price", "Quantity", "BuyerID", "SellerID", "IsBuyerMaker"]

def isBarSchema (provider dataSchema : String) : Bool :=
  (schemas provider dataSchema).any SchemaSpec.isBar

def adaptRow (row : Record) (provider dataSchema : String) (part : RowPart)
    (fieldsList : Option (List String)) : Record :=
  if isBarSchema provider dataSchema then
    adaptBarRow isoformat row provider dataSchema part fieldsList
  else adaptTradeRow isoformat row provider part fieldsList

/-- A request for the rows of a range of time; its `fields` are split already. -/
structure RangeRequest where
  provider : String
  dataSchema : String
  symbol : String
  exchange : Option String := none
  fromNs : Option Int := none
  toNs : Option Int := none
  fields : Option (List String) := none

-- The exchange is passed on only for a schema that has the column.
def RangeRequest.query (r : RangeRequest) (spec : SchemaSpec) : Query :=
  { symbol := r.symbol, startNs := r.fromNs, endNs := r.toNs
    exchange := r.exchange.filter fun exchange => exchange ≠ "" && spec.cols.contains "Exchange" }

-- The rows that are sent, and the line for each of them; `raised` is the text of an exception of the
-- query.
def rangeSnapshot [Uppercase] [QueryLanguage] (raised : String) (r : RangeRequest)
    (table : List Row) : Except String (List (Row × Record)) :=
  match schemas r.provider r.dataSchema with
  | none => .error ("Unknown provider/schema: " ++ r.provider ++ "/" ++ r.dataSchema)
  | some spec =>
      let timeCol := timeCol r.provider r.dataSchema
      let arr := snapshotRange spec timeCol table (r.query spec) r.fields
      if (r.query spec).answered spec then
        .ok (arr.rows.map fun row =>
          (row, adaptRow isoformat (arr.record timeCol row) r.provider r.dataSchema .snapshot
            r.fields))
      else .error raised

-- The rows of an event that a WebSocket client is sent; a row of a snapshot is adapted as such,
-- whichever part it is from.
def rowPart (event : Gapless.Event) : RowPart :=
  match event.phase, event.part with
  | .snapshot, _ => .snapshot
  | _, some .added => .added
  | _, some .updated => .updated
  | _, _ => .completed

def sentRows (r : Gapless.Request) (event : Gapless.Event) : List (Row × Record) :=
  event.table.rows.map fun row =>
    (row, adaptRow isoformat (event.table.record r.timeCol row) r.provider r.dataSchema
      (rowPart event) r.fields)

end Adapters

def reportedClosed (message : Record) : Bool := (message.get "Closed").isBool true

theorem lookup_wanted (row : Record) (fieldsList : Option (List String)) {names : List String}
    {name : String} (other : name ∉ names) : (wanted row fieldsList names).lookup name = none := by
  rw [List.lookup_eq_none_iff]
  intro cell member
  obtain ⟨listed, inside, rfl⟩ := List.mem_map.mp member
  have different : name ≠ listed := by
    rintro rfl
    exact other (List.mem_filter.mp inside).1
  exact bne_iff_ne.mpr different

theorem adaptBarRow_closed (isoformat : Value → String) (row : Record)
    (provider dataSchema : String) (part : RowPart) (fieldsList : Option (List String)) :
    reportedClosed (adaptBarRow isoformat row provider dataSchema part fieldsList) =
      decide (part = .completed ∨ part = .snapshot) := by
  have closed : (adaptBarRow isoformat row provider dataSchema part fieldsList).get "Closed" =
      .bool (part = .completed ∨ part = .snapshot) := by
    unfold Record.get adaptBarRow
    rw [List.lookup_append, List.lookup_append, lookup_wanted row fieldsList (by decide)]
    rfl
  unfold reportedClosed
  rw [closed]
  simp [Value.isBool]

theorem adaptTradeRow_closed (isoformat : Value → String) (row : Record) (provider : String)
    (part : RowPart) (fieldsList : Option (List String)) :
    reportedClosed (adaptTradeRow isoformat row provider part fieldsList) = false := by
  have closed : (adaptTradeRow isoformat row provider part fieldsList).get "Closed" = .none := by
    unfold Record.get adaptTradeRow
    rw [List.lookup_append, lookup_wanted row fieldsList (by decide)]
    rfl
  unfold reportedClosed
  rw [closed]
  rfl

end DeepFeeder
