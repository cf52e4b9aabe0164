import DeepFeeder.Fanout.Columns
import DeepFeeder.Fanout.FinalValues

set_option autoImplicit false

namespace DeepFeeder

open SymListener
open FinalValues (after)

def SameCells (first second : Record) : Prop := ∀ cell, cell ∈ first ↔ cell ∈ second

-- What a batch carries of a row of the table: its time, and its values in the part's columns.
def CopyOf (row sent : Row) : Prop :=
  sent.time = row.time ∧ ∀ name ∈ sent.names, sent.get name = row.get name

/-- The row is delivered live, with the same columns and values as in the snapshot and the catch-up,
its time and its symbol among them. -/
def PathsAgree [Uppercase] [QueryLanguage] (sub : Subscription) (spec : SchemaSpec)
    (table part : List Row) (q : Query) (row sent : Row) : Prop :=
  let timeCol := timeCol sub.provider sub.dataSchema
  let snapshot := snapshotRange spec timeCol table q sub.fields
  let catchup := catchupTable timeCol part
  ∃ live, liveTable timeCol (MarketFeeder.info sub).fields part = some live ∧
    SameCells (snapshot.record timeCol row) (catchup.record timeCol sent) ∧
    SameCells (catchup.record timeCol sent) (live.record timeCol sent) ∧
    ∀ name ∈ mustKeep spec timeCol,
      name ∈ snapshot.names ∧ name ∈ catchup.names ∧ name ∈ live.names

def Batch.parts (batch : Batch) : List (List Row) :=
  [batch.added, batch.updated, batch.completed].filterMap id

-- The completed bars may start with the one that a placeholder left; then all have its columns.
def startsBare (spec : SchemaSpec) (part : List Row) : Bool :=
  part.head?.any fun first => first.names == [spec.symbolCol]

def partColumns (spec : SchemaSpec) (timeCol : String) (part : List Row) : List String :=
  if startsBare spec part then mustKeep spec timeCol else spec.cols

/-- No field is asked for and these are all columns of the schema, or just these columns are asked
for: as they are spelled, or in any case for the time and the symbol. -/
def AsksFor (sub : Subscription) (spec : SchemaSpec) (columns : List String) : Prop :=
  match sub.fields with
  | none | some [] => ∀ name ∈ spec.cols, name ∈ columns
  | some fields =>
      (∀ name ∈ spec.cols,
        name ∈ fields ∨ name ∈ mustKeep spec (timeCol sub.provider sub.dataSchema) ↔
          name ∈ columns) ∧
        ∀ name ∈ columns, ∃ field ∈ fields, lower field = lower name

def FromView (spec : SchemaSpec) (timeCol : String) (update : TableUpdate) : Prop :=
  ∀ row ∈ update.added ++ update.modified, timeCol :: row.names = spec.cols

def BarColumns (spec : SchemaSpec) (timeCol : String) (bar : Row) : Prop :=
  timeCol :: bar.names = spec.cols ∨ bar.names = [spec.symbolCol]

def Shaped (spec : SchemaSpec) (timeCol : String) (part : List Row) : Prop :=
  ∀ row ∈ part, timeCol :: row.names = partColumns spec timeCol part

variable {sub : Subscription} {spec : SchemaSpec} {table part : List Row} {q : Query}
  {row sent : Row} {columns : List String} {time : String}

section Parts

theorem mem_parts {batch : Batch} :
    part ∈ batch.parts ↔
      batch.added = some part ∨ batch.updated = some part ∨ batch.completed = some part := by
  simp [Batch.parts, eq_comm]

theorem nonEmpty_some {rows : List Row} (found : nonEmpty rows = some part) : part = rows := by
  rw [← nonEmpty_getD rows, found]
  rfl

theorem shaped_of_view (view : ∀ row ∈ part, time :: row.names = spec.cols) :
    Shaped spec time part := by
  cases part with
  | nil => exact fun _ member => nomatch member
  | cons first rest =>
      intro row member
      have columns : partColumns spec time (first :: rest) = spec.cols := by
        unfold partColumns
        split
        next bare =>
          have names : first.names = [spec.symbolCol] := by simpa [startsBare] using bare
          rw [← view first List.mem_cons_self, names]
          rfl
        next => rfl
      rw [columns]
      exact view row member

theorem shaped_fromPylist {rows : List Row} (bars : ∀ bar ∈ rows, BarColumns spec time bar) :
    Shaped spec time (fromPylist rows) := by
  cases rows with
  | nil => exact fun _ member => nomatch member
  | cons first rest =>
      have same : ∀ row ∈ fromPylist (first :: rest), row.names = first.names := by
        intro row member
        obtain ⟨bar, _, rfl⟩ := List.mem_map.mp member
        exact bar.project_names first
      rcases bars first List.mem_cons_self with view | bare
      · apply shaped_of_view
        intro row member
        rw [same row member]
        exact view
      · intro row member
        have starts : startsBare spec (fromPylist (first :: rest)) = true := by
          simp [startsBare, fromPylist, Row.project_names, bare]
        rw [partColumns, if_pos starts, same row member, bare]
        rfl

end Parts

section Listeners

structure Columned (spec : SchemaSpec) (time : String) (l : SymListener) : Prop where
  schema : l.spec = spec
  curr : ∀ bar, l.curr = some bar → BarColumns spec time bar
  buffered : ∀ batch ∈ l.buf, ∀ part ∈ batch.parts, Shaped spec time part

theorem onUpdate_columned {l : SymListener} {update : TableUpdate} (nowNs : Int)
    (columned : Columned spec time l) (view : FromView spec time update) :
    Columned spec time (l.onUpdate update nowNs).2 := by
  have added : ∀ row ∈ update.added, time :: row.names = spec.cols :=
    fun row member => view row (List.mem_append_left _ member)
  have modified : ∀ row ∈ update.modified, time :: row.names = spec.cols :=
    fun row member => view row (List.mem_append_right _ member)
  have bare : ∀ row, BarColumns spec time row → BarColumns spec time (minimalBar spec row) :=
    fun _ _ => .inr rfl
  obtain ⟨curr, completed⟩ := addRows_all (s := ⟨l.curr, [], true⟩) bare update.added
    (fun row member => .inl (added row member)) columned.curr (fun _ member => nomatch member)
  have batch : ∀ part ∈ (l.onUpdate update nowNs).1.parts, Shaped spec time part := by
    intro part member
    rw [mem_parts] at member
    unfold onUpdate at member
    split at member
    next =>
      rcases member with found | found | found
      · simp only at found
        split at found
        next => cases found
        next =>
          rw [nonEmpty_some found]
          exact shaped_of_view added
      · rw [nonEmpty_some found]
        exact shaped_of_view modified
      · rw [nonEmpty_some found, addRows, columned.schema]
        exact shaped_fromPylist completed
    next =>
      rcases member with found | found | found
      · rw [nonEmpty_some found]
        exact shaped_of_view added
      · rw [nonEmpty_some found]
        exact shaped_of_view modified
      · rw [nonEmpty_some found]
        exact shaped_of_view added
  obtain ⟨kept, buf⟩ := onUpdate_remembers l update nowNs
  refine ⟨kept.trans columned.schema, ?_, ?_⟩
  · unfold onUpdate
    split
    next =>
      rw [addRows, columned.schema]
      exact modifyBar_all (fun row member => .inl (modified row member)) curr
    next => exact columned.curr
  · intro found member
    rcases buf found member with before | rfl
    · exact columned.buffered found before
    · exact batch

theorem after_columned (bufMaxlen : Nat) {updates : List (TableUpdate × Int)}
    (view : ∀ update ∈ updates, FromView spec time update.1) :
    Columned spec time (after spec bufMaxlen updates) := by
  induction updates using List.reverseRecOn with
  | nil => exact ⟨rfl, fun _ here => (by cases here), fun _ member => nomatch member⟩
  | append_singleton before update ih =>
      rw [after, List.foldl_append]
      apply onUpdate_columned _ (ih fun other member => view other (List.mem_append_left _ member))
      exact view update (List.mem_append_right _ (List.mem_singleton_self _))

end Listeners

section Paths

theorem CopyOf.value (copy : CopyOf row sent) {name : String} (column : name ∈ time :: sent.names) :
    row.value time name = sent.value time name := by
  unfold Row.value
  split
  next => rw [copy.1]
  next other =>
    rcases List.mem_cons.mp column with same | named
    · exact absurd same other
    · rw [copy.2 name named]

theorem sameCells_iff {t t' : PaTable}
    (values : ∀ name ∈ t'.names, row.value time name = sent.value time name) :
    SameCells (t.record time row) (t'.record time sent) ↔
      ∀ name, name ∈ t.names ↔ name ∈ t'.names := by
  constructor
  · intro same name
    constructor
    · intro here
      exact ((mem_record t' _ _ _).mp ((same (name, row.value time name)).mp
        ((mem_record t _ _ _).mpr ⟨here, rfl⟩))).1
    · intro there
      exact ((mem_record t _ _ _).mp ((same (name, sent.value time name)).mpr
        ((mem_record t' _ _ _).mpr ⟨there, rfl⟩))).1
  · intro same cell
    rw [mem_record, mem_record, same]
    refine and_congr_right fun there => ?_
    rw [values _ there]

theorem catchupTable_names (member : sent ∈ part) (shaped : Shaped spec time part) :
    (catchupTable time part).names = partColumns spec time part := by
  cases part with
  | nil => cases member
  | cons first rest => exact shaped first List.mem_cons_self

theorem partColumns_within {provider dataSchema : String}
    (registered : schemas provider dataSchema = some spec) :
    (∀ name ∈ partColumns spec (timeCol provider dataSchema) part, name ∈ spec.cols) ∧
      ∀ name ∈ mustKeep spec (timeCol provider dataSchema),
        name ∈ partColumns spec (timeCol provider dataSchema) part := by
  have columns := mustKeep_cols registered
  unfold partColumns
  split
  · exact ⟨columns, fun _ => id⟩
  · exact ⟨fun _ => id, columns⟩

structure PartHas (sub : Subscription) (spec : SchemaSpec) (part : List Row) (row sent : Row)
    (columns : List String) : Prop where
  names : (catchupTable (timeCol sub.provider sub.dataSchema) part).names = columns
  within : ∀ name ∈ columns, name ∈ spec.cols
  kept : ∀ name ∈ mustKeep spec (timeCol sub.provider sub.dataSchema), name ∈ columns
  values : ∀ name ∈ columns,
    row.value (timeCol sub.provider sub.dataSchema) name =
      sent.value (timeCol sub.provider sub.dataSchema) name

theorem partHas_partColumns (registered : schemas sub.provider sub.dataSchema = some spec)
    (shaped : Shaped spec (timeCol sub.provider sub.dataSchema) part) (member : sent ∈ part)
    (copy : CopyOf row sent) :
    PartHas sub spec part row sent
      (partColumns spec (timeCol sub.provider sub.dataSchema) part) where
  names := catchupTable_names member shaped
  within := (partColumns_within registered).1
  kept := (partColumns_within registered).2
  values name column := copy.value (by rw [shaped sent member]; exact column)

theorem paths_agree_unfiltered_iff [Uppercase] [QueryLanguage]
    (has : PartHas sub spec part row sent columns) (asked : sub.fields = none ∨ sub.fields = some []) :
    PathsAgree sub spec table part q row sent ↔ ∀ name ∈ spec.cols, name ∈ columns := by
  have all : snapshotNames spec (timeCol sub.provider sub.dataSchema) sub.fields = spec.cols := by
    rcases asked with asked | asked <;> rw [asked] <;> rfl
  have unfiltered : (MarketFeeder.info sub).fields = none := by
    rcases asked with asked | asked <;> simp [MarketFeeder.info, asked]
  have names := has.names
  unfold PathsAgree
  simp only
  rw [sameCells_iff (names ▸ has.values), snapshotRange_names, all, names, unfiltered]
  constructor
  · rintro ⟨live, _, same, _⟩ name column
    exact (same name).mp column
  · intro whole
    refine ⟨catchupTable (timeCol sub.provider sub.dataSchema) part, rfl, ?_, fun _ => Iff.rfl, ?_⟩
    · exact fun name => ⟨whole name, has.within name⟩
    · intro name must
      have column := has.kept name must
      exact ⟨has.within name column, column, names ▸ column⟩

theorem paths_agree_filtered_iff [Uppercase] [QueryLanguage]
    (has : PartHas sub spec part row sent columns) {first : String} {rest : List String}
    (asked : sub.fields = some (first :: rest)) :
    PathsAgree sub spec table part q row sent ↔ AsksFor sub spec columns := by
  have filtered : (MarketFeeder.info sub).fields = some (first :: rest).toFinset := by
    simp [MarketFeeder.info, asked]
  have snapshot (name : String) :
      name ∈ snapshotNames spec (timeCol sub.provider sub.dataSchema) sub.fields ↔
        name ∈ spec.cols ∧ (name ∈ first :: rest ∨
          name ∈ mustKeep spec (timeCol sub.provider sub.dataSchema)) := by
    rw [asked]
    simp [snapshotNames]
  have requested (name : String) : lower name ∈ (first :: rest).toFinset.image lower ↔
      ∃ field ∈ first :: rest, lower field = lower name := by
    simp only [Finset.mem_image, List.mem_toFinset]
  have names := has.names
  unfold PathsAgree AsksFor
  simp only
  rw [sameCells_iff (names ▸ has.values), snapshotRange_names, filtered, names]
  simp only [snapshot]
  rw [asked]
  constructor
  · rintro ⟨live, delivered, same, sameLive, _⟩
    rw [sameCells_iff fun _ _ => rfl] at sameLive
    constructor
    · exact fun name column => ⟨fun asks => (same name).mp ⟨column, asks⟩,
        fun inside => ((same name).mpr inside).2⟩
    · intro name inside
      rw [← requested]
      exact ((mem_filterFields delivered name).mp ((sameLive name).mp (names ▸ inside))).2
  · rintro ⟨spelled, anyCase⟩
    have asksTime : timeCol sub.provider sub.dataSchema ∈ columns :=
      has.kept _ List.mem_cons_self
    obtain ⟨live, delivered⟩ := filterFields_some
      (t := catchupTable (timeCol sub.provider sub.dataSchema) part) (names ▸ asksTime)
      ((requested _).mpr (anyCase _ asksTime))
    have liveNames (name : String) : name ∈ live.names ↔ name ∈ columns := by
      rw [mem_filterFields delivered, names, requested]
      exact ⟨And.left, fun inside => ⟨inside, anyCase name inside⟩⟩
    refine ⟨live, delivered, ?_, ?_, ?_⟩
    · intro name
      constructor
      · rintro ⟨column, asks⟩
        exact (spelled name column).mp asks
      · intro inside
        have column := has.within name inside
        exact ⟨column, (spelled name column).mpr inside⟩
    · rw [sameCells_iff fun _ _ => rfl]
      intro name
      rw [names, liveNames]
    · intro name must
      have inside := has.kept name must
      exact ⟨⟨has.within name inside, .inr must⟩, inside, (liveNames name).mpr inside⟩

end Paths

theorem paths_agree_iff [Uppercase] [QueryLanguage] {bufMaxlen : Nat}
    {updates : List (TableUpdate × Int)} {batch : Batch}
    (registered : schemas sub.provider sub.dataSchema = some spec)
    (view : ∀ update ∈ updates, FromView spec (timeCol sub.provider sub.dataSchema) update.1)
    (buffered : batch ∈ (after spec bufMaxlen updates).buf) (listed : part ∈ batch.parts)
    (member : sent ∈ part) (copy : CopyOf row sent) :
    PathsAgree sub spec table part q row sent ↔
      AsksFor sub spec (partColumns spec (timeCol sub.provider sub.dataSchema) part) := by
  have shaped := (after_columned bufMaxlen view).buffered batch buffered part listed
  have has := partHas_partColumns registered shaped member copy
  cases asked : sub.fields with
  | none =>
      rw [paths_agree_unfiltered_iff has (.inl asked), AsksFor, asked]
  | some fields =>
      cases fields with
      | nil => rw [paths_agree_unfiltered_iff has (.inr asked), AsksFor, asked]
      | cons first rest => exact paths_agree_filtered_iff has asked

def tradeSubscription (fields : List String) : Subscription :=
  { provider := "binance", dataSchema := "trades", symbol := "BTCUSDT", callback := ⟨1, 1⟩
    fields := some fields }

def tradeRow : Row where
  time := 1000000000
  cells := [("Symbol", .str "BTCUSDT"), ("TradeID", .int 7), ("Price", .float 100),
    ("Quantity", .float 1), ("BuyerID", .none), ("SellerID", .none), ("IsBuyerMaker", .bool true)]
  distinct := by decide

def tradeUpdates : List (TableUpdate × Int) := [(⟨[tradeRow], []⟩, 1050000000)]

def tradeBatch : Batch :=
  { added := some [tradeRow], updated := none, completed := some [tradeRow], tsNs := 1050000000 }

attribute [local instance] asciiUppercase equalityTests

theorem paths_agree_all_fields :
    PathsAgree (tradeSubscription ("timestamp" :: binanceTrades.cols.tail)) binanceTrades [tradeRow]
        [tradeRow] { symbol := "BTCUSDT" } tradeRow tradeRow ↔
      AsksFor (tradeSubscription ("timestamp" :: binanceTrades.cols.tail)) binanceTrades
        (partColumns binanceTrades "Timestamp" [tradeRow]) := by
  have view : ∀ update ∈ tradeUpdates, FromView binanceTrades "Timestamp" update.1 := by
    simp [tradeUpdates, FromView, tradeRow, Row.names, binanceTrades]
  have buffered : tradeBatch ∈ (after binanceTrades 256 tradeUpdates).buf :=
    List.mem_singleton_self tradeBatch
  exact paths_agree_iff rfl view buffered List.mem_cons_self List.mem_cons_self
    ⟨rfl, fun _ _ => rfl⟩

-- The price is asked for in another case: the snapshot leaves it out, the live path the time and the
-- symbol, and the catch-up nothing.
theorem lower_case_fields_differ :
    let sub := tradeSubscription ["price"]
    (snapshotRange binanceTrades "Timestamp" [tradeRow] { symbol := "BTCUSDT" } sub.fields).names =
        ["Timestamp", "Symbol"] ∧
      (catchupTable "Timestamp" [tradeRow]).names = binanceTrades.cols ∧
      (liveTable "Timestamp" (MarketFeeder.info sub).fields [tradeRow]).map PaTable.names =
        some ["Price"] ∧
      ¬ PathsAgree sub binanceTrades [tradeRow] [tradeRow] { symbol := "BTCUSDT" } tradeRow
        tradeRow := by
  refine ⟨by decide +kernel, by decide +kernel, by decide +kernel, ?_⟩
  rintro ⟨live, _, same, _⟩
  rw [sameCells_iff fun _ _ => rfl] at same
  have price := (same "Price").mpr (by decide +kernel)
  revert price
  decide +kernel

end DeepFeeder
