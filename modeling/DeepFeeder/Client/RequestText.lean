import DeepFeeder.Shared.Urlencode
import DeepFeeder.Shared.Delimited
import DeepFeeder.Providers.Frames
import DeepFeeder.Client.Stream

set_option autoImplicit false

namespace DeepFeeder.Client

open Gapless (Request)
open Urlencode
open Numeral (strip)

structure Stream where
  provider : String
  dataSchema : String
  symbol : String
  exchange : Option String := none
  fields : List String := []
  onlyCompleted : Option Bool := none

-- `",".join(fields)`.
def joinFields (fields : List String) : String :=
  String.ofList ([','].intercalate (fields.map String.toList))

structure SubscribeKwargs where
  fields : Option String
  onlyCompleted : Option Bool
  sinceNs : Option Int
  exchange : Option String

-- A bot asks for no `since_ns`; `subscribe` takes one from other callers.
def Stream.toSubscribeKwargs (stream : Stream) (sinceNs : Option Int) : SubscribeKwargs :=
  { fields := if stream.fields = [] then none else some (joinFields stream.fields)
    onlyCompleted := stream.onlyCompleted
    sinceNs
    exchange := stream.exchange }

namespace SubscribeKwargs

def textParam (name : String) : Option String → List (String × String)
  | none => []
  | some value => if value = "" then [] else [(name, value)]

def urlParams (kwargs : SubscribeKwargs) : List (String × String) :=
  ((kwargs.sinceNs.map fun n => ("since_ns", toString n)).toList ++
      textParam "fields" kwargs.fields) ++
    (kwargs.onlyCompleted.map fun b => ("only_completed", if b then "true" else "false")).toList ++
      textParam "exchange" kwargs.exchange

def queryText (kwargs : SubscribeKwargs) : List Char := urlencode kwargs.urlParams

end SubscribeKwargs

-- `f"/ws/{provider}/{schema}/{symbol}"`, where nothing is quoted.
def Stream.path (stream : Stream) : String :=
  String.ofList (['/'].intercalate
    (["", "ws", stream.provider, stream.dataSchema, stream.symbol].map String.toList))

def Stream.url (stream : Stream) (sinceNs : Option Int) : List Char :=
  let query := (stream.toSubscribeKwargs sinceNs).queryText
  if query = [] then stream.path.toList else stream.path.toList ++ '?' :: query

-- The characters of a name in a path that stand for themselves in every URL.
def isPathChar (c : Char) : Bool := alwaysSafe c || "!$&'()*+,=:@".toList.contains c

def isPathName (name : String) : Bool := name ≠ "" && name.toList.all isPathChar

structure Query where
  sinceNs : Option Int
  fields : Option String
  onlyCompleted : Option Bool
  exchange : Option String

def parseBool (text : String) : Option Bool :=
  let lower := String.ofList (text.toList.map Char.toLower)
  if ["1", "on", "t", "true", "y", "yes"].contains lower then some true
  else if ["0", "off", "f", "false", "n", "no"].contains lower then some false
  else none

-- An absent parameter is None; none when the value cannot be read.
def optional {α : Type} (parse : String → Option α) : Option String → Option (Option α)
  | none => some none
  | some text => (parse text).map some

-- The last value of a name counts.
def param (params : List (String × String)) (name : String) : Option String :=
  params.reverse.lookup name

def readQuery (text : List Char) : Option Query := do
  let params ← parseQsl text
  let sinceNs ← optional Numeral.parseInt (param params "since_ns")
  let onlyCompleted ← optional parseBool (param params "only_completed")
  some { sinceNs, fields := param params "fields", onlyCompleted, exchange := param params "exchange" }

-- `[f.strip() for f in fields.split(",")]`.
def fieldsList (fields : String) : List String :=
  (fields.toList.splitOn ',').map fun field => String.ofList (strip field)

def Query.request (query : Query) (provider dataSchema symbol : String) : Request :=
  { provider, dataSchema, symbol
    exchange := query.exchange
    fields := (query.fields.filter (· ≠ "")).map fieldsList
    onlyCompleted := query.onlyCompleted.getD (isBarSchema provider dataSchema)
    startNs := query.sinceNs
    snapshotBatch := true }

-- The route of `ws_stream`, and the call that it makes.
def readUrl (url : List Char) : Option Request := do
  let (path, text) := (Framing.splitOnce ['?'] url).getD (url, [])
  let plain ← decode (unquoteToBytes path)
  match (plain.toList.splitOn '/').map String.ofList with
  | ["", "ws", provider, dataSchema, symbol] =>
      if provider ≠ "" ∧ dataSchema ≠ "" ∧ symbol ≠ "" then
        (readQuery text).map fun query => query.request provider dataSchema symbol
      else none
  | _ => none

def Stream.worker (stream : Stream) (sinceNs : Option Int) : StreamWorker :=
  { provider := stream.provider, dataSchema := stream.dataSchema, symbol := stream.symbol
    fields := some stream.fields
    onlyCompleted := stream.onlyCompleted
    sinceNs
    exchange := stream.exchange }

section Reading

theorem textParam_eq (name : String) (value : Option String) :
    SubscribeKwargs.textParam name value =
      ((value.filter (· ≠ "")).map fun text => (name, text)).toList := by
  cases value with
  | none => rfl
  | some text =>
      by_cases empty : text = ""
      next => simp [SubscribeKwargs.textParam, empty]
      next =>
        simp [SubscribeKwargs.textParam, empty, Option.filter]

theorem param_urlParams (kwargs : SubscribeKwargs) :
    param kwargs.urlParams "since_ns" = kwargs.sinceNs.map toString ∧
      param kwargs.urlParams "fields" = kwargs.fields.filter (· ≠ "") ∧
      param kwargs.urlParams "only_completed" =
        kwargs.onlyCompleted.map (fun b => if b then "true" else "false") ∧
      param kwargs.urlParams "exchange" = kwargs.exchange.filter (· ≠ "") := by
  unfold SubscribeKwargs.urlParams
  rw [textParam_eq, textParam_eq]
  generalize kwargs.fields.filter (· ≠ "") = fields
  generalize kwargs.exchange.filter (· ≠ "") = exchange
  cases kwargs.sinceNs <;> cases fields <;> cases kwargs.onlyCompleted <;> cases exchange <;>
    simp [param, List.lookup_cons, List.lookup_nil]

theorem parseInt_intText (n : Int) : Numeral.parseInt (toString n) = some n := by
  cases n with
  | ofNat n => exact Numeral.parseInt_natText n
  | negSucc n =>
      have digits : ∀ c ∈ Nat.toDigits 10 (n + 1), c.isDigit = true := fun c member =>
        Nat.isDigit_of_mem_toDigits (by decide) (by decide) member
      have letters : (toString (Int.negSucc n)).toList = '-' :: Nat.toDigits 10 (n + 1) := by
        change ("-" ++ Nat.repr (n + 1)).toList = _
        rw [String.toList_append, Nat.toList_repr]
        rfl
      have solid : ∀ c ∈ '-' :: Nat.toDigits 10 (n + 1), Numeral.isSpace c = false := by
        intro c member
        rcases List.mem_cons.mp member with rfl | digit
        next => rfl
        next => exact Numeral.isSpace_eq_false (digits c digit)
      have stripped := Numeral.strip_eq_self solid
      have value : Numeral.digits (Nat.toDigits 10 (n + 1)) = some (n + 1) := by
        rw [Numeral.digits, Numeral.digitsFrom_eq digits 0 false (.inr Nat.toDigits_ne_nil),
          Nat.ofDigitChars_toDigits (by decide) (by decide)]
      have negative : Numeral.signed ('-' :: Nat.toDigits 10 (n + 1)) =
          (-1, Nat.toDigits 10 (n + 1)) := rfl
      rw [Numeral.parseInt, letters, stripped, negative]
      simp only [value]
      change some (-1 * ((n + 1 : Nat) : Int)) = _
      rw [Option.some.injEq]
      omega

-- An empty text is not sent, so it is read as None.
def SubscribeKwargs.sent (kwargs : SubscribeKwargs) : Query :=
  { sinceNs := kwargs.sinceNs
    fields := kwargs.fields.filter (· ≠ "")
    onlyCompleted := kwargs.onlyCompleted
    exchange := kwargs.exchange.filter (· ≠ "") }

theorem readQuery_queryText (kwargs : SubscribeKwargs) :
    readQuery kwargs.queryText = some kwargs.sent := by
  obtain ⟨sinceNs, fields, onlyCompleted, exchange⟩ := param_urlParams kwargs
  have since : optional Numeral.parseInt (kwargs.sinceNs.map toString) = some kwargs.sinceNs := by
    cases kwargs.sinceNs with
    | none => rfl
    | some n => exact congrArg (Option.map some) (parseInt_intText n)
  have only : optional parseBool (kwargs.onlyCompleted.map fun b => if b then "true" else "false") =
      some kwargs.onlyCompleted := by
    cases kwargs.onlyCompleted with
    | none => rfl
    | some b => cases b <;> rfl
  rw [readQuery, SubscribeKwargs.queryText, parseQsl_urlencode]
  simp only [Option.bind_eq_bind, Option.bind_some, sinceNs, fields, onlyCompleted, exchange, since,
    only]
  rfl

-- Nothing is lost of fields with no comma in them and no blank around them.
def FieldsKept (fields : List String) : Prop :=
  fields ≠ [""] ∧ ∀ field ∈ fields, ',' ∉ field.toList ∧ strip field.toList = field.toList

theorem notMem_strip {letters : List Char} {c : Char} (absent : c ∉ letters) : c ∉ strip letters := by
  unfold strip
  intro member
  rw [List.mem_reverse] at member
  have inside := List.mem_reverse.mp ((List.dropWhile_sublist _).subset member)
  exact absent ((List.dropWhile_sublist _).subset inside)

theorem fieldsList_joinFields_iff {fields : List String} (some : fields ≠ []) :
    fieldsList (joinFields fields) = fields ↔
      ∀ field ∈ fields, ',' ∉ field.toList ∧ strip field.toList = field.toList := by
  have texts : fieldsList (joinFields fields) = fields ↔
      (([','].intercalate (fields.map String.toList)).splitOn ',').map strip =
        fields.map String.toList := by
    rw [fieldsList, joinFields, String.toList_ofList]
    constructor
    next =>
      intro same
      conv_rhs => rw [← same]
      rw [List.map_map]
      refine List.map_congr_left fun part _ => ?_
      simp
    next =>
      intro same
      have read := congrArg (List.map String.ofList) same
      rw [List.map_map, List.map_map] at read
      refine Eq.trans read ((List.map_congr_left fun field _ => ?_).trans (List.map_id' _))
      simp
  rw [texts, Delimited.split_join_iff ',' (fun _ absent => notMem_strip absent) (by simpa using some)]
  simp

theorem joinFields_eq_empty_iff {fields : List String} (some : fields ≠ []) :
    joinFields fields = "" ↔ fields = [""] := by
  have empty : joinFields fields = "" ↔ [','].intercalate (fields.map String.toList) = [] := by
    rw [joinFields, ← String.toList_inj, String.toList_ofList]
    rfl
  rw [empty, Delimited.join_eq_nil_iff ',' (by simpa using some)]
  constructor
  next =>
    intro one
    obtain ⟨field, rfl, none⟩ := List.map_eq_singleton_iff.mp one
    have same : field.toList = "".toList := none
    rw [String.toList_inj.mp same]
  next =>
    rintro rfl
    rfl

theorem sentFields_iff (stream : Stream) (sinceNs : Option Int) :
    ((stream.toSubscribeKwargs sinceNs).fields.filter (· ≠ "")).map fieldsList =
        (some stream.fields).filter (· ≠ []) ↔ FieldsKept stream.fields := by
  unfold Stream.toSubscribeKwargs FieldsKept
  by_cases none : stream.fields = []
  next => simp [none, Option.filter]
  next =>
    by_cases empty : stream.fields = [""]
    next =>
      have text : joinFields stream.fields = "" := (joinFields_eq_empty_iff none).mpr empty
      rw [empty] at text
      simp [text, empty, Option.filter]
    next =>
      have text : joinFields stream.fields ≠ "" := fun same =>
        empty ((joinFields_eq_empty_iff none).mp same)
      simp only [none, if_false, Option.filter, text, empty, ne_eq, not_false_eq_true, decide_true,
        if_true, Option.map_some, Option.some.injEq, true_and]
      exact fieldsList_joinFields_iff none

theorem sent_request (stream : Stream) (sinceNs : Option Int) :
    (stream.toSubscribeKwargs sinceNs).sent.request stream.provider stream.dataSchema stream.symbol =
      { (stream.worker sinceNs).request with
        fields := ((stream.toSubscribeKwargs sinceNs).fields.filter (· ≠ "")).map fieldsList } := by
  have once (text : Option String) : (text.filter (· ≠ "")).filter (· ≠ "") = text.filter (· ≠ "") := by
    rw [Option.filter_filter]
    simp only [Bool.and_self]
  unfold Query.request SubscribeKwargs.sent
  rw [once]
  rfl

theorem isPathName_iff {name : String} :
    isPathName name = true ↔ name ≠ "" ∧ ∀ c ∈ name.toList, isPathChar c = true := by
  simp [isPathName]

theorem notMem_pathName {name : String} (path : isPathName name = true) {c : Char}
    (other : isPathChar c = false) : c ∉ name.toList := by
  intro member
  rw [(isPathName_iff.mp path).2 c member] at other
  cases other

theorem notMem_path {stream : Stream}
    (names : ∀ name ∈ [stream.provider, stream.dataSchema, stream.symbol], isPathName name = true)
    {c : Char} (notSlash : c ≠ '/') (other : isPathChar c = false) : c ∉ stream.path.toList := by
  simp only [List.forall_mem_cons] at names
  obtain ⟨provider, dataSchema, symbol, _⟩ := names
  have ws : c ∉ "ws".toList := by
    intro member
    rcases List.mem_cons.mp member with rfl | member
    next => cases other
    next =>
      cases List.mem_singleton.mp member
      cases other
  simp only [Stream.path, String.toList_ofList, List.map_cons, List.map_nil, List.intercalate_cons_cons,
    List.intercalate_singleton, List.mem_append, List.mem_singleton, notSlash, or_false, not_or]
  exact ⟨by simp, ws, notMem_pathName provider other, notMem_pathName dataSchema other,
    notMem_pathName symbol other⟩

theorem splitOn_path {stream : Stream}
    (names : ∀ name ∈ [stream.provider, stream.dataSchema, stream.symbol], isPathName name = true) :
    (stream.path.toList.splitOn '/').map String.ofList =
      ["", "ws", stream.provider, stream.dataSchema, stream.symbol] := by
  have whole : ∀ part ∈ ["", "ws", stream.provider, stream.dataSchema, stream.symbol].map
      String.toList, '/' ∉ part := by
    intro part member
    obtain ⟨name, inside, rfl⟩ := List.mem_map.mp member
    rcases List.mem_cons.mp inside with rfl | inside
    next => decide
    next =>
      rcases List.mem_cons.mp inside with rfl | inside
      next => decide
      next => exact notMem_pathName (names name inside) (by decide)
  rw [Stream.path, String.toList_ofList, List.splitOn_intercalate '/' whole (by simp), List.map_map]
  simp

theorem splitOnce_eq_none {c : Char} {text : List Char} (absent : c ∉ text) :
    Framing.splitOnce [c] text = none := by
  cases found : Framing.splitOnce [c] text with
  | none => rfl
  | some parts =>
      have joined := Framing.splitOnce_sound found
      refine absurd ?_ absent
      rw [joined]
      simp

theorem splitOnce_url {stream : Stream} (sinceNs : Option Int) (plain : '?' ∉ stream.path.toList) :
    (Framing.splitOnce ['?'] (stream.url sinceNs)).getD (stream.url sinceNs, []) =
      (stream.path.toList, (stream.toSubscribeKwargs sinceNs).queryText) := by
  unfold Stream.url
  by_cases none : (stream.toSubscribeKwargs sinceNs).queryText = []
  next => rw [if_pos none, splitOnce_eq_none plain, none, Option.getD_none]
  next =>
    have split := Framing.splitOnce_behind plain [] (stream.toSubscribeKwargs sinceNs).queryText
    rw [List.append_assoc, List.singleton_append] at split
    rw [if_neg none, split, Option.getD_some]

theorem readUrl_url {stream : Stream} (sinceNs : Option Int)
    (names : ∀ name ∈ [stream.provider, stream.dataSchema, stream.symbol], isPathName name = true) :
    readUrl (stream.url sinceNs) = some ((stream.toSubscribeKwargs sinceNs).sent.request
      stream.provider stream.dataSchema stream.symbol) := by
  have parts := splitOnce_url sinceNs (notMem_path names (by decide) (by decide))
  have plain : decode (unquoteToBytes stream.path.toList) = some stream.path :=
    decode_unquoteToBytes (notMem_path names (by decide) (by decide))
  have filled : stream.provider ≠ "" ∧ stream.dataSchema ≠ "" ∧ stream.symbol ≠ "" := by
    simp only [List.forall_mem_cons] at names
    exact ⟨(isPathName_iff.mp names.1).1, (isPathName_iff.mp names.2.1).1,
      (isPathName_iff.mp names.2.2.1).1⟩
  unfold readUrl
  rw [parts]
  simp only [plain, Option.bind_eq_bind, Option.bind_some, splitOn_path names]
  rw [if_pos filled, readQuery_queryText, Option.map_some]

/-- The server reads every part of the URL as it was asked for, if the names in its path are of
characters that a path has; the columns too, when they were not one empty name and none of their names
has a comma in it or a blank around it. -/
theorem request_read_iff (stream : Stream) (sinceNs : Option Int)
    (names : ∀ name ∈ [stream.provider, stream.dataSchema, stream.symbol], isPathName name = true) :
    ∃ request, readUrl (stream.url sinceNs) = some request ∧
      { request with fields := (stream.worker sinceNs).request.fields } =
        (stream.worker sinceNs).request ∧
      (request = (stream.worker sinceNs).request ↔ FieldsKept stream.fields) := by
  refine ⟨_, readUrl_url sinceNs names, ?_⟩
  rw [sent_request, ← sentFields_iff stream sinceNs]
  refine ⟨rfl, fun same => congrArg Request.fields same, fun same => ?_⟩
  exact congrArg (fun fields => { (stream.worker sinceNs).request with fields }) same

theorem request_read_front_month :
    ∃ request, readUrl (Stream.url
        { provider := "tradingview", dataSchema := "ohlcv_bars_1m", symbol := "ES1!"
          fields := ["Close"] } (some 5)) = some request ∧
      request.symbol = "ES1!" ∧ request.startNs = some 5 ∧ request.fields = some ["Close"] := by
  obtain ⟨request, read, kept, whole⟩ := request_read_iff
    { provider := "tradingview", dataSchema := "ohlcv_bars_1m", symbol := "ES1!"
      fields := ["Close"] } (some 5) (by decide +kernel)
  have same := whole.mpr (by unfold FieldsKept; decide +kernel)
  exact ⟨request, read, by rw [same]; rfl, by rw [same]; rfl, by rw [same]; rfl⟩

-- A question mark in a name ends the path, and the start is not found.
example :
    readUrl (Stream.url
        { provider := "binance", dataSchema := "trades", symbol := "A?B" } (some 5)) =
      some ((StreamWorker.request
        { provider := "binance", dataSchema := "trades", symbol := "A", fields := none
          onlyCompleted := some false, sinceNs := none, exchange := none })) := by
  decide +kernel

end Reading

end DeepFeeder.Client
