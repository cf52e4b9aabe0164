import DeepFeeder.Shared.Delimited
import DeepFeeder.Client.Stream

set_option autoImplicit false

namespace DeepFeeder

structure StreamArgs where
  provider : String
  dataSchema : String
  symbol : String
  exchange : Option String

namespace StreamArgs

open Delimited

-- The uppercase mapping of strings is whatever the language's is.
variable (upper : String → String)

-- `MarketFeeder._key`.
def key (t : StreamArgs) : String :=
  t.provider ++ "|" ++ t.dataSchema ++ "|" ++ t.symbol ++
    match t.exchange with
    | some exchange => if exchange ≠ "" then "@" ++ upper exchange else ""
    | none => ""

-- `_stream_id`.
def streamId (t : StreamArgs) : String :=
  t.provider ++ "|" ++ t.dataSchema ++ "|" ++ t.symbol ++
    match t.exchange with
    | some exchange => if exchange ≠ "" then "@" ++ upper exchange else ""
    | none => ""

-- An empty exchange counts as none, and letter case does not count.
def venue (t : StreamArgs) : Option String :=
  match t.exchange with
  | some exchange => if exchange ≠ "" then some (upper exchange) else none
  | none => none

def Agree (t t' : StreamArgs) : Prop :=
  t.provider = t'.provider ∧ t.dataSchema = t'.dataSchema ∧ t.symbol = t'.symbol ∧
    t.venue upper = t'.venue upper

def venueText (t : StreamArgs) : Option (List Char) := (t.venue upper).map String.toList

def symbolText (t : StreamArgs) : List Char := t.symbol.toList ++ suffix '@' (t.venueText upper)

/-- A delimiter of the first stream's key is inside a field of the second one. -/
def Moved (t t' : StreamArgs) : Prop :=
  MovedInto '|' t.provider.toList (t.dataSchema.toList ++ '|' :: t.symbolText upper)
      t'.provider.toList (t'.dataSchema.toList ++ '|' :: t'.symbolText upper) ∨
    (t.provider = t'.provider ∧
      MovedInto '|' t.dataSchema.toList (t.symbolText upper) t'.dataSchema.toList
        (t'.symbolText upper)) ∨
    (t.provider = t'.provider ∧ t.dataSchema = t'.dataSchema ∧
      SuffixInto '@' t.symbol.toList (t.venueText upper) t'.symbol.toList (t'.venueText upper))

/-- No exchange, no bar in any field, and a symbol that does not end like one with an exchange. -/
structure Unmistakable (t : StreamArgs) : Prop where
  venue : t.venue upper = none
  provider : '|' ∉ t.provider.toList
  dataSchema : '|' ∉ t.dataSchema.toList
  symbol : '|' ∉ t.symbol.toList
  ending : ∀ symbol exchange, exchange ≠ "" → t.symbol ≠ symbol ++ "@" ++ upper exchange

variable {upper} {t t' : StreamArgs}

theorem streamKey_eq [Uppercase] (provider dataSchema symbol : String) (exchange : Option String) :
    streamKey provider dataSchema symbol exchange =
      key DeepFeeder.upper { provider, dataSchema, symbol, exchange } := by
  unfold streamKey key
  cases exchange with
  | none => rfl
  | some exchange =>
      by_cases empty : exchange = ""
      next => rw [empty]; rfl
      next => simp [empty]

theorem clientStreamId_eq [Uppercase] (provider dataSchema symbol : String)
    (exchange : Option String) :
    Client.streamId provider dataSchema symbol exchange =
      streamId DeepFeeder.upper { provider, dataSchema, symbol, exchange } :=
  streamKey_eq provider dataSchema symbol exchange

theorem streamId_eq_key (upper : String → String) (t : StreamArgs) :
    t.streamId upper = t.key upper := rfl

@[simp] theorem toList_bar : "|".toList = ['|'] := rfl

@[simp] theorem toList_at : "@".toList = ['@'] := rfl

theorem toList_key (upper : String → String) (t : StreamArgs) :
    (t.key upper).toList =
      t.provider.toList ++ '|' :: (t.dataSchema.toList ++ '|' :: t.symbolText upper) := by
  unfold key symbolText venueText venue
  cases t.exchange with
  | none => simp [suffix]
  | some exchange =>
      by_cases empty : exchange = ""
      next => simp [suffix, empty]
      next => simp [suffix, empty]

theorem venueText_eq_iff : t.venueText upper = t'.venueText upper ↔ t.venue upper = t'.venue upper :=
  (Option.map_injective fun _ _ => String.toList_inj.mp).eq_iff

theorem key_eq_iff : t.key upper = t'.key upper ↔
    Agree upper t t' ∨ Moved upper t t' ∨ Moved upper t' t := by
  rw [← String.toList_inj, toList_key, toList_key, joined_eq_iff, joined_eq_iff]
  unfold symbolText
  rw [suffixed_eq_iff]
  simp only [String.toList_inj, venueText_eq_iff]
  constructor
  next =>
      rintro (⟨provider, ⟨dataSchema, ⟨symbol, venue⟩ | moved | moved⟩ | moved | moved⟩ |
        moved | moved)
      next => exact .inl ⟨provider, dataSchema, symbol, venue⟩
      next => exact .inr (.inl (.inr (.inr ⟨provider, dataSchema, moved⟩)))
      next => exact .inr (.inr (.inr (.inr ⟨provider.symm, dataSchema.symm, moved⟩)))
      next => exact .inr (.inl (.inr (.inl ⟨provider, moved⟩)))
      next => exact .inr (.inr (.inr (.inl ⟨provider.symm, moved⟩)))
      next => exact .inr (.inl (.inl moved))
      next => exact .inr (.inr (.inl moved))
  next =>
      rintro (⟨provider, dataSchema, symbol, venue⟩ |
        (moved | ⟨provider, moved⟩ | ⟨provider, dataSchema, moved⟩) |
        moved | ⟨provider, moved⟩ | ⟨provider, dataSchema, moved⟩)
      next => exact .inl ⟨provider, .inl ⟨dataSchema, .inl ⟨symbol, venue⟩⟩⟩
      next => exact .inr (.inl moved)
      next => exact .inl ⟨provider, .inr (.inl moved)⟩
      next => exact .inl ⟨provider, .inl ⟨dataSchema, .inr (.inl moved)⟩⟩
      next => exact .inr (.inr moved)
      next => exact .inl ⟨provider.symm, .inr (.inr moved)⟩
      next => exact .inl ⟨provider.symm, .inl ⟨dataSchema.symm, .inr (.inr moved)⟩⟩

theorem Moved.disagree (moved : Moved upper t t') : ¬Agree upper t t' := by
  rintro ⟨provider, dataSchema, symbol, _⟩
  rcases moved with moved | ⟨_, moved⟩ | ⟨_, _, moved⟩
  next => exact moved.ne (congrArg String.toList provider)
  next => exact moved.ne (congrArg String.toList dataSchema)
  next => exact moved.ne (congrArg String.toList symbol)

theorem Agree.symm (agree : Agree upper t t') : Agree upper t' t :=
  ⟨agree.1.symm, agree.2.1.symm, agree.2.2.1.symm, agree.2.2.2.symm⟩

theorem agree_of_key_iff : (t.key upper = t'.key upper → Agree upper t t') ↔
    ¬Moved upper t t' ∧ ¬Moved upper t' t := by
  constructor
  next =>
      intro identifies
      constructor
      next =>
          intro moved
          exact moved.disagree (identifies (key_eq_iff.mpr (.inr (.inl moved))))
      next =>
          intro moved
          exact moved.disagree (identifies (key_eq_iff.mpr (.inr (.inr moved)))).symm
  next =>
      rintro ⟨apart, apart'⟩ same
      rcases key_eq_iff.mp same with agree | moved | moved
      next => exact agree
      next => exact absurd moved apart
      next => exact absurd moved apart'

section Unmistakable

theorem symbolText_of_none (none : t.venue upper = none) : t.symbolText upper = t.symbol.toList := by
  unfold symbolText venueText
  rw [none]
  exact List.append_nil _

theorem Unmistakable.notMoved (plain : Unmistakable upper t) (t' : StreamArgs) :
    ¬Moved upper t t' := by
  have text := symbolText_of_none plain.venue
  rintro (moved | ⟨_, moved⟩ | ⟨_, _, _, _, moved⟩)
  next =>
      obtain ⟨x, _, rest⟩ := moved
      rw [text] at rest
      rcases joined_eq_iff.mp rest with ⟨_, symbol⟩ | symbol | dataSchema
      next =>
          refine plain.symbol ?_
          rw [symbol]
          simp
      next => exact plain.symbol symbol.mem.2
      next => exact plain.dataSchema dataSchema.mem.1
  next => exact plain.symbol (text ▸ moved.mem.2)
  next =>
      unfold venueText at moved
      rw [plain.venue] at moved
      cases moved

theorem exists_of_venue {venue : String} (found : t.venue upper = some venue) :
    ∃ exchange, exchange ≠ "" ∧ upper exchange = venue := by
  unfold StreamArgs.venue at found
  split at found
  next exchange _ =>
      split at found
      next filled => exact ⟨exchange, filled, Option.some.inj found⟩
      next => cases found
  next => cases found

theorem Unmistakable.notMovedInto (plain : Unmistakable upper t) (t' : StreamArgs) :
    ¬Moved upper t' t := by
  rintro (moved | ⟨_, moved⟩ | ⟨_, _, x, symbol, venue⟩)
  next => exact plain.provider moved.mem.1
  next => exact plain.dataSchema moved.mem.1
  next =>
      unfold venueText at venue
      rw [plain.venue, Option.map_eq_some_iff] at venue
      obtain ⟨venue, found, text⟩ := venue
      obtain ⟨exchange, filled, rfl⟩ := exists_of_venue found
      refine plain.ending t'.symbol exchange filled ?_
      rw [← String.toList_inj, symbol]
      simp [text, suffix]

def bare (provider dataSchema symbol : List Char) : StreamArgs :=
  { provider := .ofList provider, dataSchema := .ofList dataSchema, symbol := .ofList symbol
    exchange := none }

theorem symbolText_bare (provider dataSchema symbol : List Char) :
    (bare provider dataSchema symbol).symbolText upper = symbol := by
  rw [symbolText_of_none rfl]
  exact String.toList_ofList

theorem unmistakable_of_own
    (own : ∀ t', t.key upper = t'.key upper → Agree upper t t') : Unmistakable upper t := by
  have fixed (t' : StreamArgs) : ¬Moved upper t t' ∧ ¬Moved upper t' t :=
    agree_of_key_iff.mp (own t')
  have venue : t.venue upper = none := by
    by_contra some_
    obtain ⟨venue, found⟩ := Option.ne_none_iff_exists'.mp some_
    refine (fixed (bare t.provider.toList t.dataSchema.toList (t.symbolText upper))).1
      (.inr (.inr ⟨String.ofList_toList.symm, String.ofList_toList.symm, venue.toList, ?_, ?_⟩))
    next =>
        simp only [bare, String.toList_ofList]
        unfold symbolText venueText
        rw [found]
        rfl
    next =>
        unfold venueText
        rw [found]
        simp [bare, StreamArgs.venue, suffix]
  refine ⟨venue, ?_, ?_, ?_, ?_⟩
  next =>
      intro member
      obtain ⟨front, back, split⟩ := List.append_of_mem member
      refine (fixed (bare front back (t.dataSchema.toList ++ '|' :: t.symbolText upper))).2
        (.inl ⟨back, ?_, ?_⟩)
      next => simpa only [bare, String.toList_ofList] using split
      next =>
          rw [symbolText_bare]
          simp only [bare, String.toList_ofList]
  next =>
      intro member
      obtain ⟨front, back, split⟩ := List.append_of_mem member
      refine (fixed (bare t.provider.toList front (back ++ '|' :: t.symbolText upper))).2
        (.inr (.inl ⟨String.ofList_toList, back, ?_, symbolText_bare _ _ _⟩))
      simpa only [bare, String.toList_ofList] using split
  next =>
      intro member
      obtain ⟨front, back, split⟩ := List.append_of_mem member
      refine (fixed (bare t.provider.toList (t.dataSchema.toList ++ '|' :: front) back)).1
        (.inr (.inl ⟨String.ofList_toList.symm, front, ?_, ?_⟩))
      next => simp only [bare, String.toList_ofList]
      next => rw [symbolText_bare, symbolText_of_none venue, split]
  next =>
      intro symbol exchange filled ends
      refine (fixed { t with symbol, exchange := some exchange }).2
        (.inr (.inr ⟨rfl, rfl, (upper exchange).toList, ?_, ?_⟩))
      next =>
          rw [ends]
          simp
      next =>
          unfold venueText
          rw [venue]
          simp [StreamArgs.venue, filled, suffix]

theorem own_iff : (∀ t', t.key upper = t'.key upper → Agree upper t t') ↔ Unmistakable upper t := by
  constructor
  next => exact unmistakable_of_own
  next =>
      intro plain t'
      exact agree_of_key_iff.mpr ⟨plain.notMoved t', plain.notMovedInto t'⟩

end Unmistakable

-- Streams are told apart when no provider and no schema has a bar and no symbol has an `@`.
theorem agree_of_plain (provider : '|' ∉ t.provider.toList) (provider' : '|' ∉ t'.provider.toList)
    (dataSchema : '|' ∉ t.dataSchema.toList) (dataSchema' : '|' ∉ t'.dataSchema.toList)
    (symbol : '@' ∉ t.symbol.toList) (symbol' : '@' ∉ t'.symbol.toList)
    (same : t.key upper = t'.key upper) : Agree upper t t' := by
  refine agree_of_key_iff.mpr ⟨?_, ?_⟩ same
  next =>
      rintro (moved | ⟨_, moved⟩ | ⟨_, _, moved⟩)
      next => exact provider' moved.mem.1
      next => exact dataSchema' moved.mem.1
      next => exact symbol' moved.mem
  next =>
      rintro (moved | ⟨_, moved⟩ | ⟨_, _, moved⟩)
      next => exact provider moved.mem.1
      next => exact dataSchema moved.mem.1
      next => exact symbol moved.mem

/-- The server and the client build the same key. Two streams with one key agree exactly when no
delimiter of either is inside a field of the other, and a stream agrees with all that have its key
exactly when it is plain. -/
theorem key_identifies_iff (upper : String → String) :
    (∀ t : StreamArgs, t.streamId upper = t.key upper) ∧
      (∀ t t' : StreamArgs, (t.key upper = t'.key upper → Agree upper t t') ↔
        ¬Moved upper t t' ∧ ¬Moved upper t' t) ∧
      ∀ t : StreamArgs, (∀ t', t.key upper = t'.key upper → Agree upper t t') ↔ Unmistakable upper t :=
  ⟨streamId_eq_key upper, fun _ _ => agree_of_key_iff, fun _ => own_iff⟩

def onVenue : Subscription :=
  { provider := "tradingview", dataSchema := "ohlcv_1m", symbol := "PETR4", callback := ⟨1, 1⟩
    exchange := some "B3" }

def namedAlike : Subscription :=
  { provider := "tradingview", dataSchema := "ohlcv_1m", symbol := "PETR4@B3", callback := ⟨2, 2⟩ }

attribute [local instance] asciiUppercase

def bothSubscribed : MarketFeeder :=
  let first := (({} : MarketFeeder).subscribe onVenue (.started 256)).2
  (first.subscribe namedAlike (.started 256)).2

-- The second stream is served by the listener of the first one.
theorem streams_merged :
    ¬(∀ t t' : StreamArgs, t.key String.toUpper = t'.key String.toUpper →
        Agree String.toUpper t t') ∧
      onVenue.symbol ≠ namedAlike.symbol ∧ bothSubscribed.lsn.entries.length = 1 ∧
      bothSubscribed.refCount onVenue.key = 2 ∧
      (bothSubscribed.lsn.lookup namedAlike.key).map (·.symbol) = some "PETR4" := by
  refine ⟨?_, by decide, by decide +kernel, by decide +kernel, by decide +kernel⟩
  intro identifies
  have agree := identifies ⟨"tradingview", "ohlcv_1m", "PETR4", some "B3"⟩
    ⟨"tradingview", "ohlcv_1m", "PETR4@B3", none⟩ (by decide +kernel)
  exact absurd agree.2.2.1 (by decide)

end StreamArgs

end DeepFeeder
