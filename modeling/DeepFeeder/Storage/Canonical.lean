import DeepFeeder.Shared.DecimalText
import DeepFeeder.Storage.JournalMerge

set_option autoImplicit false

namespace DeepFeeder

@[simp] theorem CanonicalRow.stored_set (c : CanonicalRow) (b : Stored) (now : Int) :
    (c.set b now).stored = b := rfl

namespace JournalCanonical

def content (canonical : JournalCanonical) (key : CanonicalKey) : Option Stored :=
  (Keyed.lookup CanonicalRow.primaryKey canonical.rows key).map CanonicalRow.stored

def SameContent (first second : JournalCanonical) : Prop :=
  ∀ key, first.content key = second.content key

theorem content_eq_some_iff {canonical : JournalCanonical} {key : CanonicalKey} {s : Stored} :
    canonical.content key = some s ↔ ∃ r ∈ canonical.rows, r.primaryKey = key ∧ r.stored = s := by
  unfold content
  simp only [Option.map_eq_some_iff, Keyed.lookup_eq_some_iff canonical.unique, and_assoc]

end JournalCanonical

variable {rowNumber : RowNumber} {ticks : List Tick} {key : CanonicalKey}

def ofKey (ticks : List Tick) (key : CanonicalKey) : List Stored :=
  (ticks.filter fun t => decide (t.canonicalKey = key)).map Tick.stored

def best (rowNumber : RowNumber) (ticks : List Tick) (key : CanonicalKey) : Option Stored :=
  (rowNumber.first ((ticks.map candidate).filter fun s => decide (s.key = key))).map
    Candidate.toStored

theorem mem_ofKey {s : Stored} :
    s ∈ ofKey ticks key ↔ ∃ t ∈ ticks, t.canonicalKey = key ∧ t.stored = s := by
  simp [ofKey, and_assoc]

theorem ofKey_eq_candidates (ticks : List Tick) (key : CanonicalKey) :
    ((ticks.map candidate).filter fun s => decide (s.key = key)).map Candidate.toStored =
      ofKey ticks key := by
  rw [List.filter_map, List.map_map]
  rfl

theorem best_mem {b : Stored} (chosen : best rowNumber ticks key = some b) : b ∈ ofKey ticks key := by
  obtain ⟨c, picked, rfl⟩ := Option.map_eq_some_iff.mp chosen
  rw [← ofKey_eq_candidates]
  exact List.mem_map_of_mem (rowNumber.first_mem picked)

theorem best_top {b : Stored} (chosen : best rowNumber ticks key = some b) :
    ∀ s ∈ ofKey ticks key, s.rank ≤ b.rank := by
  obtain ⟨c, picked, rfl⟩ := Option.map_eq_some_iff.mp chosen
  intro s member
  rw [← ofKey_eq_candidates] at member
  obtain ⟨other, inside, rfl⟩ := List.mem_map.mp member
  exact rowNumber.first_top picked other inside

theorem best_eq_none_iff : best rowNumber ticks key = none ↔ ofKey ticks key = [] := by
  unfold best
  rw [Option.map_eq_none_iff, ← ofKey_eq_candidates, List.map_eq_nil_iff]
  constructor
  · intro nothing
    by_contra some
    exact rowNumber.first_ne_none some nothing
  · intro empty
    rw [empty]
    cases picked : rowNumber.first [] with
    | none => rfl
    | some b => cases rowNumber.first_mem picked

theorem lookup_tmpBest (rowNumber : RowNumber) (tmpCand : List Candidate) (key : CanonicalKey) :
    Keyed.lookup Candidate.key (tmpBest rowNumber tmpCand) key =
      rowNumber.first (tmpCand.filter fun s => decide (s.key = key)) := by
  apply Option.ext
  intro b
  rw [Keyed.lookup_eq_some_iff (tmpBest_keys rowNumber tmpCand)]
  unfold tmpBest
  rw [List.mem_filterMap]
  constructor
  · rintro ⟨⟨own, _, picked⟩, rfl⟩
    rwa [← key_of_first picked] at picked
  · intro picked
    have inside := rowNumber.first_mem picked
    refine ⟨⟨key, ?_, picked⟩, key_of_first picked⟩
    rw [List.mem_dedup, ← key_of_first picked]
    exact List.mem_map_of_mem (List.mem_of_mem_filter inside)

theorem content_merge (rowNumber : RowNumber) (canonical : JournalCanonical) (ticks : List Tick)
    (now : Int) (key : CanonicalKey) :
    (mergeIntoCanonicalNoTxn rowNumber canonical ticks now).content key =
      match best rowNumber ticks key with
      | some b => Register.put overwrites (canonical.content key) b
      | none => canonical.content key := by
  have inserted (bs : List Candidate) :
      Keyed.lookup CanonicalRow.primaryKey (bs.map fun b => CanonicalRow.ofBest b now) key =
        (Keyed.lookup Candidate.key bs key).map fun b => CanonicalRow.ofBest b now :=
    Keyed.lookup_map fun _ => rfl
  unfold JournalCanonical.content mergeIntoCanonicalNoTxn
  rw [Keyed.lookup_append, Keyed.lookup_map (updateRow_primaryKey _ now), inserted,
    Keyed.lookup_filter (missing canonical), lookup_tmpBest]
  unfold best
  cases found : Keyed.lookup CanonicalRow.primaryKey canonical.rows key with
  | some c =>
      simp only [Option.map_some, Option.some_or, updateRow, Keyed.key_of_lookup found,
        lookup_tmpBest]
      cases rowNumber.first ((ticks.map candidate).filter fun s => decide (s.key = key)) with
      | none => rfl
      | some b =>
          by_cases wins : overwrites b.toStored c.stored = true
          · simp [Register.put, wins]
          · simp [Register.put, wins]
  | none =>
      simp only [missing, found, Option.isNone_none, if_true, Option.map_none, Option.none_or]
      cases rowNumber.first ((ticks.map candidate).filter fun s => decide (s.key = key)) with
      | none => rfl
      | some b => rfl

def RowNumber.argmax : RowNumber :=
  let order : LinearOrder (Bool ×ₗ Int ×ₗ Int) := inferInstance
  { first := @List.argmax _ _ order.toPreorder order.toDecidableLT fun s => s.rank
    first_mem := fun picked => List.argmax_mem picked
    first_top := by
      intro rows b picked s member
      have top := List.le_of_mem_argmax member picked
      exact top
    first_ne_none := fun some none => some (List.argmax_eq_none.mp none) }

theorem content_mergeAgain (rowNumber : RowNumber) (canonical : JournalCanonical) (ticks : List Tick)
    (now later : Int) :
    (mergeIntoCanonicalNoTxn rowNumber (mergeIntoCanonicalNoTxn rowNumber canonical ticks now) ticks
      later).SameContent (mergeIntoCanonicalNoTxn rowNumber canonical ticks now) := by
  intro key
  rw [content_merge, content_merge]
  cases best rowNumber ticks key with
  | none => rfl
  | some b => exact Register.put_twice overwrites _ _

namespace DuckDbJournal

def HotOnce (hot : List HotRow) (env : Envelope) : Prop :=
  ∃ rest, hot.Perm (hotRows env ++ rest) ∧ ∀ r ∈ rest, r ∉ hotRows env

variable {journal : DuckDbJournal} {env : Envelope}

theorem appendEnvelope_nil (empty : env.rows = []) (rowNumber : RowNumber) (now : Int) :
    journal.appendEnvelope rowNumber now env = journal := by
  simp [appendEnvelope, empty]

theorem appendEnvelope_cons (some : env.rows ≠ []) (rowNumber : RowNumber) (now : Int) :
    journal.appendEnvelope rowNumber now env =
      { journal with
        hot := journal.hot ++ hotRows env
        canonical := mergeIntoCanonicalNoTxn rowNumber journal.canonical env.rows now } := by
  unfold appendEnvelope
  rw [if_neg (by simpa using some)]

theorem not_hotOnce_again (some : env.rows ≠ []) (first again : RowNumber) (now later : Int) :
    ¬ HotOnce ((journal.appendEnvelope first now env).appendEnvelope again later env).hot env := by
  rintro ⟨rest, perm, absent⟩
  rw [appendEnvelope_cons some, appendEnvelope_cons some] at perm
  have others : (journal.hot ++ hotRows env).Perm rest :=
    (List.perm_append_left_iff _).mp (List.perm_append_comm.trans perm)
  obtain ⟨t, tail, rows⟩ := List.exists_cons_of_ne_nil some
  obtain ⟨r, member⟩ : ∃ r, r ∈ hotRows env := by
    unfold hotRows
    rw [rows, List.map_cons]
    exact ⟨_, List.mem_cons_self⟩
  exact absent r (others.mem_iff.mp (List.mem_append_right _ member)) member

theorem append_again_iff (journal : DuckDbJournal) (env : Envelope) (first again : RowNumber)
    (now later : Int) :
    (HotOnce ((journal.appendEnvelope first now env).appendEnvelope again later env).hot env ∧
        ((journal.appendEnvelope first now env).appendEnvelope again later env).canonical.SameContent
          (journal.appendEnvelope first now env).canonical) ↔
      env.rows = [] := by
  constructor
  · rintro ⟨once, _⟩
    by_contra some
    exact not_hotOnce_again some first again now later once
  · intro empty
    rw [appendEnvelope_nil empty, appendEnvelope_nil empty]
    exact ⟨⟨journal.hot, by simp [hotRows, empty], by simp [hotRows, empty]⟩, fun _ => rfl⟩

def tradeEnvelope : Envelope :=
  { batchId := 1, producedAtNs := 0, firstOffset := none, lastOffset := none
    rows := [{ provider := "binance", stream := "trades", symbol := "BTCUSDT", tsNs := 1000
               seq := some 7, payload := [] }] }

theorem trade_appended_again :
    ¬ HotOnce ((new.appendEnvelope .argmax 1 tradeEnvelope).appendEnvelope .argmax 2
      tradeEnvelope).hot tradeEnvelope :=
  not_hotOnce_again (by simp [tradeEnvelope]) _ _ _ _

end DuckDbJournal

theorem canonicalKey_eq_iff {s t : Tick} :
    s.canonicalKey = t.canonicalKey ↔ naturalKey s = naturalKey t := by
  unfold Tick.canonicalKey naturalKey
  simp only [Prod.mk.injEq]
  constructor
  · rintro ⟨provider, stream, symbol, text⟩
    refine ⟨provider, stream, symbol, ?_⟩
    unfold natKeyText naturalKey at text
    simp only [provider, stream, symbol, String.append_left_inj, String.append_right_inj] at text
    exact DecimalText.intText_inj text
  · rintro ⟨provider, stream, symbol, position⟩
    refine ⟨provider, stream, symbol, ?_⟩
    simp only [natKeyText, naturalKey, provider, stream, symbol, position]

theorem rank_isFinal {s b : Stored} (le : s.rank ≤ b.rank) (final : s.isFinal = true) :
    b.isFinal = true := by
  have first : s.isFinal ≤ b.isFinal := by
    rcases Prod.Lex.toLex_le_toLex.mp le with less | ⟨same, _⟩
    · exact le_of_lt less
    · exact le_of_eq same
  rw [final] at first
  exact top_le_iff.mp first

theorem overwrites_of_isFinal {b : Stored} (final : b.isFinal = true) (c : Stored) :
    overwrites b c = true := by
  simp [overwrites, final]

theorem isFinal_of_overwrites {b c : Stored} (wins : overwrites b c = true)
    (final : c.isFinal = true) : b.isFinal = true := by
  simpa [overwrites, final] using wins

theorem ofKey_append (earlier ticks : List Tick) (key : CanonicalKey) :
    ofKey (earlier ++ ticks) key = ofKey earlier key ++ ofKey ticks key := by
  simp [ofKey]

structure Summarises (held : Option Stored) (ticks : List Stored) : Prop where
  none_iff : held = none ↔ ticks = []
  mem : ∀ s ∈ held, s ∈ ticks
  final_iff : ∀ s ∈ held, s.isFinal = true ↔ ∃ t ∈ ticks, t.isFinal = true

theorem Summarises.put {held : Option Stored} {earlier ticks : List Stored} {b : Stored}
    (before : Summarises held earlier) (member : b ∈ ticks) (top : ∀ s ∈ ticks, s.rank ≤ b.rank) :
    Summarises (Register.put overwrites held b) (earlier ++ ticks) := by
  rcases Register.put_cases overwrites held b with ⟨written, wins⟩ | ⟨c, rfl, blocked, kept⟩
  · rw [written]
    constructor
    next => simpa using fun _ => List.ne_nil_of_mem member
    next =>
      rintro s ⟨⟩
      exact List.mem_append_right _ member
    next =>
      rintro s ⟨⟩
      constructor
      · intro final
        exact ⟨_, List.mem_append_right _ member, final⟩
      · rintro ⟨t, inside, final⟩
        rcases List.mem_append.mp inside with early | late
        · obtain ⟨c, holds⟩ := Option.ne_none_iff_exists'.mp
            (mt before.none_iff.mp (List.ne_nil_of_mem early))
          exact isFinal_of_overwrites (wins c holds) ((before.final_iff c holds).mpr ⟨t, early, final⟩)
        · exact rank_isFinal (top t late) final
  · rw [kept]
    have provisional : b.isFinal = false := by
      by_contra final
      rw [overwrites_of_isFinal (by simpa using final)] at blocked
      cases blocked
    constructor
    next => simpa using fun _ => List.ne_nil_of_mem member
    next =>
      rintro s ⟨⟩
      exact List.mem_append_left _ (before.mem _ rfl)
    next =>
      rintro s ⟨⟩
      rw [before.final_iff _ rfl]
      constructor
      · rintro ⟨t, early, final⟩
        exact ⟨t, List.mem_append_left _ early, final⟩
      · rintro ⟨t, inside, final⟩
        rcases List.mem_append.mp inside with early | late
        · exact ⟨t, early, final⟩
        · rw [rank_isFinal (top t late) final] at provisional
          cases provisional

theorem Summarises.merge {canonical : JournalCanonical} {earlier : List Tick}
    (before : ∀ key, Summarises (canonical.content key) (ofKey earlier key)) (rowNumber : RowNumber)
    (ticks : List Tick) (now : Int) (key : CanonicalKey) :
    Summarises ((mergeIntoCanonicalNoTxn rowNumber canonical ticks now).content key)
      (ofKey (earlier ++ ticks) key) := by
  rw [content_merge, ofKey_append]
  cases chosen : best rowNumber ticks key with
  | none =>
      rw [best_eq_none_iff.mp chosen, List.append_nil]
      exact before key
  | some b => exact (before key).put (best_mem chosen) (best_top chosen)

structure AppendCall where
  rowNumber : RowNumber
  now : Int
  env : Envelope

namespace DuckDbJournal

def appendAll (journal : DuckDbJournal) (calls : List AppendCall) : DuckDbJournal :=
  calls.foldl (fun state call => state.appendEnvelope call.rowNumber call.now call.env) journal

def appendedTicks (calls : List AppendCall) : List Tick := calls.flatMap fun call => call.env.rows

theorem summarises_appendEnvelope {journal : DuckDbJournal} {earlier : List Tick}
    (before : ∀ key, Summarises (journal.canonical.content key) (ofKey earlier key))
    (call : AppendCall) (key : CanonicalKey) :
    Summarises
      ((journal.appendEnvelope call.rowNumber call.now call.env).canonical.content key)
      (ofKey (earlier ++ call.env.rows) key) := by
  by_cases empty : call.env.rows = []
  · rw [appendEnvelope_nil empty, empty, List.append_nil]
    exact before key
  · rw [appendEnvelope_cons empty]
    exact Summarises.merge before call.rowNumber call.env.rows call.now key

theorem summarises_appendAll (calls : List AppendCall) :
    ∀ key, Summarises ((new.appendAll calls).canonical.content key)
      (ofKey (appendedTicks calls) key) := by
  induction calls using List.reverseRecOn with
  | nil =>
      intro key
      constructor
      next => simp [appendAll, new, JournalCanonical.content, Keyed.lookup, appendedTicks, ofKey]
      next => simp [appendAll, new, JournalCanonical.content, Keyed.lookup]
      next => simp [appendAll, new, JournalCanonical.content, Keyed.lookup]
  | append_singleton calls call ih =>
      unfold appendAll appendedTicks at ih ⊢
      rw [List.foldl_append, List.flatMap_append, List.flatMap_singleton]
      exact summarises_appendEnvelope ih call

structure CanonicalOf (canonical : JournalCanonical) (ticks : List Tick) : Prop where
  one_row : (canonical.rows.map CanonicalRow.primaryKey).Nodup
  key_iff : ∀ key, key ∈ canonical.rows.map CanonicalRow.primaryKey ↔
    ∃ t ∈ ticks, t.canonicalKey = key
  from_tick : ∀ r ∈ canonical.rows, ∃ t ∈ ticks, t.canonicalKey = r.primaryKey ∧
    r.tsNs = t.tsNs ∧ r.seq = some (t.seq.getD (-1)) ∧ r.isFinal = t.isFinal ∧
      r.payload = some t.payload
  final_iff : ∀ r ∈ canonical.rows, r.isFinal = true ↔
    ∃ t ∈ ticks, t.canonicalKey = r.primaryKey ∧ t.isFinal = true

theorem CanonicalOf.of_summarises {canonical : JournalCanonical} {ticks : List Tick}
    (summary : ∀ key, Summarises (canonical.content key) (ofKey ticks key)) :
    CanonicalOf canonical ticks := by
  have holds (r : CanonicalRow) (member : r ∈ canonical.rows) :
      canonical.content r.primaryKey = some r.stored :=
    JournalCanonical.content_eq_some_iff.mpr ⟨r, member, rfl, rfl⟩
  constructor
  next => exact canonical.unique
  next =>
    intro key
    rw [← not_iff_not, ← Keyed.lookup_eq_none_iff]
    have empty := (summary key).none_iff
    unfold JournalCanonical.content at empty
    rw [Option.map_eq_none_iff, List.eq_nil_iff_forall_not_mem] at empty
    rw [empty]
    constructor
    · rintro none ⟨t, member, same⟩
      exact none t.stored (mem_ofKey.mpr ⟨t, member, same, rfl⟩)
    · intro none s inside
      obtain ⟨t, member, same, _⟩ := mem_ofKey.mp inside
      exact none ⟨t, member, same⟩
  next =>
    intro r member
    obtain ⟨t, inside, same, stored⟩ := mem_ofKey.mp ((summary _).mem _ (holds r member))
    have fields := Stored.mk.inj stored
    exact ⟨t, inside, same, fields.1.symm, fields.2.1.symm, fields.2.2.1.symm, fields.2.2.2.symm⟩
  next =>
    intro r member
    have final : r.isFinal = true ↔ ∃ s ∈ ofKey ticks r.primaryKey, s.isFinal = true :=
      (summary _).final_iff _ (holds r member)
    rw [final]
    constructor
    · rintro ⟨s, inside, isFinal⟩
      obtain ⟨t, tick, same, rfl⟩ := mem_ofKey.mp inside
      exact ⟨t, tick, same, isFinal⟩
    · rintro ⟨t, tick, same, isFinal⟩
      exact ⟨t.stored, mem_ofKey.mpr ⟨t, tick, same, rfl⟩, isFinal⟩

theorem CanonicalOf.perm {canonical : JournalCanonical} {appended ticks : List Tick}
    (holds : CanonicalOf canonical appended) (same : ∀ t, t ∈ appended ↔ t ∈ ticks)
    (distinct : (ticks.map Tick.canonicalKey).Nodup) :
    (canonical.rows.map fun r => (r.primaryKey, r.tsNs, r.payload)).Perm
      (ticks.map fun t => (t.canonicalKey, t.tsNs, some t.payload)) := by
  have rowsOnce : (canonical.rows.map fun r => (r.primaryKey, r.tsNs, r.payload)).Nodup := by
    apply List.Nodup.of_map Prod.fst
    rw [List.map_map]
    exact canonical.unique
  have ticksOnce : (ticks.map fun t => (t.canonicalKey, t.tsNs, some t.payload)).Nodup := by
    apply List.Nodup.of_map Prod.fst
    rw [List.map_map]
    exact distinct
  rw [List.perm_ext_iff_of_nodup rowsOnce ticksOnce]
  intro item
  rw [List.mem_map, List.mem_map]
  constructor
  · rintro ⟨r, row, rfl⟩
    obtain ⟨t, member, key, tsNs, _, _, payload⟩ := holds.from_tick r row
    exact ⟨t, (same t).mp member, by rw [key, tsNs, payload]⟩
  · rintro ⟨t, member, rfl⟩
    obtain ⟨r, row, key⟩ := List.mem_map.mp
      ((holds.key_iff t.canonicalKey).mpr ⟨t, (same t).mpr member, rfl⟩)
    obtain ⟨other, appended, sameKey, tsNs, _, _, payload⟩ := holds.from_tick r row
    have isTick : other = t := List.inj_on_of_nodup_map distinct ((same other).mp appended) member
      (sameKey.trans key)
    refine ⟨r, row, ?_⟩
    rw [key, tsNs, payload, isTick]

theorem appendAll_canonicalOf (calls : List AppendCall) :
    CanonicalOf (new.appendAll calls).canonical (appendedTicks calls) ∧
      ∀ before after, calls = before ++ after →
        ∀ r ∈ (new.appendAll before).canonical.rows, r.isFinal = true →
          ∃ s ∈ (new.appendAll calls).canonical.rows,
            s.primaryKey = r.primaryKey ∧ s.isFinal = true := by
  have exact_at (calls : List AppendCall) :
      CanonicalOf (new.appendAll calls).canonical (appendedTicks calls) :=
    .of_summarises (summarises_appendAll calls)
  refine ⟨exact_at calls, ?_⟩
  rintro before after rfl r member final
  obtain ⟨t, early, same, isFinal⟩ := ((exact_at before).final_iff r member).mp final
  have inside : t ∈ appendedTicks (before ++ after) := by
    unfold appendedTicks at early ⊢
    rw [List.flatMap_append]
    exact List.mem_append_left _ early
  have present := ((exact_at (before ++ after)).key_iff r.primaryKey).mpr ⟨t, inside, same⟩
  obtain ⟨s, row, key⟩ := List.mem_map.mp present
  refine ⟨s, row, key, ((exact_at _).final_iff s row).mpr ⟨t, inside, ?_, isFinal⟩⟩
  rw [key, same]

end DuckDbJournal

end DeepFeeder
