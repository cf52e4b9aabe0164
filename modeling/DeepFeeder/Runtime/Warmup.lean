import DeepFeeder.Storage.Journal

set_option autoImplicit false

namespace DeepFeeder.Warmup

open JournalCanonical

structure Hydrated where
  written : List Envelope
  total : Nat
  lastTsWritten : Int

def writePage (done : Hydrated) (page : List Tick) : Hydrated :=
  match page.getLast? with
  | none => done
  | some last =>
      { written := done.written ++ [⟨0, last.tsNs, none, none, page⟩]
        total := done.total + page.length
        lastTsWritten := last.tsNs }

def hydrateDhFromJournal (journal : JournalCanonical) (sinceTsNs : Int)
    (providerFilter streamFilter : Option (List String)) (pageRows fuel : Nat) : Option Hydrated :=
  (journal.streamTicksSince { providerFilter, streamFilter } pageRows fuel sinceTsNs).map fun pages =>
    pages.foldl writePage ⟨[], 0, 0⟩

theorem writePage_rows (done : Hydrated) (page : List Tick) :
    (writePage done page).written.flatMap Envelope.rows = done.written.flatMap Envelope.rows ++ page ∧
      (writePage done page).total = done.total + page.length := by
  unfold writePage
  cases last : page.getLast? with
  | none =>
      rw [List.getLast?_eq_none_iff] at last
      simp [last]
  | some tick => simp

theorem writePages_rows (pages : List (List Tick)) (done : Hydrated) :
    (pages.foldl writePage done).written.flatMap Envelope.rows =
        done.written.flatMap Envelope.rows ++ pages.flatten ∧
      (pages.foldl writePage done).total = done.total + pages.flatten.length := by
  induction pages generalizing done with
  | nil => simp
  | cons page rest ih =>
      obtain ⟨rows, total⟩ := writePage_rows done page
      obtain ⟨laterRows, laterTotal⟩ := ih (writePage done page)
      rw [List.foldl_cons, laterRows, laterTotal, rows, total]
      simp [Nat.add_assoc]

def StreamsExactly (journal : JournalCanonical) (q : Selection) (pageRows : Nat) (sinceTsNs : Int) :
    Prop :=
  ∃ fuel pages, journal.streamRows q pageRows fuel sinceTsNs "" = some pages ∧
    pages.flatten = journal.requested q sinceTsNs

def HydratesOnce (journal : JournalCanonical) (providerFilter streamFilter : Option (List String))
    (pageRows : Nat) (sinceTsNs : Int) : Prop :=
  ∃ fuel done,
    hydrateDhFromJournal journal sinceTsNs providerFilter streamFilter pageRows fuel = some done ∧
      done.written.flatMap Envelope.rows =
        (journal.requested { providerFilter, streamFilter } sinceTsNs).map toTick ∧
      done.total = (journal.requested { providerFilter, streamFilter } sinceTsNs).length

theorem hydratesOnce_of_streamsExactly {journal : JournalCanonical}
    {providerFilter streamFilter : Option (List String)} {pageRows : Nat} {sinceTsNs : Int}
    (exactly : StreamsExactly journal { providerFilter, streamFilter } pageRows sinceTsNs) :
    HydratesOnce journal providerFilter streamFilter pageRows sinceTsNs := by
  obtain ⟨fuel, pages, streamed, flat⟩ := exactly
  obtain ⟨rows, total⟩ := writePages_rows (pages.map (List.map toTick)) ⟨[], 0, 0⟩
  have ticks : (pages.map (List.map toTick)).flatten =
      (journal.requested { providerFilter, streamFilter } sinceTsNs).map toTick := by
    rw [← flat, List.map_flatten]
  rw [ticks] at rows total
  refine ⟨fuel, _, ?_, rows, ?_⟩
  · simp only [hydrateDhFromJournal, streamTicksSince, streamed, Option.map_some]
  · rw [total, List.length_map, Nat.zero_add]

theorem stream_exact_iff (journal : JournalCanonical) (q : Selection) {pageRows : Nat}
    (positive : 0 < pageRows) (sinceTsNs : Int) :
    (StreamsExactly journal q pageRows sinceTsNs ∧
        (q.byUpdated = false →
          HydratesOnce journal q.providerFilter q.streamFilter pageRows sinceTsNs)) ↔
      (∀ r ∈ journal.requested q sinceTsNs, q.keyTime r = sinceTsNs → r.natKey ≠ "") ∧
        journal.CursorsAdvance q pageRows sinceTsNs := by
  rw [← journal.streamRows_exact_iff q positive sinceTsNs]
  constructor
  · exact fun both => both.1
  · intro exactly
    refine ⟨exactly, ?_⟩
    intro byTime
    apply hydratesOnce_of_streamsExactly
    obtain ⟨providerFilter, streamFilter, byUpdated⟩ := q
    cases byTime
    exact exactly

def trade (tsNs : Int) : JournalCanonical where
  rows :=
    [{ provider := "binance", stream := "trades", symbol := "BTCUSDT"
       natKey := "('binance', 'trades', 'BTCUSDT', 1)", tsNs, seq := some 1, isFinal := true
       payload := some [], updatedAtNs := tsNs }]
  unique := List.nodup_singleton _

-- The final flag of the last row reads as time 1, which happens to be the time of this trade.
theorem stream_exact_at_one :
    StreamsExactly (trade 1) {} 20000 0 ∧ HydratesOnce (trade 1) none none 20000 0 := by
  have requested : (trade 1).requested {} 0 = (trade 1).rows := rfl
  have both := (stream_exact_iff (trade 1) {} (by decide : 0 < 20000) 0).mpr (by
    unfold CursorsAdvance
    rw [requested]
    refine ⟨?_, ?_⟩
    · simp [trade]
    · intro read last rest split _
      obtain ⟨rfl, rfl, rfl⟩ : read = [] ∧ _ = last ∧ [] = rest := by
        simpa [trade, eq_comm, List.append_eq_singleton_iff] using split
      simp [Selection.keyTime, lastKeyTime])
  exact ⟨both.1, both.2 rfl⟩

theorem trade_streamRows (fuel : Nat) {tsNs lastT : Int} (lastNat : String) (past : lastT < tsNs)
    (late : 1 < tsNs) : (trade tsNs).streamRows {} 20000 fuel lastT lastNat = none := by
  induction fuel generalizing lastT lastNat with
  | zero => rfl
  | succ fuel ih =>
      have page : (trade tsNs).selectPage {} 20000 lastT lastNat = (trade tsNs).rows := by
        simp [selectPage, trade, Selection.keyTime, Selection.whereExtra, inFilter, past]
      unfold streamRows
      rw [page]
      simp only [trade, List.getLast?_singleton, Option.map_eq_none_iff]
      exact ih _ late

-- The second cursor is `(1, nat_key)`, so every later query gives the same page again.
theorem stream_never_ends :
    (∀ fuel, (trade 1700000000000000000).streamRows {} 20000 fuel 0 "" = none) ∧
      ¬ StreamsExactly (trade 1700000000000000000) {} 20000 0 ∧
      ¬ HydratesOnce (trade 1700000000000000000) none none 20000 0 := by
  have never (fuel : Nat) : (trade 1700000000000000000).streamRows {} 20000 fuel 0 "" = none :=
    trade_streamRows fuel "" (by decide) (by decide)
  refine ⟨never, ?_, ?_⟩
  · rintro ⟨fuel, pages, streamed, _⟩
    rw [never fuel] at streamed
    cases streamed
  · rintro ⟨fuel, done, hydrated, _⟩
    simp [hydrateDhFromJournal, streamTicksSince, never fuel] at hydrated

end DeepFeeder.Warmup
