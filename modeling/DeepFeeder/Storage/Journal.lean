import Mathlib.Data.Prod.Lex
import Mathlib.Data.String.Basic
import DeepFeeder.Core.Contracts
import DeepFeeder.Shared.Keyset

set_option autoImplicit false

namespace DeepFeeder

structure CanonicalRow where
  provider : String
  stream : String
  symbol : String
  natKey : String
  tsNs : Int
  seq : Option Int
  isFinal : Bool
  payload : Option Payload
  updatedAtNs : Int

def CanonicalRow.primaryKey (r : CanonicalRow) : String × String × String × String :=
  (r.provider, r.stream, r.symbol, r.natKey)

structure JournalCanonical where
  rows : List CanonicalRow
  unique : (rows.map CanonicalRow.primaryKey).Nodup

namespace JournalCanonical

structure Selection where
  providerFilter : Option (List String) := none
  streamFilter : Option (List String) := none
  byUpdated : Bool := false

-- `if provider_filter`: the empty set is falsy and filters nothing.
def inFilter (filter : Option (List String)) (value : String) : Bool :=
  match filter with
  | none | some [] => true
  | some values => values.contains value

def Selection.whereExtra (q : Selection) (r : CanonicalRow) : Bool :=
  inFilter q.providerFilter r.provider && inFilter q.streamFilter r.stream

def Selection.keyTime (q : Selection) (r : CanonicalRow) : Int :=
  if q.byUpdated then r.updatedAtNs else r.tsNs

def Selection.orderBy (q : Selection) (r : CanonicalRow) : Int ×ₗ String :=
  toLex (q.keyTime r, r.natKey)

def toTick (r : CanonicalRow) : Tick :=
  { provider := r.provider, stream := r.stream, symbol := r.symbol, tsNs := r.tsNs
    seq := match r.seq with
      | some n => if n < 0 then none else some n
      | none => none
    payload := r.payload.getD []
    isFinal := r.isFinal }

def selectPage (journal : JournalCanonical) (q : Selection) (pageRows : Nat) (lastT : Int)
    (lastNat : String) : List CanonicalRow :=
  ((journal.rows.filter fun r =>
    decide (lastT < q.keyTime r ∨ q.keyTime r = lastT ∧ lastNat < r.natKey) && q.whereExtra r)
      |>.insertionSort (Keyset.before q.orderBy)).take pageRows

-- `rs[-1][-2]` of the columns (provider, stream, symbol, nat_key, ts_ns, seq, is_final, payload).
def lastKeyTime (r : CanonicalRow) : Int := if r.isFinal then 1 else 0

def streamRows (journal : JournalCanonical) (q : Selection) (pageRows : Nat) :
    Nat → Int → String → Option (List (List CanonicalRow))
  | 0, _, _ => none
  | fuel + 1, lastT, lastNat =>
      let rs := journal.selectPage q pageRows lastT lastNat
      match rs.getLast? with
      | none => some []
      | some last =>
          (journal.streamRows q pageRows fuel (lastKeyTime last) last.natKey).map fun later =>
            rs :: later

def streamTicksSince (journal : JournalCanonical) (q : Selection) (pageRows fuel : Nat)
    (sinceTsNs : Int) : Option (List (List Tick)) :=
  (journal.streamRows q pageRows fuel sinceTsNs "").map fun pages => pages.map (List.map toTick)

def requested (journal : JournalCanonical) (q : Selection) (sinceTsNs : Int) : List CanonicalRow :=
  (journal.rows.filter fun r => decide (sinceTsNs ≤ q.keyTime r) && q.whereExtra r)
    |>.insertionSort (Keyset.before q.orderBy)

def matching (journal : JournalCanonical) (q : Selection) : List CanonicalRow :=
  (journal.rows.filter q.whereExtra).insertionSort (Keyset.before q.orderBy)

variable {journal : JournalCanonical} {q : Selection}

theorem matching_ordered (journal : JournalCanonical) (q : Selection) :
    (journal.matching q).Pairwise (Keyset.before q.orderBy) :=
  List.pairwise_insertionSort _ _

theorem matching_nodup (journal : JournalCanonical) (q : Selection) : (journal.matching q).Nodup := by
  have distinct : journal.rows.Nodup := journal.unique.of_map _
  exact (List.perm_insertionSort _ _).nodup_iff.mpr (distinct.filter _)

theorem after_iff (q : Selection) (r : CanonicalRow) (lastT : Int) (lastNat : String) :
    (lastT < q.keyTime r ∨ q.keyTime r = lastT ∧ lastNat < r.natKey) ↔
      toLex (lastT, lastNat) < q.orderBy r := by
  unfold Selection.orderBy
  rw [Prod.Lex.toLex_lt_toLex]
  simp only [eq_comm]

theorem selectPage_eq_fetch (journal : JournalCanonical) (q : Selection) (pageRows : Nat)
    (lastT : Int) (lastNat : String) :
    journal.selectPage q pageRows lastT lastNat =
      Keyset.fetch q.orderBy (journal.matching q) pageRows (toLex (lastT, lastNat)) := by
  unfold selectPage Keyset.fetch matching
  rw [← Keyset.insertionSort_filter, List.filter_filter]
  simp only [after_iff]

theorem streamRows_eq_pages (journal : JournalCanonical) (q : Selection) (pageRows fuel : Nat)
    (lastT : Int) (lastNat : String) :
    journal.streamRows q pageRows fuel lastT lastNat =
      Keyset.pages q.orderBy (journal.matching q) (fun r => toLex (lastKeyTime r, r.natKey)) pageRows
        fuel (toLex (lastT, lastNat)) := by
  induction fuel generalizing lastT lastNat with
  | zero => rfl
  | succ fuel ih =>
      unfold streamRows Keyset.pages
      rw [selectPage_eq_fetch]
      simp only [ih]
      cases (Keyset.fetch q.orderBy (journal.matching q) pageRows
          (toLex (lastT, lastNat))).getLast? with
      | none => rfl
      | some last => rfl

theorem requested_eq_filter (journal : JournalCanonical) (q : Selection) (sinceTsNs : Int) :
    journal.requested q sinceTsNs =
      (journal.matching q).filter fun r => decide (sinceTsNs ≤ q.keyTime r) := by
  unfold requested matching
  rw [← Keyset.insertionSort_filter, List.filter_filter]

theorem requested_suffix (journal : JournalCanonical) (q : Selection) (sinceTsNs : Int) :
    journal.requested q sinceTsNs <:+ journal.matching q := by
  rw [requested_eq_filter]
  apply Keyset.filter_suffix q.orderBy (journal.matching_ordered q)
  intro a b le above
  rw [decide_eq_true_eq] at above ⊢
  rcases Prod.Lex.toLex_le_toLex.mp le with less | ⟨same, _⟩
  · exact le_trans above (le_of_lt less)
  · exact le_of_le_of_eq above same

theorem empty_lt_iff (s : String) : "" < s ↔ s ≠ "" := by
  rw [String.lt_iff_toList_lt]
  constructor
  · rintro less rfl
    exact absurd less (lt_irrefl _)
  · intro some
    cases letters : s.toList with
    | nil => exact absurd (String.toList_eq_nil_iff.mp letters) some
    | cons first rest => exact List.nil_lt_cons first rest

-- The first cursor is `(since_ts_ns, "")`, so a row with the empty key at that very time is left out.
theorem first_cursor_iff (journal : JournalCanonical) (q : Selection) (sinceTsNs : Int) :
    (journal.requested q sinceTsNs =
        (journal.matching q).filter fun r => decide (toLex (sinceTsNs, "") < q.orderBy r)) ↔
      ∀ r ∈ journal.requested q sinceTsNs, q.keyTime r = sinceTsNs → r.natKey ≠ "" := by
  constructor
  · intro same r member atStart
    rw [same, List.mem_filter, decide_eq_true_eq, ← after_iff] at member
    rcases member.2 with later | ⟨_, above⟩
    · exact absurd later (by rw [atStart]; exact lt_irrefl _)
    · exact (empty_lt_iff r.natKey).mp above
  · intro named
    rw [requested_eq_filter]
    apply List.filter_congr
    intro r member
    rw [decide_eq_decide, ← after_iff]
    constructor
    · intro le
      rcases lt_or_eq_of_le le with less | same
      · exact .inl less
      · refine .inr ⟨same.symm, (empty_lt_iff r.natKey).mpr (named r ?_ same.symm)⟩
        rw [requested_eq_filter, List.mem_filter]
        exact ⟨member, by simpa using le⟩
    · rintro (less | ⟨same, _⟩)
      · exact le_of_lt less
      · exact le_of_eq same.symm

-- Whatever the page size, the cursor after each page lies between its last row and the next row.
def CursorsAdvance (journal : JournalCanonical) (q : Selection) (pageRows : Nat) (sinceTsNs : Int) :
    Prop :=
  ∀ read last rest, journal.requested q sinceTsNs = read ++ last :: rest →
    (read.length + 1) % pageRows = 0 ∨ rest = [] →
      q.keyTime last ≤ lastKeyTime last ∧
        ∀ r ∈ rest, lastKeyTime last < q.keyTime r ∨
          q.keyTime r = lastKeyTime last ∧ last.natKey < r.natKey

theorem cursorsAdvance_iff (journal : JournalCanonical) (q : Selection) (pageRows : Nat)
    (sinceTsNs : Int) :
    Keyset.EndsSeparate q.orderBy (fun r => toLex (lastKeyTime r, r.natKey)) pageRows
        (journal.requested q sinceTsNs) ↔
      journal.CursorsAdvance q pageRows sinceTsNs := by
  have passed (r : CanonicalRow) :
      q.orderBy r ≤ toLex (lastKeyTime r, r.natKey) ↔ q.keyTime r ≤ lastKeyTime r := by
    unfold Selection.orderBy
    rw [Prod.Lex.toLex_le_toLex]
    simp only [le_refl, and_true]
    exact le_iff_lt_or_eq.symm
  unfold Keyset.EndsSeparate CursorsAdvance
  simp only [passed, after_iff]

theorem streamRows_exact_iff (journal : JournalCanonical) (q : Selection) {pageRows : Nat}
    (positive : 0 < pageRows) (sinceTsNs : Int) :
    (∃ fuel pages, journal.streamRows q pageRows fuel sinceTsNs "" = some pages ∧
        pages.flatten = journal.requested q sinceTsNs) ↔
      (∀ r ∈ journal.requested q sinceTsNs, q.keyTime r = sinceTsNs → r.natKey ≠ "") ∧
        journal.CursorsAdvance q pageRows sinceTsNs := by
  simp only [streamRows_eq_pages]
  rw [Keyset.pages_exact_iff positive (journal.matching_ordered q) (journal.matching_nodup q)
    (journal.requested_suffix q sinceTsNs), first_cursor_iff, cursorsAdvance_iff]

end JournalCanonical

end DeepFeeder
