import DeepFeeder.Storage.Canonical

set_option autoImplicit false

namespace DeepFeeder

structure MergeCall where
  rowNumber : RowNumber
  now : Int
  tick : Tick

def mergeEach (canonical : JournalCanonical) (calls : List MergeCall) : JournalCanonical :=
  calls.foldl
    (fun state call => mergeIntoCanonicalNoTxn call.rowNumber state [call.tick] call.now) canonical

/-- Merging the ticks as one envelope stores what merging them one envelope at a time does. -/
def BatchingFree (canonical : JournalCanonical) (ticks : List Tick) : Prop :=
  ∀ rowNumber now calls, calls.map MergeCall.tick = ticks →
    (mergeIntoCanonicalNoTxn rowNumber canonical ticks now).SameContent (mergeEach canonical calls)

/-- Either the row of the key stays whatever comes, or every tick that the ranking can choose wins
against that row and is stored again by the last tick that wins against it. -/
def Settles (held : Option Stored) (ticks : List Stored) : Prop :=
  (∃ c, held = some c ∧ ∀ s ∈ ticks, overwrites s c = false) ∨
    ∀ b ∈ ticks, (∀ s ∈ ticks, s.rank ≤ b.rank) →
      (∀ c ∈ held, overwrites b c = true) ∧
        (ticks.filter fun s => overwrites s b).getLast? = some b

variable {canonical : JournalCanonical} {ticks : List Tick} {key : CanonicalKey}

-- Among ticks the guard of the UPDATE never contradicts the ranking: their `seq` is not NULL.
theorem overwrites_of_rank_le {s b : Tick} (le : s.stored.rank ≤ b.stored.rank) :
    overwrites b.stored s.stored = true := by
  cases final : b.isFinal with
  | true => exact overwrites_of_isFinal (b := b.stored) final _
  | false =>
      have provisional : s.isFinal = false := by
        by_contra sFinal
        have sStored : s.stored.isFinal = true := by simpa [Tick.stored, candidate] using sFinal
        have bStored : b.isFinal = true := rank_isFinal le sStored
        rw [final] at bStored
        cases bStored
      have seqs : s.seq.getD (-1) ≤ b.seq.getD (-1) := by
        rcases Prod.Lex.toLex_le_toLex.mp le with less | ⟨_, rest⟩
        · change s.isFinal < b.isFinal at less
          rw [provisional, final] at less
          exact absurd less (lt_irrefl _)
        · rcases Prod.Lex.toLex_le_toLex.mp rest with less | ⟨same, _⟩
          · exact le_of_lt less
          · exact le_of_eq same
      simp [overwrites, Tick.stored, candidate, seqNotBelow, final, provisional, seqs]

theorem ofKey_dominated {b : Stored} (member : b ∈ ofKey ticks key)
    (top : ∀ s ∈ ofKey ticks key, s.rank ≤ b.rank) :
    ∀ s ∈ ofKey ticks key, overwrites b s = true := by
  intro s inside
  obtain ⟨t, _, _, rfl⟩ := mem_ofKey.mp member
  obtain ⟨other, _, _, rfl⟩ := mem_ofKey.mp inside
  exact overwrites_of_rank_le (top _ inside)

-- The engine may put any row of the highest rank first.
open Classical in
theorem exists_best {b : Stored} (member : b ∈ ofKey ticks key)
    (top : ∀ s ∈ ofKey ticks key, s.rank ≤ b.rank) :
    ∃ rowNumber, best rowNumber ticks key = some b := by
  rw [← ofKey_eq_candidates] at member top
  obtain ⟨c, inside, rfl⟩ := List.mem_map.mp member
  let partition := (ticks.map candidate).filter fun s => decide (s.key = key)
  have highest : ∀ s ∈ partition, s.rank ≤ c.rank :=
    fun s belongs => top s.toStored (List.mem_map_of_mem belongs)
  let rowNumber : RowNumber :=
    { first := fun rows => if rows = partition then some c else RowNumber.argmax.first rows
      first_mem := by
        intro rows b picked
        split at picked
        next same => exact same ▸ Option.some.inj picked ▸ inside
        next => exact RowNumber.argmax.first_mem picked
      first_top := by
        intro rows b picked
        split at picked
        next same => exact same ▸ Option.some.inj picked ▸ highest
        next => exact RowNumber.argmax.first_top picked
      first_ne_none := by
        intro rows some
        split
        next => simp
        next => exact RowNumber.argmax.first_ne_none some }
  have chosen : rowNumber.first partition = some c := if_pos rfl
  exact ⟨rowNumber, by unfold best; rw [chosen]; rfl⟩

theorem best_singleton (rowNumber : RowNumber) (t : Tick) (key : CanonicalKey) :
    best rowNumber [t] key = if t.canonicalKey = key then some t.stored else none := by
  by_cases same : t.canonicalKey = key
  · have only : ofKey [t] key = [t.stored] := by simp [ofKey, same]
    rw [if_pos same]
    cases chosen : best rowNumber [t] key with
    | none =>
        rw [best_eq_none_iff, only] at chosen
        cases chosen
    | some b =>
        have member := best_mem chosen
        rw [only, List.mem_singleton] at member
        rw [member]
  · rw [if_neg same, best_eq_none_iff]
    simp [ofKey, same]

theorem content_mergeEach (canonical : JournalCanonical) (calls : List MergeCall)
    (key : CanonicalKey) :
    (mergeEach canonical calls).content key =
      Register.puts overwrites (canonical.content key) (ofKey (calls.map MergeCall.tick) key) := by
  induction calls generalizing canonical with
  | nil => rfl
  | cons call rest ih =>
      have step := ih (mergeIntoCanonicalNoTxn call.rowNumber canonical [call.tick] call.now)
      rw [content_merge, best_singleton] at step
      unfold mergeEach at step ⊢
      rw [List.foldl_cons, step]
      by_cases same : call.tick.canonicalKey = key
      · simp [ofKey, same, Register.puts_cons]
      · simp [ofKey, same]

theorem batchingFree_iff_puts (canonical : JournalCanonical) (ticks : List Tick) :
    BatchingFree canonical ticks ↔
      ∀ key, ∀ b ∈ ofKey ticks key, (∀ s ∈ ofKey ticks key, s.rank ≤ b.rank) →
        Register.put overwrites (canonical.content key) b =
          Register.puts overwrites (canonical.content key) (ofKey ticks key) := by
  constructor
  · intro free key b member top
    obtain ⟨rowNumber, chosen⟩ := exists_best member top
    have calls : (ticks.map fun t => MergeCall.mk rowNumber 0 t).map MergeCall.tick = ticks := by
      simp [List.map_map, Function.comp_def]
    have same := free rowNumber 0 _ calls key
    rw [content_merge, chosen, content_mergeEach, calls] at same
    exact same
  · rintro stable rowNumber now calls rfl key
    rw [content_merge, content_mergeEach]
    cases chosen : best rowNumber (calls.map MergeCall.tick) key with
    | none =>
        rw [best_eq_none_iff.mp chosen]
        rfl
    | some b => exact stable key b (best_mem chosen) (best_top chosen)

theorem settles_iff_puts (held : Option Stored) (ticks : List Tick) (key : CanonicalKey) :
    Settles held (ofKey ticks key) ↔
      ∀ b ∈ ofKey ticks key, (∀ s ∈ ofKey ticks key, s.rank ≤ b.rank) →
        Register.put overwrites held b = Register.puts overwrites held (ofKey ticks key) := by
  constructor
  · rintro (⟨c, rfl, blocked⟩ | settled) b member top
    · rw [Register.put_of_blocked (blocked b member), Register.puts_blocked blocked]
    · obtain ⟨wins, last⟩ := settled b member top
      rw [Register.put_of_beats wins, eq_comm,
        Register.puts_eq_top_iff member (ofKey_dominated member top) wins]
      exact last
  · intro same
    by_cases stays : ∃ c, held = some c ∧ ∀ s ∈ ofKey ticks key, overwrites s c = false
    · exact .inl stays
    · refine .inr ?_
      intro b member top
      have wins : ∀ c ∈ held, overwrites b c = true := by
        rintro c rfl
        cases blocked : overwrites b c with
        | true => rfl
        | false =>
            -- Then the row stays, although a tick won against it: it is one of the ticks itself.
            have won : ∃ s ∈ ofKey ticks key, overwrites s c = true := by
              by_contra none
              refine stays ⟨c, rfl, fun s inside => ?_⟩
              simpa using fun wins => none ⟨s, inside, wins⟩
            have ends := same b member top
            rw [Register.put_of_blocked blocked] at ends
            have inside := Register.mem_of_puts_won won ends.symm
            rw [ofKey_dominated member top c inside] at blocked
            cases blocked
      refine ⟨wins, ?_⟩
      rw [← Register.puts_eq_top_iff member (ofKey_dominated member top) wins,
        ← same b member top, Register.put_of_beats wins]

theorem batchingFree_iff (canonical : JournalCanonical) (ticks : List Tick) :
    BatchingFree canonical ticks ↔
      ∀ key, Settles (canonical.content key) (ofKey ticks key) := by
  rw [batchingFree_iff_puts]
  exact forall_congr' fun key => (settles_iff_puts _ ticks key).symm

def quoteAt (tsNs : Int) : Tick :=
  { provider := "tradingview", stream := "quotes", symbol := "AAPL", tsNs, seq := some 5
    payload := [], isFinal := false }

theorem older_quote_batched :
    ¬ BatchingFree { rows := [], unique := by simp } [quoteAt 200, quoteAt 100] := by
  rw [batchingFree_iff_puts]
  intro stable
  have both : ofKey [quoteAt 200, quoteAt 100] (quoteAt 200).canonicalKey =
      [(quoteAt 200).stored, (quoteAt 100).stored] := by
    have same : (quoteAt 100).canonicalKey = (quoteAt 200).canonicalKey := rfl
    simp [ofKey, same]
  have ends := stable (quoteAt 200).canonicalKey (quoteAt 200).stored (by simp [both]) (by
    rw [both]
    simp only [List.mem_cons, List.not_mem_nil, or_false]
    rintro s (rfl | rfl)
    · exact le_rfl
    · decide)
  rw [both] at ends
  have times := congrArg (Option.map Stored.tsNs) ends
  revert times
  decide

end DeepFeeder
