import DeepFeeder.Runtime.GapMonitor

set_option autoImplicit false

namespace DeepFeeder.GapMonitor

theorem processTick_late {m : GapMonitor} {t : Tick} {seq last : Int}
    (scanned : tradeSeq t = some seq) (current : m.currentSeq t.symbol = some last)
    (late : seq ≤ last) :
    (m.processTick t).reports = m.reports ∧ (m.processTick t).raised = m.raised ∧
      ∀ symbol, (m.processTick t).currentSeq symbol = m.currentSeq symbol := by
  have seen : (m.getLastSeq t.symbol).1 = some last := current
  have narrow : ¬ last + 1 < seq := by omega
  have unraised : raises (some last) seq = false := by simpa [raises] using late
  have result : m.processTick t = (m.getLastSeq t.symbol).2 := by
    unfold processTick
    simp only [scanned, seen, gapBefore_some, if_neg narrow, unraised]
    rfl
  rw [result]
  refine ⟨?_, ?_, currentSeq_getLastSeq m t.symbol⟩
  · unfold getLastSeq
    split
    · rfl
    · rfl
  · unfold getLastSeq
    split
    · rfl
    · rfl

theorem gaps_exact (journal : DuckDbJournal) (polls : List (List Envelope)) (symbol : String) :
    let m := (start journal).processPolls polls
    let seqs := seqsOf symbol (polls.flatten.flatMap Envelope.rows)
    (∀ low, SeqScan.lowOf (persistedSeq journal symbol) seqs = some low →
      ∃ final, m.currentSeq symbol = some final ∧ low ≤ final ∧ (∀ seq ∈ seqs, seq ≤ final) ∧
        (final = low ∨ final ∈ m.raisedOf symbol) ∧
        SeqScan.Partition low final (m.gapsOf symbol) (m.raisedOf symbol)) ∧
    (SeqScan.lowOf (persistedSeq journal symbol) seqs = none →
      m.gapsOf symbol = [] ∧ m.raisedOf symbol = []) ∧
    (∀ seq ∈ m.raisedOf symbol, seq ∈ seqs) ∧
    ∀ (during : GapMonitor) (t : Tick) (seq last : Int), tradeSeq t = some seq →
      during.currentSeq t.symbol = some last → seq ≤ last →
        (during.processTick t).reports = during.reports ∧
        (during.processTick t).raised = during.raised ∧
        ∀ other, (during.processTick t).currentSeq other = during.currentSeq other := by
  intro m seqs
  have view : m.view symbol = SeqScan.scan (SeqScan.start (persistedSeq journal symbol)) seqs := by
    rw [← view_start]
    exact view_processPolls _ polls symbol
  refine ⟨?_, ?_, ?_, fun during t seq last => processTick_late⟩
  · intro low lowest
    obtain ⟨final, last, start, raised, partition⟩ := SeqScan.scan_seen lowest
    have greatest := SeqScan.scan_last_greatest last
    rw [← view] at last raised partition
    exact ⟨final, last, start, greatest, raised, partition⟩
  · intro nothing
    rw [SeqScan.scan_unseen nothing] at view
    exact ⟨congrArg SeqScan.Scan.gaps view, congrArg SeqScan.Scan.raised view⟩
  · intro seq raised
    have member : seq ∈ (m.view symbol).raised := raised
    rw [view] at member
    simpa [SeqScan.start] using SeqScan.mem_raised_scan member

end DeepFeeder.GapMonitor
