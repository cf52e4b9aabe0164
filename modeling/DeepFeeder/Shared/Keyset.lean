import Mathlib.Data.List.Sort
import Mathlib.Data.List.Infix
import Mathlib.Order.Basic

set_option autoImplicit false

-- A reader takes the rows of an ordered table page by page: each query asks for the first rows above a
-- cursor, and the next cursor is made from the last row of the page.
namespace Keyset

universe u v

variable {Row : Type u} {Key : Type v} [LinearOrder Key] (key : Row → Key)

def before (a b : Row) : Prop := key a ≤ key b

instance : DecidableRel (before key) := fun a b => inferInstanceAs (Decidable (key a ≤ key b))

instance : Std.Total (before key) := ⟨fun a b => le_total (key a) (key b)⟩

instance : IsTrans Row (before key) := ⟨fun _ _ _ => le_trans⟩

theorem orderedInsert_filter_of_pos {p : Row → Bool} {row : Row} (rows : List Row)
    (ordered : rows.Pairwise (before key)) (selected : p row = true) :
    ((rows.orderedInsert (before key) row).filter p) =
      (rows.filter p).orderedInsert (before key) row := by
  induction rows with
  | nil => simp [selected]
  | cons head tail ih =>
      obtain ⟨first, rest⟩ := List.pairwise_cons.mp ordered
      by_cases le : before key row head
      · rw [List.orderedInsert_cons_of_le _ _ le, List.filter_cons_of_pos selected]
        -- Every row left by the filter is at least the head, so the insertion stops at once.
        cases kept : (head :: tail).filter p with
        | nil => rfl
        | cons next others =>
            have member : next ∈ head :: tail :=
              (List.mem_filter.mp (kept ▸ List.mem_cons_self : next ∈ (head :: tail).filter p)).1
            have above : before key row next := by
              rcases List.mem_cons.mp member with same | later
              · exact same ▸ le
              · exact le_trans le (first next later)
            rw [List.orderedInsert_cons_of_le _ _ above]
      · rw [List.orderedInsert_of_not_le _ _ le]
        by_cases chosen : p head = true
        · rw [List.filter_cons_of_pos chosen, List.filter_cons_of_pos chosen,
            List.orderedInsert_of_not_le _ _ le, ih rest]
        · rw [List.filter_cons_of_neg chosen, List.filter_cons_of_neg chosen, ih rest]

theorem orderedInsert_filter_of_neg {p : Row → Bool} {row : Row} (rows : List Row)
    (dropped : ¬ p row = true) :
    ((rows.orderedInsert (before key) row).filter p) = rows.filter p := by
  induction rows with
  | nil => simp [dropped]
  | cons head tail ih =>
      by_cases le : before key row head
      · rw [List.orderedInsert_cons_of_le _ _ le, List.filter_cons_of_neg dropped]
      · rw [List.orderedInsert_of_not_le _ _ le, List.filter_cons, List.filter_cons, ih]

-- Sorting is stable, so it does not matter whether the rows are selected before or after it.
theorem insertionSort_filter (p : Row → Bool) (rows : List Row) :
    (rows.filter p).insertionSort (before key) =
      (rows.insertionSort (before key)).filter p := by
  induction rows with
  | nil => rfl
  | cons head tail ih =>
      rw [List.insertionSort_cons]
      by_cases chosen : p head = true
      · rw [List.filter_cons_of_pos chosen, List.insertionSort_cons, ih,
          orderedInsert_filter_of_pos key _ (List.pairwise_insertionSort (before key) tail) chosen]
      · rw [List.filter_cons_of_neg chosen, ih, orderedInsert_filter_of_neg key _ chosen]

theorem filter_suffix {p : Row → Bool} {rows : List Row}
    (ordered : rows.Pairwise (before key))
    (upward : ∀ a b, before key a b → p a = true → p b = true) : rows.filter p <:+ rows := by
  induction rows with
  | nil => exact List.suffix_rfl
  | cons head tail ih =>
      obtain ⟨first, rest⟩ := List.pairwise_cons.mp ordered
      by_cases chosen : p head = true
      · have all : (head :: tail).filter p = head :: tail := by
          rw [List.filter_eq_self]
          intro row member
          rcases List.mem_cons.mp member with same | later
          · exact same ▸ chosen
          · exact upward head row (first row later) chosen
        rw [all]
      · rw [List.filter_cons_of_neg chosen]
        exact (ih rest).trans (List.suffix_cons head tail)

theorem suffix_eq_of_head {rows left right : List Row} {head : Row} (distinct : rows.Nodup)
    (isLeft : left <:+ rows) (isRight : right <:+ rows) (inLeft : left.head? = some head)
    (inRight : right.head? = some head) : left = right := by
  have shorter {a b : List Row} (aSuffix : a <:+ b) (bSuffix : b <:+ rows)
      (inA : a.head? = some head) (inB : b.head? = some head) : a = b := by
    obtain ⟨front, rfl⟩ := aSuffix
    cases front with
    | nil => rfl
    | cons first others =>
        have same : first = head := by simpa using inB
        have unique := distinct.sublist bSuffix.sublist
        rw [List.cons_append, List.nodup_cons] at unique
        exact absurd (List.mem_append_right _ (List.mem_of_mem_head? (same ▸ inA))) unique.1
  rcases List.suffix_or_suffix_of_suffix isLeft isRight with sub | sub
  · exact shorter sub isRight inLeft inRight
  · exact (shorter sub isLeft inRight inLeft).symm

variable (rows : List Row) (next : Row → Key) (pageRows : Nat)

def fetch (cursor : Key) : List Row := (rows.filter fun r => cursor < key r).take pageRows

def pages : Nat → Key → Option (List (List Row))
  | 0, _ => none
  | fuel + 1, cursor =>
      match (fetch key rows pageRows cursor).getLast? with
      | none => some []
      | some last =>
          (pages fuel (next last)).map fun later => fetch key rows pageRows cursor :: later

-- The cursor made from the last row of a page keeps the rows up to it from the rows after it.
def EndsSeparate (left : List Row) : Prop :=
  ∀ read last rest, left = read ++ last :: rest →
    (read.length + 1) % pageRows = 0 ∨ rest = [] →
      key last ≤ next last ∧ ∀ row ∈ rest, next last < key row

variable {key rows next pageRows}

theorem filter_eq_rest_iff {read rest : List Row} {last : Row} {cursor : Key}
    (ordered : (read ++ last :: rest).Pairwise (before key)) (distinct : (read ++ last :: rest).Nodup) :
    ((read ++ last :: rest).filter fun r => cursor < key r) = rest ↔
      key last ≤ cursor ∧ ∀ row ∈ rest, cursor < key row := by
  obtain ⟨_, _, across⟩ := List.pairwise_append.mp ordered
  constructor
  · intro same
    have kept {row : Row} : row ∈ rest ↔ row ∈ read ++ last :: rest ∧ cursor < key row := by
      conv_lhs => rw [← same]
      rw [List.mem_filter, decide_eq_true_eq]
    constructor
    · by_contra above
      have again : last ∈ rest := kept.mpr ⟨by simp, not_le.mp above⟩
      have unique := (List.nodup_append.mp distinct).2.1
      exact (List.nodup_cons.mp unique).1 again
    · intro row member
      exact (kept.mp member).2
  · rintro ⟨passed, ahead⟩
    have none : (read.filter fun r => cursor < key r) = [] := by
      rw [List.filter_eq_nil_iff]
      intro row member
      have le : key row ≤ key last := across row member last (by simp)
      simpa using le_trans le passed
    have all : (rest.filter fun r => cursor < key r) = rest := by
      rw [List.filter_eq_self]
      intro row member
      simpa using ahead row member
    rw [List.filter_append, none, List.filter_cons_of_neg (by simpa using passed), all]
    rfl

theorem length_after_page {page read : List Row} {last : Row} (full : page.length + 1 = pageRows) :
    ((page ++ last :: read).length + 1) % pageRows = (read.length + 1) % pageRows := by
  have shifted : (page ++ last :: read).length + 1 = pageRows + (read.length + 1) := by
    simp only [List.length_append, List.length_cons]
    omega
  rw [shifted, Nat.add_mod_left]

theorem endsSeparate_page_iff {page rest : List Row} {last : Row}
    (full : page.length + 1 = pageRows ∨ page.length + 1 < pageRows ∧ rest = []) :
    EndsSeparate key next pageRows (page ++ last :: rest) ↔
      (key last ≤ next last ∧ ∀ row ∈ rest, next last < key row) ∧
        EndsSeparate key next pageRows rest := by
  constructor
  · intro separate
    refine ⟨separate page last rest rfl ?_, ?_⟩
    · rcases full with full | ⟨_, none⟩
      · exact .inl (full ▸ Nat.mod_self _)
      · exact .inr none
    · intro read row later split ends
      rcases full with full | ⟨_, none⟩
      · apply separate (page ++ last :: read) row later (by simp [split])
        rcases ends with boundary | final
        · exact .inl ((length_after_page full).trans boundary)
        · exact .inr final
      · simp [none] at split
  · rintro ⟨here, separate⟩ read row later split ends
    rcases List.append_eq_append_iff.mp split with ⟨front, rfl, inner⟩ | ⟨front, rfl, inner⟩
    · cases front with
      | nil =>
          rw [List.nil_append, List.cons.injEq] at inner
          obtain ⟨rfl, rfl⟩ := inner
          exact here
      | cons first front =>
          rw [List.cons_append, List.cons.injEq] at inner
          obtain ⟨rfl, inner⟩ := inner
          rcases full with full | ⟨_, none⟩
          · apply separate front row later inner
            rcases ends with boundary | final
            · exact .inl ((length_after_page full).symm.trans boundary)
            · exact .inr final
          · simp [none] at inner
    · cases front with
      | nil =>
          rw [List.nil_append, List.cons.injEq] at inner
          obtain ⟨rfl, rfl⟩ := inner
          exact here
      | cons first front =>
          rw [List.cons_append, List.cons.injEq] at inner
          obtain ⟨rfl, rfl⟩ := inner
          -- The row is inside the page, so it ends neither the page nor the rows.
          rcases ends with boundary | final
          · have inside : read.length + 1 < pageRows := by
              simp only [List.length_append, List.length_cons] at full
              omega
            rw [Nat.mod_eq_of_lt inside] at boundary
            omega
          · simp at final

theorem exists_page {left : List Row} (positive : 0 < pageRows) (some : left ≠ []) :
    ∃ page last rest, left = page ++ last :: rest ∧
      (page.length + 1 = pageRows ∨ page.length + 1 < pageRows ∧ rest = []) := by
  have taken : left.take pageRows ≠ [] := by
    rw [Ne, List.take_eq_nil_iff, not_or]
    exact ⟨by omega, some⟩
  refine ⟨(left.take pageRows).dropLast, (left.take pageRows).getLast taken, left.drop pageRows,
    ?_, ?_⟩
  · rw [← List.singleton_append, ← List.append_assoc, List.dropLast_append_getLast,
      List.take_append_drop]
  · have length : (left.take pageRows).dropLast.length + 1 = min pageRows left.length := by
      rw [List.length_dropLast, ← List.length_take]
      exact Nat.sub_add_cancel (List.length_pos_of_ne_nil taken)
    by_cases room : pageRows ≤ left.length
    · exact .inl (by omega)
    · exact .inr ⟨by omega, List.drop_eq_nil_of_le (by omega)⟩

theorem pages_nil {cursor : Key} (fuel : Nat)
    (none : (rows.filter fun r => cursor < key r) = []) :
    pages key rows next pageRows (fuel + 1) cursor = some [] := by
  simp [pages, fetch, none]

theorem pages_cons {cursor : Key} {page rest : List Row} {last : Row} (fuel : Nat)
    (above : (rows.filter fun r => cursor < key r) = page ++ last :: rest)
    (full : page.length + 1 = pageRows ∨ page.length + 1 < pageRows ∧ rest = []) :
    pages key rows next pageRows (fuel + 1) cursor =
      (pages key rows next pageRows fuel (next last)).map fun later => (page ++ [last]) :: later := by
  have taken : fetch key rows pageRows cursor = page ++ [last] := by
    unfold fetch
    rw [above]
    rcases full with full | ⟨short, rfl⟩
    · subst full
      rw [List.take_append]
      simp
    · apply List.take_of_length_le
      simp only [List.length_append, List.length_cons, List.length_nil]
      omega
  simp [pages, taken]

-- The rows read are those asked for exactly when the first query asks for them and every page hands
-- on the right cursor.
theorem pages_exact_iff {left : List Row} {cursor : Key} (positive : 0 < pageRows)
    (ordered : rows.Pairwise (before key)) (distinct : rows.Nodup) (tail : left <:+ rows) :
    (∃ fuel read, pages key rows next pageRows fuel cursor = some read ∧ read.flatten = left) ↔
      left = (rows.filter fun r => cursor < key r) ∧ EndsSeparate key next pageRows left := by
  induction size : left.length using Nat.strong_induction_on generalizing left cursor with
  | _ count ih =>
      have aboveTail : (rows.filter fun r => cursor < key r) <:+ rows := by
        apply filter_suffix key ordered
        intro a b le above
        simp only [decide_eq_true_eq] at above ⊢
        exact lt_of_lt_of_le above le
      -- What a page and its successor cursor do to the rows that are left.
      have step {page rest : List Row} {last : Row} (split : left = page ++ last :: rest)
          (full : page.length + 1 = pageRows ∨ page.length + 1 < pageRows ∧ rest = []) :
          (∃ fuel read, pages key rows next pageRows fuel (next last) = some read ∧
            read.flatten = rest) ↔ EndsSeparate key next pageRows left := by
        obtain ⟨front, whole⟩ := tail
        rw [split, ← List.append_assoc] at whole
        have restTail : rest <:+ rows := ⟨front ++ page ++ [last], by simp [← whole]⟩
        have shorter : rest.length < count := by
          rw [← size, split]
          simp only [List.length_append, List.length_cons]
          omega
        rw [ih rest.length shorter restTail rfl, split, endsSeparate_page_iff full,
          ← filter_eq_rest_iff (whole ▸ ordered) (whole ▸ distinct), whole, eq_comm]
      constructor
      · rintro ⟨fuel, read, result, flat⟩
        cases fuel with
        | zero => cases result
        | succ fuel =>
            by_cases none : (rows.filter fun r => cursor < key r) = []
            · rw [pages_nil fuel none] at result
              cases result
              subst left
              refine ⟨none.symm, ?_⟩
              intro page last rest split
              simp at split
            · obtain ⟨page, last, rest, above, full⟩ := exists_page positive none
              rw [pages_cons fuel above full, Option.map_eq_some_iff] at result
              obtain ⟨later, found, rfl⟩ := result
              rw [List.flatten_cons] at flat
              -- Both are ends of the table that begin with the first row of the page.
              have same : left = rows.filter fun r => cursor < key r := by
                obtain ⟨head, first⟩ : ∃ head, (page ++ [last]).head? = some head := by
                  cases page with
                  | nil => exact ⟨last, rfl⟩
                  | cons head others => exact ⟨head, rfl⟩
                refine suffix_eq_of_head distinct tail aboveTail (?_ : left.head? = some head) ?_
                · rw [← flat, List.head?_append, first]
                  rfl
                · rw [above, ← List.singleton_append, ← List.append_assoc, List.head?_append, first]
                  rfl
              have split := same.trans above
              refine ⟨same, (step split full).mp ⟨fuel, later, found, ?_⟩⟩
              have both : (page ++ [last]) ++ later.flatten = (page ++ [last]) ++ rest := by
                rw [flat, split, List.append_assoc, List.singleton_append]
              exact List.append_cancel_left both
      · rintro ⟨same, separate⟩
        by_cases none : left = []
        · exact ⟨1, [], pages_nil 0 (same ▸ none), none ▸ rfl⟩
        · obtain ⟨page, last, rest, split, full⟩ := exists_page positive none
          obtain ⟨fuel, read, result, flat⟩ := (step split full).mpr separate
          refine ⟨fuel + 1, (page ++ [last]) :: read, ?_, ?_⟩
          · rw [pages_cons fuel (same ▸ split) full, result]
            rfl
          · rw [List.flatten_cons, flat, split]
            simp

end Keyset
