import Mathlib.Data.List.Basic

set_option autoImplicit false

namespace QuotedText

universe u

variable {Letter : Type u}

inductive Piece (Letter : Type u) where
  | code (text : List Letter)
  | literal (text : List Letter)
  | unclosed (text : List Letter)
  deriving DecidableEq

def codeBefore (read : List Letter) : List (Piece Letter) :=
  if read.isEmpty then [] else [.code read.reverse]

variable [DecidableEq Letter] (quote : Letter)

def scan : Bool → List Letter → List Letter → List (Piece Letter)
  | false, read, [] => codeBefore read
  | false, read, c :: rest =>
      if c = quote then codeBefore read ++ scan true [] rest else scan false (c :: read) rest
  | true, read, [] => [.unclosed read.reverse]
  | true, read, c :: rest =>
      if c = quote then .literal read.reverse :: scan false [] rest else scan true (c :: read) rest

def pieces (text : List Letter) : List (Piece Letter) := scan quote false [] text

variable {quote}

theorem scan_code {code : List Letter} (plain : quote ∉ code) (read rest : List Letter) :
    scan quote false read (code ++ quote :: rest) =
      codeBefore (code.reverse ++ read) ++ scan quote true [] rest := by
  induction code generalizing read with
  | nil => simp [scan]
  | cons c others ih =>
      obtain ⟨different, later⟩ := not_or.mp (List.mem_cons.not.mp plain)
      rw [List.cons_append, scan, if_neg (Ne.symm different), ih later]
      simp

theorem scan_literal {text : List Letter} (plain : quote ∉ text) (read rest : List Letter) :
    scan quote true read (text ++ quote :: rest) =
      .literal (read.reverse ++ text) :: scan quote false [] rest := by
  induction text generalizing read with
  | nil => simp [scan]
  | cons c others ih =>
      obtain ⟨different, later⟩ := not_or.mp (List.mem_cons.not.mp plain)
      rw [List.cons_append, scan, if_neg (Ne.symm different), ih later]
      simp

theorem pieces_code {code : List Letter} (plain : quote ∉ code) (some : code ≠ [])
    (rest : List Letter) :
    pieces quote (code ++ quote :: rest) = .code code :: scan quote true [] rest := by
  unfold pieces
  rw [scan_code plain, List.append_nil, codeBefore, if_neg (by simpa using some),
    List.reverse_reverse, List.singleton_append]

theorem scan_ne_nil {inside : Bool} {read text : List Letter}
    (some : inside = true ∨ read ≠ [] ∨ text ≠ []) : scan quote inside read text ≠ [] := by
  induction text generalizing inside read with
  | nil =>
      cases inside with
      | true => simp [scan]
      | false =>
          have begun : read ≠ [] := by simpa using some
          simp [scan, codeBefore, begun]
  | cons c rest ih =>
      cases inside with
      | true =>
          rw [scan]
          split
          · simp
          · exact ih (.inl rfl)
      | false =>
          rw [scan]
          split
          · exact List.append_ne_nil_of_right_ne_nil _ (ih (.inl rfl))
          · exact ih (.inr (.inl (by simp)))

theorem pieces_quoted_of_plain {code : List Letter} (plain : quote ∉ code) (some : code ≠ [])
    {text : List Letter} (absent : quote ∉ text) :
    pieces quote (code ++ quote :: (text ++ [quote])) = [.code code, .literal text] := by
  rw [pieces_code plain some, scan_literal absent]
  rfl

theorem pieces_quoted {code : List Letter} (plain : quote ∉ code) (some : code ≠ [])
    {text code' text' : List Letter}
    (read : pieces quote (code ++ quote :: (text ++ [quote])) = [.code code', .literal text']) :
    code' = code ∧ text' = text ∧ quote ∉ text := by
  have absent : quote ∉ text := by
    intro inside
    -- The literal ends at the first quote of the text, and something follows it.
    obtain ⟨front, back, rfl, before⟩ := List.eq_append_cons_of_mem inside
    rw [pieces_code plain some, List.append_assoc, List.cons_append, scan_literal before,
      List.cons.injEq, List.cons.injEq] at read
    exact scan_ne_nil (.inr (.inr (by simp))) read.2.2
  rw [pieces_quoted_of_plain plain some absent] at read
  cases read
  exact ⟨rfl, rfl, absent⟩

end QuotedText
