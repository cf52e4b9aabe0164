import DeepFeeder.Shared.Framing
import DeepFeeder.Shared.DecimalText
import DeepFeeder.Core.Values

set_option autoImplicit false

namespace DeepFeeder

namespace Numeral

theorem isSpace_eq_false {c : Char} (digit : c.isDigit = true) : isSpace c = false := by
  have range : 48 ≤ c.toNat ∧ c.toNat ≤ 57 := Char.isDigit_iff_toNat.mp digit
  have listed : c.toNat ∉ [133, 160, 5760, 8232, 8233, 8239, 8287, 12288] := by
    simp only [List.mem_cons, List.not_mem_nil, or_false]
    omega
  simp only [isSpace, Bool.or_eq_false_iff, Bool.and_eq_false_iff, decide_eq_false_iff_not]
  refine ⟨by omega, ?_⟩
  simpa using listed

theorem digitValue_eq {c : Char} (digit : c.isDigit = true) :
    digitValue c = some (c.toNat - 48) := by
  have range : 48 ≤ c.toNat ∧ c.toNat ≤ 57 := Char.isDigit_iff_toNat.mp digit
  have here : (decide (48 ≤ c.toNat) && decide (c.toNat ≤ 48 + 9)) = true := by simpa using range
  have found : (zeros.find? fun first => first ≤ c.toNat && c.toNat ≤ first + 9) = some 48 :=
    List.find?_cons_of_pos here
  rw [digitValue, found]
  rfl

theorem strip_eq_self {cs : List Char} (plain : ∀ c ∈ cs, isSpace c = false) : strip cs = cs := by
  have kept {letters : List Char} (plain : ∀ c ∈ letters, isSpace c = false) :
      letters.dropWhile isSpace = letters := by
    cases letters with
    | nil => rfl
    | cons c rest => exact List.dropWhile_cons_of_neg (by rw [plain c List.mem_cons_self]; decide)
  rw [strip, kept plain, kept fun c member => plain c (List.mem_reverse.mp member),
    List.reverse_reverse]

theorem signed_eq_one {cs : List Char} (digits : ∀ c ∈ cs, c.isDigit = true) :
    signed cs = (1, cs) := by
  unfold signed
  split
  next => exact absurd (digits '-' List.mem_cons_self) (by decide)
  next => exact absurd (digits '+' List.mem_cons_self) (by decide)
  next => rfl

theorem digitsFrom_eq {cs : List Char} (read : ∀ c ∈ cs, c.isDigit = true) (value : Nat)
    (afterDigit : Bool) (some_read : afterDigit = true ∨ cs ≠ []) :
    digitsFrom value afterDigit cs = some (Nat.ofDigitChars 10 cs value) := by
  induction cs generalizing value afterDigit with
  | nil =>
      cases some_read with
      | inl after => rw [digitsFrom, if_pos after, Nat.ofDigitChars_nil]
      | inr some_read => exact absurd rfl some_read
  | cons c rest ih =>
      have digit := read c List.mem_cons_self
      have notUnderscore : c ≠ '_' := by
        rintro rfl
        exact absurd digit (by decide)
      rw [digitsFrom, if_neg notUnderscore, digitValue_eq digit]
      simp only
      rw [ih (fun d member => read d (List.mem_cons_of_mem c member)) _ true (.inl rfl),
        Nat.ofDigitChars_cons, Nat.mul_comm value 10]
      rfl

theorem parseInt_natText (n : Nat) : parseInt (Nat.repr n) = some (n : Int) := by
  have isDigits : ∀ c ∈ Nat.toDigits 10 n, c.isDigit = true := fun c member =>
    Nat.isDigit_of_mem_toDigits (by decide) (by decide) member
  have stripped := strip_eq_self fun c member => isSpace_eq_false (isDigits c member)
  have value : digits (Nat.toDigits 10 n) = some n := by
    rw [digits, digitsFrom_eq isDigits 0 false (.inr Nat.toDigits_ne_nil),
      Nat.ofDigitChars_toDigits (by decide) (by decide)]
  rw [parseInt, Nat.toList_repr, stripped, signed_eq_one isDigits]
  simp [value]

end Numeral

namespace Frames

open Framing

def delimiter : List Char := ['~', 'm', '~']

def frame (s : String) : String := "~m~" ++ Nat.repr s.length ++ "~m~" ++ s

section Loop

variable (int : String → Option Int)

-- A pass of the loop in `_iter_frames`: what it yields and the payload it leaves. None where the
-- payload has another start and where the pass raises; both end the generator.
def nextFrame (payload : List Char) : Option (String × List Char) := do
  if delimiter.isPrefixOf payload then
    let (_, rest) ← splitOnce delimiter payload
    let (lnStr, rest) ← splitOnce delimiter rest
    let ln ← int (String.ofList lnStr)
    some (String.ofList (sliceTo ln rest), sliceFrom ln rest)
  else none

/-- What `_iter_frames` yields; none where the passes do not reach the end of the generator. -/
def iterFrames (passes : Nat) (payload : String) : Option (List String) :=
  drain (nextFrame int) passes payload.toList

variable {int} {payload rest : List Char} {part : String}

theorem nextFrame_eq_some (read : nextFrame int payload = some (part, rest)) :
    ∃ lnStr, payload = delimiter ++ lnStr ++ delimiter ++ part.toList ++ rest := by
  unfold nextFrame at read
  split at read
  next start =>
      obtain ⟨⟨before, afterMark⟩, marked, read⟩ := Option.bind_eq_some_iff.mp read
      obtain ⟨⟨lnStr, body⟩, split, read⟩ := Option.bind_eq_some_iff.mp read
      obtain ⟨ln, _, read⟩ := Option.bind_eq_some_iff.mp read
      cases read
      obtain ⟨tail, joined⟩ := List.isPrefixOf_iff_prefix.mp start
      -- The payload starts with the delimiter, so nothing stands before the first one.
      rw [← joined] at marked
      have empty := splitOnce_behind (List.not_mem_nil (a := '~')) ['m', '~'] tail
      cases marked.symm.trans empty
      refine ⟨lnStr, ?_⟩
      rw [String.toList_ofList, List.append_assoc, sliceTo_append_sliceFrom, List.append_assoc,
        List.append_assoc, ← List.append_assoc lnStr, ← splitOnce_sound split, joined]
  next => cases read

theorem nextFrame_shorter (payload : List Char) (part : String) (rest : List Char)
    (read : nextFrame int payload = some (part, rest)) : rest.length < payload.length := by
  obtain ⟨lnStr, rfl⟩ := nextFrame_eq_some read
  have mark : 0 < delimiter.length := by decide
  simp only [List.length_append]
  omega

theorem nextFrame_stands (payload : List Char) (part : String) (rest : List Char)
    (read : nextFrame int payload = some (part, rest)) :
    ∃ gap, payload = gap ++ part.toList ++ rest := by
  obtain ⟨lnStr, joined⟩ := nextFrame_eq_some read
  exact ⟨delimiter ++ lnStr ++ delimiter, joined⟩

theorem nextFrame_marked {lnStr : List Char} (plain : '~' ∉ lnStr) (body : List Char) :
    nextFrame int (delimiter ++ (lnStr ++ delimiter ++ body)) =
      (int (String.ofList lnStr)).map fun ln =>
        (String.ofList (sliceTo ln body), sliceFrom ln body) := by
  have start : delimiter.isPrefixOf (delimiter ++ (lnStr ++ delimiter ++ body)) = true :=
    List.isPrefixOf_iff_prefix.mpr (List.prefix_append _ _)
  have marked : splitOnce delimiter (delimiter ++ (lnStr ++ delimiter ++ body)) =
      some ([], lnStr ++ delimiter ++ body) :=
    splitOnce_behind (List.not_mem_nil (a := '~')) ['m', '~'] (lnStr ++ delimiter ++ body)
  have split : splitOnce delimiter (lnStr ++ delimiter ++ body) = some (lnStr, body) :=
    splitOnce_behind plain ['m', '~'] body
  rw [nextFrame, if_pos start, marked]
  simp only [Option.bind_eq_bind, Option.bind_some, split]
  cases int (String.ofList lnStr) <;> rfl

-- The length in front tells where a string ends, so delimiters inside it do no harm.
theorem nextFrame_frame (s : String) (rest : List Char) :
    nextFrame Numeral.parseInt ((frame s).toList ++ rest) = some (s, rest) := by
  have plain : '~' ∉ (Nat.repr s.length).toList := DecimalText.notMem_natText (by decide) s.length
  have joined : (frame s).toList ++ rest =
      delimiter ++ ((Nat.repr s.length).toList ++ delimiter ++ (s.toList ++ rest)) := by
    simp [frame, delimiter]
  have slices := slices_length s.toList rest
  rw [String.length_toList] at slices
  rw [joined, nextFrame_marked plain, String.ofList_toList, Numeral.parseInt_natText,
    Option.map_some, slices.1, slices.2, String.ofList_toList]

end Loop

-- Frames are read back whatever they hold; and on any text, however the lengths in it are read,
-- the generator ends and its frames stand in the text one behind another.
theorem iterFrames_round_trip_and_ends :
    (∀ (strings : List String) (passes : Nat), strings.length < passes →
        iterFrames Numeral.parseInt passes (String.join (strings.map frame)) = some strings) ∧
      ∀ (int : String → Option Int) (payload : String), ∃ frames : List String,
        (∀ passes, payload.length < passes → iterFrames int passes payload = some frames) ∧
          Within (frames.map String.toList) payload.toList := by
  constructor
  next =>
      intro strings passes many
      have letters : (String.join (strings.map frame)).toList =
          strings.flatMap fun s => (frame s).toList := by
        rw [String.toList_join, List.flatMap_map]
      rw [iterFrames, letters]
      exact drain_encoded rfl nextFrame_frame many
  next =>
      intro int payload
      obtain ⟨frames, drained⟩ := @drain_enough _ _ _ payload.toList
        (@nextFrame_shorter int)
      rw [String.length_toList] at drained
      exact ⟨frames, drained,
        drain_within nextFrame_stands (drained (payload.length + 1) (Nat.lt_succ_self _))⟩

-- A negative length slices from the end.
example : iterFrames Numeral.parseInt 3 "~m~-2~m~okay~m~1~m~" = some ["okay~m~1~"] := by decide +kernel

end Frames

end DeepFeeder
