import Mathlib.Algebra.Group.Nat.Defs
import Mathlib.Data.List.TakeWhile
import DeepFeeder.Shared.Calendar

set_option autoImplicit false

namespace IsoText

open Calendar

section Digits

def pad : Nat → Nat → List Char
  | 0, _ => []
  | width + 1, n => pad width (n / 10) ++ [Nat.digitChar (n % 10)]

def digitsValue (digits : List Char) : Nat :=
  digits.foldl (fun n c => 10 * n + (c.toNat - '0'.toNat)) 0

def readNumber (width : Nat) (text : List Char) : Option (Nat × List Char) :=
  if width ≤ text.length ∧ (text.take width).all Char.isDigit then
    some (digitsValue (text.take width), text.drop width)
  else none

theorem pad_length (width n : Nat) : (pad width n).length = width := by
  induction width generalizing n with
  | zero => rfl
  | succ width ih => rw [pad, List.length_append, ih]; rfl

theorem digitChar_digit {d : Nat} (small : d < 10) :
    (Nat.digitChar d).isDigit = true ∧ (Nat.digitChar d).toNat - '0'.toNat = d := by
  have all : ∀ d < 10, (Nat.digitChar d).isDigit = true ∧
      (Nat.digitChar d).toNat - '0'.toNat = d := by decide
  exact all d small

theorem pad_digits (width n : Nat) : ∀ c ∈ pad width n, c.isDigit = true := by
  induction width generalizing n with
  | zero => exact fun _ member => nomatch member
  | succ width ih =>
      intro c member
      rcases List.mem_append.mp member with before | last
      · exact ih _ c before
      · rw [List.mem_singleton.mp last]
        exact (digitChar_digit (Nat.mod_lt n (by decide))).1

theorem digitsValue_pad {width n : Nat} (small : n < 10 ^ width) :
    digitsValue (pad width n) = n := by
  induction width generalizing n with
  | zero =>
      rw [Nat.pow_zero, Nat.lt_one_iff] at small
      rw [small]
      rfl
  | succ width ih =>
      have before : n / 10 < 10 ^ width := by
        rw [Nat.div_lt_iff_lt_mul (by decide)]
        rwa [Nat.pow_succ] at small
      unfold digitsValue at *
      rw [pad, List.foldl_append, ih before, List.foldl_cons, List.foldl_nil,
        (digitChar_digit (Nat.mod_lt n (by decide))).2]
      omega

theorem readNumber_pad {width n : Nat} (small : n < 10 ^ width) (rest : List Char) :
    readNumber width (pad width n ++ rest) = some (n, rest) := by
  have size := pad_length width n
  unfold readNumber
  rw [List.take_left' size, List.drop_left' size, digitsValue_pad small, List.all_eq_true.mpr
    (pad_digits width n), if_pos ⟨by simp [size], rfl⟩]

end Digits

section Reading

def expect (mark : Char) : List Char → Option (List Char)
  | [] => none
  | c :: rest => if c = mark then some rest else none

-- `.fff[fff]`, in microseconds.
def readFraction (text : List Char) : Option Nat :=
  if text.length = 3 then (readNumber 3 text).map fun read => read.1 * 1000
  else if text.length = 6 then (readNumber 6 text).map Prod.fst
  else none

structure Clock where
  hour : Nat
  minute : Nat
  second : Nat
  micro : Nat

def Clock.micros (clock : Clock) : Int :=
  ((clock.hour * 60 + clock.minute) * 60 + clock.second) * 1000000 + clock.micro

-- `HH[:MM[:SS[.fff[fff]]]]`.
def readClock (text : List Char) : Option Clock := do
  let (hour, rest) ← readNumber 2 text
  if rest = [] then return ⟨hour, 0, 0, 0⟩
  let (minute, rest) ← readNumber 2 (← expect ':' rest)
  if rest = [] then return ⟨hour, minute, 0, 0⟩
  let (second, rest) ← readNumber 2 (← expect ':' rest)
  if rest = [] then return ⟨hour, minute, second, 0⟩
  let micro ← readFraction (← expect '.' rest)
  return ⟨hour, minute, second, micro⟩

def readDate (text : List Char) : Option (Date × List Char) := do
  let (year, rest) ← readNumber 4 text
  let (month, rest) ← readNumber 2 (← expect '-' rest)
  let (day, rest) ← readNumber 2 (← expect '-' rest)
  return (⟨year, month, day⟩, rest)

/-- A time of the calendar, in microseconds, and how far it is ahead of UTC where that is known. -/
structure DateTime where
  local_ : Int
  offset : Option Int
  deriving DecidableEq

def dayMicros : Int := 24 * 60 * 60 * 1000000

-- `+HH:MM[:SS[.ffffff]]`.
def readOffset (text : List Char) : Option (Option Int) :=
  match text with
  | [] => some none
  | sign :: zone =>
      match readClock zone with
      | none => none
      | some clock =>
          if zone.length ∉ [5, 8, 15] ∨ dayMicros ≤ clock.micros then none
          else some (some (if sign = '-' then -clock.micros else clock.micros))

def isSign (c : Char) : Bool := c = '+' || c = '-'

def fromisoformat (text : List Char) : Option DateTime := do
  let (date, rest) ← readDate text
  if ¬ (1 ≤ date.year ∧ date.Valid) then none
  match rest with
  | [] => return ⟨dayNumber date * dayMicros, none⟩
  | _ :: time =>
      let clock ← readClock (time.takeWhile fun c => !isSign c)
      if ¬ (clock.hour < 24 ∧ clock.minute < 60 ∧ clock.second < 60) then none
      let offset ← readOffset (time.dropWhile fun c => !isSign c)
      return ⟨dayNumber date * dayMicros + clock.micros, offset⟩

end Reading

section Printing

def dateText (date : Date) : List Char :=
  pad 4 date.year.toNat ++ '-' :: (pad 2 date.month.toNat ++ '-' :: pad 2 date.day.toNat)

def clockOf (micros : Nat) : Clock :=
  ⟨micros / 3600000000, micros / 60000000 % 60, micros / 1000000 % 60, micros % 1000000⟩

def fractionText (micro nanos : Nat) : List Char :=
  if micro = 0 ∧ nanos = 0 then []
  else '.' :: (pad 6 micro ++ if nanos = 0 then [] else pad 3 nanos)

def clockText (clock : Clock) (nanos : Nat) : List Char :=
  pad 2 clock.hour ++ ':' ::
    (pad 2 clock.minute ++ ':' :: (pad 2 clock.second ++ fractionText clock.micro nanos))

def isoformat (sep : Char) (ns : Int) : List Char :=
  let micros := ns / 1000
  dateText (dateOf (micros / dayMicros)) ++
    sep :: clockText (clockOf (micros % dayMicros).toNat) (ns % 1000).toNat

end Printing

section RoundTrip

variable {ns : Int} {clock : Clock} {rest : List Char}

theorem readDate_dateText {date : Date} (valid : date.Valid)
    (year : 0 ≤ date.year ∧ date.year < 10000) (rest : List Char) :
    readDate (dateText date ++ rest) = some (date, rest) := by
  obtain ⟨month, day⟩ := valid
  have short : daysInMonth date.year date.month ≤ 31 := by
    unfold daysInMonth
    split_ifs <;> omega
  have year_ : date.year.toNat < 10 ^ 4 := by omega
  have month_ : date.month.toNat < 10 ^ 2 := by omega
  have day_ : date.day.toNat < 10 ^ 2 := by omega
  have same : (⟨date.year.toNat, date.month.toNat, date.day.toNat⟩ : Date) = date := by
    ext
    · exact Int.toNat_of_nonneg year.1
    · exact Int.toNat_of_nonneg (by omega)
    · exact Int.toNat_of_nonneg (by omega)
  unfold dateText readDate
  simp only [List.append_assoc, List.cons_append, readNumber_pad year_, readNumber_pad month_,
    readNumber_pad day_, expect, if_true, Option.bind_eq_bind, Option.bind_some, Option.pure_def,
    same]

theorem clockOf_small {micros : Nat} (day : micros < 86400000000) :
    (clockOf micros).hour < 24 ∧ (clockOf micros).minute < 60 ∧ (clockOf micros).second < 60 ∧
      (clockOf micros).micro < 1000000 := by
  simp only [clockOf]
  omega

theorem clockOf_micros (micros : Nat) : (clockOf micros).micros = micros := by
  simp only [clockOf, Clock.micros]
  omega

theorem readFraction_fractionText {micro nanos : Nat} (small : micro < 1000000)
    (some_ : ¬ (micro = 0 ∧ nanos = 0)) :
    (expect '.' (fractionText micro nanos)).bind readFraction =
      if nanos = 0 then some micro else none := by
  unfold fractionText
  rw [if_neg some_]
  simp only [expect, if_true, Option.bind_some]
  unfold readFraction
  split
  next whole =>
    have six : readNumber 6 _ = _ := readNumber_pad small []
    rw [List.append_nil] at six
    simp [pad_length, six]
  next => simp [pad_length]

theorem readClock_clockText {clock : Clock} (hour : clock.hour < 10 ^ 2)
    (minute : clock.minute < 10 ^ 2) (second : clock.second < 10 ^ 2)
    (micro : clock.micro < 1000000) (nanos : Nat) :
    readClock (clockText clock nanos) = if nanos = 0 then some clock else none := by
  unfold clockText readClock
  simp only [readNumber_pad hour, readNumber_pad minute, readNumber_pad second, expect, if_true,
    Option.bind_eq_bind, Option.bind_some, reduceCtorEq, if_false, Option.pure_def]
  by_cases nothing : clock.micro = 0 ∧ nanos = 0
  · have empty : fractionText clock.micro nanos = [] := if_pos nothing
    rw [if_pos empty, if_pos nothing.2, ← nothing.1]
  · have some_ : fractionText clock.micro nanos ≠ [] := by
      unfold fractionText
      simp [nothing]
    have fraction := readFraction_fractionText micro nothing
    rw [if_neg some_, ← Option.bind_assoc]
    change ((expect '.' (fractionText clock.micro nanos)).bind readFraction).bind _ = _
    rw [fraction]
    split
    · rfl
    · rfl

theorem clockText_marks (clock : Clock) (nanos : Nat) :
    ∀ c ∈ clockText clock nanos, c.isDigit = true ∨ c = ':' ∨ c = '.' := by
  intro c member
  unfold clockText fractionText at member
  have digits (width n : Nat) := pad_digits width n c
  by_cases empty : clock.micro = 0 ∧ nanos = 0
  · simp only [empty, and_self, if_true, List.mem_append, List.mem_cons] at member
    grind
  · rw [if_neg empty] at member
    simp only [List.mem_append, List.mem_cons] at member
    split at member
    · grind
    · grind

theorem isoformat_marks (sep : Char) (ns : Int) :
    ∀ c ∈ isoformat sep ns, c.isDigit = true ∨ c = '-' ∨ c = sep ∨ c = ':' ∨ c = '.' := by
  intro c member
  unfold isoformat dateText at member
  simp only [List.mem_append, List.mem_cons] at member
  have digits (width n : Nat) := pad_digits width n c
  have marks (clock : Clock) (nanos : Nat) := clockText_marks clock nanos c
  grind

theorem clockText_unsigned (clock : Clock) (nanos : Nat) :
    ∀ c ∈ clockText clock nanos, (!isSign c) = true := by
  intro c member
  rcases clockText_marks clock nanos c member with digit | rfl | rfl
  · unfold isSign
    simp only [Bool.not_or, Bool.and_eq_true, Bool.not_eq_true', decide_eq_false_iff_not]
    constructor
    · rintro rfl
      cases digit
    · rintro rfl
      cases digit
  · rfl
  · rfl

theorem span_clockText (clock : Clock) (nanos : Nat) (zone : List Char) :
    ((clockText clock nanos ++ '+' :: zone).takeWhile fun c => !isSign c) =
        clockText clock nanos ∧
      ((clockText clock nanos ++ '+' :: zone).dropWhile fun c => !isSign c) = '+' :: zone := by
  have unsigned := clockText_unsigned clock nanos
  constructor
  · rw [List.takeWhile_append_of_pos unsigned, List.takeWhile_cons_of_neg (by decide),
      List.append_nil]
  · rw [List.dropWhile_append_of_pos unsigned, List.dropWhile_cons_of_neg (by decide)]

theorem readOffset_utc : readOffset "+00:00".toList = some (some 0) := by decide +kernel

theorem fromisoformat_isoformat (sep : Char) (near : (ns / 1000 / dayMicros).natAbs < 120000) :
    fromisoformat (isoformat sep ns ++ "+00:00".toList) =
      if ns % 1000 = 0 then some ⟨ns / 1000, some 0⟩ else none := by
  have valid := dateOf_valid (ns / 1000 / dayMicros)
  have year := dateOf_year near
  have day : 0 ≤ ns / 1000 % dayMicros ∧ ns / 1000 % dayMicros < 86400000000 := by
    unfold dayMicros
    omega
  obtain ⟨hour, minute, second, micro⟩ :=
    @clockOf_small (ns / 1000 % dayMicros).toNat (by omega)
  have read := readClock_clockText (by omega) (by omega) (by omega) micro (ns % 1000).toNat
  have utc : "+00:00".toList = '+' :: "00:00".toList := rfl
  have offset := readOffset_utc
  rw [utc] at offset ⊢
  unfold fromisoformat isoformat
  simp only [List.append_assoc, List.cons_append,
    readDate_dateText valid ⟨by omega, by omega⟩, Option.bind_eq_bind, Option.bind_some,
    (span_clockText _ _ _).1, (span_clockText _ _ _).2, read, offset]
  rw [if_neg (not_not.mpr ⟨by omega, valid⟩), dayNumber_dateOf]
  by_cases whole : ns % 1000 = 0
  · rw [if_pos (by omega), if_pos whole, Option.bind_some,
      if_neg (not_not.mpr ⟨hour, minute, second⟩), clockOf_micros, Int.toNat_of_nonneg day.1,
      Int.mul_comm, Int.mul_ediv_add_emod]
    rfl
  · rw [if_neg (by omega), if_neg whole, Option.bind_none]

end RoundTrip

section Replacing

-- Each occurrence of a mark that is not empty, from the left; `skip` letters are of the last one.
def replaceFrom (mark new : List Char) : Nat → List Char → List Char
  | _, [] => []
  | skip + 1, _ :: rest => replaceFrom mark new skip rest
  | 0, c :: rest =>
      if mark.isPrefixOf (c :: rest) then new ++ replaceFrom mark new (mark.length - 1) rest
      else c :: replaceFrom mark new 0 rest

def replace (mark new text : List Char) : List Char := replaceFrom mark new 0 text

theorem replaceFrom_skip (mark new text : List Char) :
    replaceFrom mark new text.length text = [] := by
  induction text with
  | nil => rfl
  | cons c rest ih => exact ih

theorem replace_end {first : Char} {mark front : List Char} (new : List Char)
    (apart : ∀ c ∈ front, c ≠ first) :
    replace (first :: mark) new (front ++ first :: mark) = front ++ new := by
  unfold replace
  induction front with
  | nil =>
      rw [List.nil_append, replaceFrom, if_pos (List.isPrefixOf_iff_prefix.mpr (List.prefix_refl _))]
      simp [replaceFrom_skip]
  | cons c rest ih =>
      have other : ¬ (first :: mark).isPrefixOf (c :: (rest ++ first :: mark)) = true := by
        simp [List.isPrefixOf, Ne.symm (apart c List.mem_cons_self)]
      rw [List.cons_append, replaceFrom, if_neg other,
        ih fun d member => apart d (List.mem_cons_of_mem _ member)]
      rfl

theorem isoformat_apart (ns : Int) {mark : Char} (letter : mark = '+' ∨ mark = 'Z') :
    ∀ c ∈ isoformat 'T' ns, c ≠ mark := by
  rintro c member rfl
  rcases isoformat_marks 'T' ns c member with digit | rfl | rfl | rfl | rfl
  · rcases letter with rfl | rfl
    · cases digit
    · cases digit
  · simp at letter
  · simp at letter
  · simp at letter
  · simp at letter

theorem replace_offset (ns : Int) :
    replace "+00:00".toList "Z".toList (isoformat 'T' ns ++ "+00:00".toList) =
      isoformat 'T' ns ++ "Z".toList :=
  replace_end _ (isoformat_apart ns (.inl rfl))

theorem replace_zulu (ns : Int) :
    replace "Z".toList "+00:00".toList (isoformat 'T' ns ++ "Z".toList) =
      isoformat 'T' ns ++ "+00:00".toList :=
  replace_end _ (isoformat_apart ns (.inr rfl))

end Replacing

end IsoText
