import Mathlib.Tactic.SplitIfs

set_option autoImplicit false

namespace Calendar

@[ext] structure Date where
  year : Int
  month : Int
  day : Int
  deriving DecidableEq

def leap (year : Int) : Bool := year % 4 = 0 && (year % 100 ≠ 0 || year % 400 = 0)

def daysInMonth (year month : Int) : Int :=
  if month = 2 then if leap year then 29 else 28
  else if month = 4 ∨ month = 6 ∨ month = 9 ∨ month = 11 then 30 else 31

structure Date.Valid (date : Date) : Prop where
  month : 1 ≤ date.month ∧ date.month ≤ 12
  day : 1 ≤ date.day ∧ date.day ≤ daysInMonth date.year date.month

instance (date : Date) : Decidable date.Valid :=
  decidable_of_iff ((1 ≤ date.month ∧ date.month ≤ 12) ∧
      1 ≤ date.day ∧ date.day ≤ daysInMonth date.year date.month)
    ⟨fun valid => ⟨valid.1, valid.2⟩, fun valid => ⟨valid.month, valid.day⟩⟩

-- Here a year starts in March, so that a leap day is the last day of its year, and the months are
-- counted from March.

def yearStart (year : Int) : Int := 365 * year + year / 4 - year / 100 + year / 400

def monthStart (month : Int) : Int := (153 * month + 2) / 5

def dayNumber (date : Date) : Int :=
  let year := if date.month ≤ 2 then date.year - 1 else date.year
  let month := if date.month ≤ 2 then date.month + 9 else date.month - 3
  yearStart year + monthStart month + (date.day - 1) - 719468

def yearOf (day : Int) : Int :=
  let dayOfEra := day % 146097
  let century := min (dayOfEra / 36524) 3
  let dayOfCentury := dayOfEra - 36524 * century
  400 * (day / 146097) + 100 * century + 4 * (dayOfCentury / 1461) +
    min (dayOfCentury % 1461 / 365) 3

def dateOf (days : Int) : Date :=
  let day := days + 719468
  let year := yearOf day
  let dayOfYear := day - yearStart year
  let month := (5 * dayOfYear + 2) / 153
  { year := if month < 10 then year else year + 1
    month := if month < 10 then month + 3 else month - 9
    day := dayOfYear - monthStart month + 1 }

theorem yearOf_parts (day : Int) :
    ∃ era century olympiad year rest : Int,
      day = 146097 * era + 36524 * century + 1461 * olympiad + 365 * year + rest ∧
      yearOf day = 400 * era + 100 * century + 4 * olympiad + year ∧
      (0 ≤ century ∧ century ≤ 3) ∧ (0 ≤ olympiad ∧ olympiad ≤ 24) ∧ (0 ≤ year ∧ year ≤ 3) ∧
      (0 ≤ rest ∧ rest ≤ 365) ∧ (rest = 365 → year = 3 ∧ (olympiad = 24 → century = 3)) := by
  generalize isEra : day / 146097 = era
  generalize inEra : day % 146097 = dayOfEra
  have ofEra : 0 ≤ dayOfEra ∧ dayOfEra < 146097 ∧ day = 146097 * era + dayOfEra := by omega
  generalize isCentury : min (dayOfEra / 36524) 3 = century
  generalize inCentury : dayOfEra - 36524 * century = dayOfCentury
  have ofCentury : 0 ≤ century ∧ century ≤ 3 ∧ 0 ≤ dayOfCentury ∧ dayOfCentury ≤ 36524 ∧
      (dayOfCentury = 36524 → century = 3) := by omega
  generalize isYear : min (dayOfCentury % 1461 / 365) 3 = year
  refine ⟨era, century, dayOfCentury / 1461, year, dayOfCentury % 1461 - 365 * year, ?_, ?_, ?_⟩
  · omega
  · unfold yearOf
    simp only [isEra, inEra, isCentury, inCentury, isYear]
  · omega

theorem yearStart_parts {era century olympiad year : Int} (centuries : 0 ≤ century ∧ century ≤ 3)
    (olympiads : 0 ≤ olympiad ∧ olympiad ≤ 24) (years : 0 ≤ year ∧ year ≤ 3) :
    yearStart (400 * era + 100 * century + 4 * olympiad + year) =
      146097 * era + 36524 * century + 1461 * olympiad + 365 * year := by
  have fourth : (400 * era + 100 * century + 4 * olympiad + year) / 4 =
      100 * era + 25 * century + olympiad := by omega
  have hundredth : (400 * era + 100 * century + 4 * olympiad + year) / 100 =
      4 * era + century := by omega
  have fourHundredth : (400 * era + 100 * century + 4 * olympiad + year) / 400 = era := by omega
  unfold yearStart
  rw [fourth, hundredth, fourHundredth]
  omega

theorem yearOf_bounds (day : Int) :
    0 ≤ day - yearStart (yearOf day) ∧ day - yearStart (yearOf day) ≤ 365 ∧
      (day - yearStart (yearOf day) = 365 → leap (yearOf day + 1) = true) := by
  obtain ⟨era, century, olympiad, year, rest, split, years, centuries, olympiads, ofFour, parts⟩ :=
    yearOf_parts day
  rw [years, yearStart_parts centuries olympiads ofFour]
  refine ⟨by omega, by omega, ?_⟩
  intro last
  obtain ⟨fourth, long⟩ := parts.2 (by omega)
  unfold leap
  simp only [Bool.and_eq_true, Bool.or_eq_true, decide_eq_true_eq]
  constructor
  · omega
  · by_cases atEnd : olympiad = 24
    · have third := long atEnd
      right
      omega
    · left
      omega

theorem dayNumber_dateOf (days : Int) : dayNumber (dateOf days) = days := by
  obtain ⟨low, high, _⟩ := yearOf_bounds (days + 719468)
  unfold dateOf dayNumber monthStart
  simp only
  generalize yearOf (days + 719468) = year at low high
  generalize inYear : days + 719468 - yearStart year = dayOfYear at low high
  split_ifs with early wrapped wrapped
  · omega
  · omega
  · rw [Int.add_sub_cancel]
    omega
  · omega

theorem dateOf_valid (days : Int) : (dateOf days).Valid := by
  obtain ⟨low, high, last⟩ := yearOf_bounds (days + 719468)
  unfold dateOf monthStart
  simp only
  generalize yearOf (days + 719468) = year at low high last
  generalize days + 719468 - yearStart year = dayOfYear at low high last
  constructor
  · simp only
    split_ifs <;> omega
  · simp only
    unfold daysInMonth
    by_cases leapDay : dayOfYear = 365
    · have february : (5 * dayOfYear + 2) / 153 = 11 := by omega
      have leapYear := last leapDay
      simp only [february, Int.reduceLT, if_false, Int.reduceSub, if_true, leapYear]
      omega
    · split_ifs <;> omega

theorem dateOf_year {days : Int} (near : days.natAbs < 120000) :
    1000 ≤ (dateOf days).year ∧ (dateOf days).year < 3000 := by
  obtain ⟨low, high, _⟩ := yearOf_bounds (days + 719468)
  unfold dateOf
  simp only
  generalize yearOf (days + 719468) = year at low high
  unfold yearStart at low high
  split_ifs
  · omega
  · omega

example : dateOf 19782 = ⟨2024, 2, 29⟩ := by decide

end Calendar
