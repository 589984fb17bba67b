import Mathlib.Algebra.Order.Group.Int
import Mathlib.Tactic.Common

/-!
# The Gregorian calendar

Days are counted from the first of January 1970. A year begins at a known day, and the year of a
day is the one whose days surround it (`dayFromYear_yearFromDay_le`, `lt_dayFromYear_succ`). A day
is rebuilt from its year, its month and its day of the month (`makeDay_civilOfDay`).
-/

set_option autoImplicit false

namespace Koklo.Foundations.Calendar

/-! ## Years -/

/-- The first day of a year. -/
def dayFromYear (year : ℤ) : ℤ :=
  365 * (year - 1970) + (year - 1969) / 4 - (year - 1901) / 100 + (year - 1601) / 400

def isLeapYear (year : ℤ) : Bool := year % 4 = 0 && (year % 100 ≠ 0 || year % 400 = 0)

def daysInYear (leap : Bool) : ℕ := if leap then 366 else 365

/-- The year of a day: the mean length of a year is off by one at most. -/
def yearFromDay (day : ℤ) : ℤ :=
  let guess := 1970 + 400 * day / 146097
  if day < dayFromYear guess then guess - 1
  else if dayFromYear (guess + 1) ≤ day then guess + 1
  else guess

theorem dayFromYear_succ (year : ℤ) :
    dayFromYear (year + 1) = dayFromYear year + daysInYear (isLeapYear year) := by
  simp only [dayFromYear, daysInYear, isLeapYear, Bool.and_eq_true, Bool.or_eq_true,
    decide_eq_true_eq]
  split <;> omega

theorem dayFromYear_lt_succ (year : ℤ) : dayFromYear year < dayFromYear (year + 1) := by
  rw [dayFromYear_succ, daysInYear]
  split <;> omega

/-- Later years begin later. -/
theorem dayFromYear_mono {year later : ℤ} (order : year ≤ later) :
    dayFromYear year ≤ dayFromYear later := by
  induction later, order using Int.leInduction with
  | base => exact le_refl _
  | succ later _ ih => exact ih.trans (dayFromYear_lt_succ later).le

/-- The guess is off by one at most. -/
theorem guess_bounds (day : ℤ) : dayFromYear (1970 + 400 * day / 146097 - 1) ≤ day ∧
    day < dayFromYear (1970 + 400 * day / 146097 + 1 + 1) := by
  simp only [dayFromYear]
  omega

/-- **The days of a year surround each of them.** -/
theorem dayFromYear_yearFromDay (day : ℤ) :
    dayFromYear (yearFromDay day) ≤ day ∧ day < dayFromYear (yearFromDay day + 1) := by
  obtain ⟨low, high⟩ := guess_bounds day
  simp only [yearFromDay]
  split
  · rename_i before
    exact ⟨low, by rwa [sub_add_cancel]⟩
  rename_i reached
  split
  · rename_i after
    exact ⟨after, high⟩
  · rename_i inside
    exact ⟨not_lt.mp reached, not_le.mp inside⟩

/-- A day is in a year that begins by then. -/
theorem le_yearFromDay_iff {year day : ℤ} : year ≤ yearFromDay day ↔ dayFromYear year ≤ day := by
  obtain ⟨low, high⟩ := dayFromYear_yearFromDay day
  constructor
  · exact fun order => (dayFromYear_mono order).trans low
  · intro begun
    by_contra later
    have next : yearFromDay day + 1 ≤ year := by omega
    exact absurd ((dayFromYear_mono next).trans begun) (not_le.mpr high)

/-! ## Months -/

/-- The days of a year before each of its months, January being month 0. -/
def daysBeforeMonth (leap : Bool) (month : ℕ) : ℕ :=
  [0, 31, 59, 90, 120, 151, 181, 212, 243, 273, 304, 334].getD month 365 +
    if leap && 2 ≤ month then 1 else 0

/-- The month of a day of the year. -/
def monthFromDay (leap : Bool) (dayInYear : ℕ) : ℕ :=
  (List.range 11).countP fun month => daysBeforeMonth leap (month + 1) ≤ dayInYear

/-- A day within a year is one of the days of its month. -/
theorem monthFromDay_spec {leap : Bool} {dayInYear : ℕ} (inside : dayInYear < daysInYear leap) :
    monthFromDay leap dayInYear ≤ 11 ∧
      daysBeforeMonth leap (monthFromDay leap dayInYear) ≤ dayInYear ∧
      dayInYear ≤ daysBeforeMonth leap (monthFromDay leap dayInYear) + 30 := by
  have all : ∀ leap : Bool, ∀ n < daysInYear leap, monthFromDay leap n ≤ 11 ∧
      daysBeforeMonth leap (monthFromDay leap n) ≤ n ∧
      n ≤ daysBeforeMonth leap (monthFromDay leap n) + 30 := by
    decide +kernel
  exact all leap dayInYear inside

/-! ## Dates -/

/-- A date of the calendar, its month and its day being counted from 1. -/
structure CivilDate where
  year : ℤ
  month : ℕ
  day : ℕ
deriving DecidableEq

/-- The day of a date, which may go past the end of its month. -/
def CivilDate.toDay (date : CivilDate) : ℤ :=
  dayFromYear date.year + daysBeforeMonth (isLeapYear date.year) (date.month - 1) + date.day - 1

def civilOfDay (day : ℤ) : CivilDate :=
  let year := yearFromDay day
  let dayInYear := (day - dayFromYear year).toNat
  let month := monthFromDay (isLeapYear year) dayInYear
  ⟨year, month + 1, dayInYear - daysBeforeMonth (isLeapYear year) month + 1⟩

/-- The date of a day has a month and a day of the calendar. -/
structure CivilDate.InCalendar (date : CivilDate) : Prop where
  firstMonth : 1 ≤ date.month
  lastMonth : date.month ≤ 12
  firstDay : 1 ≤ date.day
  lastDay : date.day ≤ 31

theorem dayInYear_lt (day : ℤ) :
    (day - dayFromYear (yearFromDay day)).toNat < daysInYear (isLeapYear (yearFromDay day)) := by
  obtain ⟨low, high⟩ := dayFromYear_yearFromDay day
  rw [dayFromYear_succ] at high
  omega

theorem inCalendar_civilOfDay (day : ℤ) : (civilOfDay day).InCalendar := by
  obtain ⟨last, low, high⟩ := monthFromDay_spec (dayInYear_lt day)
  refine ⟨Nat.le_add_left 1 _, Nat.succ_le_succ last, Nat.le_add_left 1 _, ?_⟩
  apply Nat.succ_le_succ
  exact Nat.sub_le_iff_le_add'.mpr high

/-- **A day is rebuilt from its date.** -/
theorem toDay_civilOfDay (day : ℤ) : (civilOfDay day).toDay = day := by
  obtain ⟨start, _⟩ := dayFromYear_yearFromDay day
  obtain ⟨_, low, _⟩ := monthFromDay_spec (dayInYear_lt day)
  simp only [CivilDate.toDay, civilOfDay, Nat.add_sub_cancel]
  omega


end Koklo.Foundations.Calendar
