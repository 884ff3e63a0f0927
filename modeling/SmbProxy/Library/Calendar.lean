import SmbProxy.Library.Loop
import Mathlib.Tactic.Ring

/-!
# The calendar

Dates of the Gregorian calendar, extended to all years, against days counted from the first of
January 1970. `dateOf` counts off the years of a cycle of 400 and then the months; `dayNumber`
adds their lengths up. `dayNumber_dateOf` says that no day is lost between the two, so that
two days with one date are one day.
-/

set_option autoImplicit false

namespace SmbProxy.Library

/-- A year, a month from 0 and a day of the month from 1. -/
structure Date where
  year : ℤ
  month : ℕ
  day : ℤ
  deriving DecidableEq

def isLeap (year : ℤ) : Bool := year % 4 = 0 ∧ (year % 100 ≠ 0 ∨ year % 400 = 0)

def yearLength (year : ℤ) : ℤ := if isLeap year then 366 else 365

def monthLengths (leap : Bool) : List ℤ :=
  [31, if leap then 29 else 28, 31, 30, 31, 30, 31, 31, 30, 31, 30, 31]

/-- The days from the beginning of 1970 to that of the year. -/
def daysBeforeYear (year : ℤ) : ℤ :=
  365 * (year - 1970) + (year - 1) / 4 - (year - 1) / 100 + (year - 1) / 400 - 477

/-- The days from the beginning of the year to that of the month. -/
def daysBeforeMonth (leap : Bool) (month : ℕ) : ℤ := ((monthLengths leap).take month).sum

/-- The number of the day, 0 for the first of January 1970. -/
def dayNumber (date : Date) : ℤ :=
  daysBeforeYear date.year + daysBeforeMonth (isLeap date.year) date.month + (date.day - 1)

/-- A year and a day's place from its beginning: the day is behind the year. -/
def isBehind (s : ℤ × ℤ) : Bool := yearLength s.1 ≤ s.2

/-- The place from the beginning of the next year. -/
def nextYear (s : ℤ × ℤ) : ℤ × ℤ := (s.1 + 1, s.2 - yearLength s.1)

/-- The year of a day, with the day's place in it from 0. -/
def yearOf (days : ℤ) : ℤ × ℤ :=
  whileLoop isBehind nextYear 400 (1970 + 400 * (days / 146097), days % 146097)

/-- The month that a day of the year is in, among months of these lengths, with the day's place
in it from 0. -/
def monthOf : List ℤ → ℤ → ℕ × ℤ
  | [], day => (0, day)
  | length :: rest, day =>
    if day < length then (0, day)
    else ((monthOf rest (day - length)).1 + 1, (monthOf rest (day - length)).2)

/-- The date of a day. -/
def dateOf (days : ℤ) : Date :=
  let year := (yearOf days).1
  let month := monthOf (monthLengths (isLeap year)) (yearOf days).2
  ⟨year, month.1, month.2 + 1⟩

/-- The day of the week, 0 for Sunday. -/
def weekday (days : ℤ) : ℤ := (days + 4) % 7

/-! ## Years -/

/-- The next year begins after the days of this one. -/
theorem daysBeforeYear_succ (year : ℤ) :
    daysBeforeYear (year + 1) = daysBeforeYear year + yearLength year := by
  unfold daysBeforeYear yearLength isLeap
  simp only [decide_eq_true_eq]
  split_ifs <;> omega

/-- The days of the years come again every 400 years. -/
theorem daysBeforeYear_cycle (k : ℤ) : daysBeforeYear (1970 + 400 * k) = 146097 * k := by
  unfold daysBeforeYear
  omega

/-- A later year begins later. -/
theorem daysBeforeYear_le {y y' : ℤ} (h : y ≤ y') : daysBeforeYear y ≤ daysBeforeYear y' := by
  unfold daysBeforeYear
  omega

/-- A year has 365 or 366 days. -/
theorem yearLength_bounds (year : ℤ) : 365 ≤ yearLength year ∧ yearLength year ≤ 366 := by
  unfold yearLength
  split_ifs <;> omega

/-- The place is that of the day. -/
def IsDay (days : ℤ) (s : ℤ × ℤ) : Prop := daysBeforeYear s.1 + s.2 = days ∧ 0 ≤ s.2

/-- Counting off years moves no day, and it ends in the year that has the day in it. -/
theorem yearOf_spec (days : ℤ) :
    daysBeforeYear (yearOf days).1 + (yearOf days).2 = days ∧
      0 ≤ (yearOf days).2 ∧ (yearOf days).2 < yearLength (yearOf days).1 := by
  have hstep : ∀ s, IsDay days s → isBehind s = true →
      IsDay days (nextYear s) ∧ ((nextYear s).2 / 365).toNat < (s.2 / 365).toNat := by
    rintro ⟨year, day⟩ ⟨hsum, hpos⟩ hbehind
    have hle : yearLength year ≤ day := of_decide_eq_true hbehind
    have hlength := yearLength_bounds year
    have hsucc := daysBeforeYear_succ year
    unfold IsDay nextYear
    dsimp only at hsum hpos ⊢
    omega
  have hstart : IsDay days (1970 + 400 * (days / 146097), days % 146097) := by
    unfold IsDay
    rw [daysBeforeYear_cycle]
    omega
  obtain ⟨⟨hsum, hpos⟩, hexit⟩ := while_rule (IsDay days) (fun s => (s.2 / 365).toNat) hstep 400
    hstart (by dsimp only; omega)
  exact ⟨hsum, hpos, not_le.mp (of_decide_eq_false hexit)⟩

/-- The year is between two years if the day is. -/
theorem yearOf_bounds {days y y' : ℤ} (h : daysBeforeYear y ≤ days) (h' : days < daysBeforeYear y') :
    y ≤ (yearOf days).1 ∧ (yearOf days).1 < y' := by
  obtain ⟨hsum, hpos, hlt⟩ := yearOf_spec days
  have hsucc := daysBeforeYear_succ (yearOf days).1
  constructor
  · by_contra hbefore
    have hle := @daysBeforeYear_le ((yearOf days).1 + 1) y (by omega)
    omega
  · by_contra hbehind
    have hle := @daysBeforeYear_le y' (yearOf days).1 (by omega)
    omega

/-! ## Months -/

/-- A day of the year is the days of the months before, and its day in the month. -/
theorem monthOf_spec (lengths : List ℤ) {day : ℤ} (hpos : 0 ≤ day) (hlt : day < lengths.sum) :
    (lengths.take (monthOf lengths day).1).sum + (monthOf lengths day).2 = day ∧
      (monthOf lengths day).1 < lengths.length ∧ 0 ≤ (monthOf lengths day).2 ∧
        ∃ length ∈ lengths, (monthOf lengths day).2 < length := by
  induction lengths generalizing day with
  | nil => exact absurd hlt (not_lt.mpr hpos)
  | cons length rest ih =>
      rw [List.sum_cons] at hlt
      unfold monthOf
      by_cases hin : day < length
      · rw [if_pos hin]
        exact ⟨by simp, Nat.succ_pos _, hpos, length, List.mem_cons_self, hin⟩
      · rw [if_neg hin]
        obtain ⟨hsum, hmonth, hday, long, hmem, hlong⟩ := @ih (day - length) (by omega) (by omega)
        dsimp only
        refine ⟨?_, Nat.succ_lt_succ hmonth, hday, long, List.mem_cons_of_mem _ hmem, hlong⟩
        rw [List.take_succ_cons, List.sum_cons]
        omega

/-- The months have the days of the year. -/
theorem sum_monthLengths (year : ℤ) : (monthLengths (isLeap year)).sum = yearLength year := by
  unfold yearLength
  cases isLeap year with
  | false => rfl
  | true => rfl

/-- A month has at most 31 days. -/
theorem monthLengths_le {leap : Bool} {length : ℤ} (h : length ∈ monthLengths leap) :
    length ≤ 31 := by
  have hall : ∀ leap, ∀ length ∈ monthLengths leap, length ≤ 31 := by decide
  exact hall leap length h

/-! ## Dates -/

/-- The month and the day of a date are in range. -/
theorem dateOf_valid (days : ℤ) :
    (dateOf days).month < 12 ∧ 1 ≤ (dateOf days).day ∧ (dateOf days).day ≤ 31 := by
  obtain ⟨-, hpos, hlt⟩ := yearOf_spec days
  rw [← sum_monthLengths] at hlt
  obtain ⟨-, hmonth, hday, length, hmem, hlength⟩ := monthOf_spec _ hpos hlt
  have hle := monthLengths_le hmem
  unfold dateOf
  dsimp only
  exact ⟨hmonth, by omega, by omega⟩

/-- **The number of a day's date is the day.** -/
theorem dayNumber_dateOf (days : ℤ) : dayNumber (dateOf days) = days := by
  obtain ⟨hsum, hpos, hlt⟩ := yearOf_spec days
  rw [← sum_monthLengths] at hlt
  obtain ⟨hmonth, -, -, -⟩ := monthOf_spec _ hpos hlt
  unfold dayNumber dateOf daysBeforeMonth
  dsimp only
  omega

/-- The year of a date is that of its day. -/
theorem dateOf_year (days : ℤ) : (dateOf days).year = (yearOf days).1 := rfl

end SmbProxy.Library
