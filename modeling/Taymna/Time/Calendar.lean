import Mathlib.Algebra.Order.Ring.Int
import Mathlib.Data.Nat.Find
import Mathlib.Tactic.Common

/-!
# The calendar

Days are numbered from 1 January 1970. A `CivilDate` is a year, a month and a day that exist in the
Gregorian calendar, extended to all years; `CivilDate.dayNumber` and `CivilDate.ofDay` are inverse to
each other, so the dates are in bijection with the integers.
-/

namespace Calendar

/-- The number of the first day of a year. -/
def dayFromYear (year : ℤ) : ℤ :=
  365 * (year - 1970) + (year - 1969) / 4 - (year - 1901) / 100 + (year - 1601) / 400

/-- One in a leap year, zero in another. -/
def leapDay (year : ℤ) : ℤ :=
  if year % 4 = 0 ∧ (year % 100 ≠ 0 ∨ year % 400 = 0) then 1 else 0

/-- The days of a year before its month of this index, counted from zero. -/
def daysBefore (year : ℤ) : ℕ → ℤ
  | 0 => 0
  | 1 => 31
  | 2 => 59 + leapDay year
  | 3 => 90 + leapDay year
  | 4 => 120 + leapDay year
  | 5 => 151 + leapDay year
  | 6 => 181 + leapDay year
  | 7 => 212 + leapDay year
  | 8 => 243 + leapDay year
  | 9 => 273 + leapDay year
  | 10 => 304 + leapDay year
  | 11 => 334 + leapDay year
  | _ => 365 + leapDay year

/-- The number of the day `date` of a month, whose index is counted from zero. The day may lie outside
of the month. -/
def makeDay (year : ℤ) (month : ℕ) (date : ℤ) : ℤ :=
  dayFromYear year + daysBefore year month + date - 1

/-- The year that a day is in: close to the average year, and corrected by one. -/
def yearFromDay (day : ℤ) : ℤ :=
  let year := 1970 + 400 * day / 146097
  if dayFromYear (year + 1) ≤ day then year + 1
  else if dayFromYear year ≤ day then year
  else year - 1

/-- The index of the month that a day is in: the last that does not begin after it. -/
def monthFromDay (day : ℤ) : ℕ :=
  let year := yearFromDay day
  Nat.findGreatest (fun month => dayFromYear year + daysBefore year month ≤ day) 11

/-- The day of the month. -/
def dateFromDay (day : ℤ) : ℤ :=
  day - dayFromYear (yearFromDay day) - daysBefore (yearFromDay day) (monthFromDay day) + 1

/-! ## Years -/

theorem leapDay_cases (year : ℤ) : leapDay year = 0 ∨ leapDay year = 1 := by
  unfold leapDay
  split_ifs <;> omega

theorem dayFromYear_succ (year : ℤ) :
    dayFromYear (year + 1) = dayFromYear year + 365 + leapDay year := by
  unfold dayFromYear leapDay
  split_ifs <;> omega

theorem dayFromYear_mono {a b : ℤ} (h : a ≤ b) : dayFromYear a ≤ dayFromYear b := by
  unfold dayFromYear
  omega

theorem yearFromDay_spec (day : ℤ) :
    dayFromYear (yearFromDay day) ≤ day ∧ day < dayFromYear (yearFromDay day + 1) := by
  have hlow : dayFromYear (1970 + 400 * day / 146097 - 1) ≤ day := by
    unfold dayFromYear
    omega
  have hhigh : day < dayFromYear (1970 + 400 * day / 146097 + 1 + 1) := by
    unfold dayFromYear
    omega
  unfold yearFromDay
  dsimp only
  split_ifs with hnext hthis
  · exact ⟨hnext, hhigh⟩
  · exact ⟨hthis, not_le.1 hnext⟩
  · refine ⟨hlow, ?_⟩
    rw [sub_add_cancel]
    exact not_le.1 hthis

/-- The year of a day is the only one that the day is in. -/
theorem yearFromDay_eq {day year : ℤ} (hlow : dayFromYear year ≤ day)
    (hhigh : day < dayFromYear (year + 1)) : yearFromDay day = year := by
  obtain ⟨h₁, h₂⟩ := yearFromDay_spec day
  by_contra hne
  rcases lt_or_gt_of_ne hne with h | h
  · have := dayFromYear_mono (show yearFromDay day + 1 ≤ year by omega)
    omega
  · have := dayFromYear_mono (show year + 1 ≤ yearFromDay day by omega)
    omega

/-! ## Months -/

theorem daysBefore_le_succ (year : ℤ) (month : ℕ) :
    daysBefore year month ≤ daysBefore year (month + 1) := by
  have hleap := leapDay_cases year
  match month with
  | 0 | 1 | 2 | 3 | 4 | 5 | 6 | 7 | 8 | 9 | 10 | 11 =>
    simp only [daysBefore]
    omega
  | _ + 12 => exact le_rfl

theorem daysBefore_mono (year : ℤ) {a b : ℕ} (h : a ≤ b) : daysBefore year a ≤ daysBefore year b := by
  induction h with
  | refl => exact le_rfl
  | step _ ih => exact ih.trans (daysBefore_le_succ year _)

/-- No month is longer than 31 days. -/
theorem daysBefore_le_add (year : ℤ) (month : ℕ) :
    daysBefore year month ≤ daysBefore year (month - 1) + 31 := by
  have hleap := leapDay_cases year
  match month with
  | 0 | 1 | 2 | 3 | 4 | 5 | 6 | 7 | 8 | 9 | 10 | 11 | 12 =>
    simp only [daysBefore, Nat.add_one_sub_one, Nat.zero_sub]
    omega
  | _ + 13 =>
    simp only [daysBefore, Nat.add_one_sub_one]
    omega

@[simp] theorem daysBefore_zero (year : ℤ) : daysBefore year 0 = 0 := rfl

@[simp] theorem daysBefore_twelve (year : ℤ) : daysBefore year 12 = 365 + leapDay year := rfl

theorem monthFromDay_le (day : ℤ) : monthFromDay day ≤ 11 := by
  unfold monthFromDay
  exact Nat.findGreatest_le 11

theorem monthFromDay_spec (day : ℤ) :
    dayFromYear (yearFromDay day) + daysBefore (yearFromDay day) (monthFromDay day) ≤ day ∧
      day < dayFromYear (yearFromDay day) + daysBefore (yearFromDay day) (monthFromDay day + 1) := by
  obtain ⟨hlow, hhigh⟩ := yearFromDay_spec day
  constructor
  · refine Nat.findGreatest_spec (P := fun month =>
      dayFromYear (yearFromDay day) + daysBefore (yearFromDay day) month ≤ day) (Nat.zero_le 11) ?_
    simpa using hlow
  · by_cases hlast : monthFromDay day = 11
    · rw [hlast, daysBefore_twelve]
      rw [dayFromYear_succ] at hhigh
      omega
    · have hle := monthFromDay_le day
      refine not_le.1 (Nat.findGreatest_is_greatest (n := 11) (P := fun month =>
        dayFromYear (yearFromDay day) + daysBefore (yearFromDay day) month ≤ day) ?_ ?_)
      · exact Nat.lt_succ_self (monthFromDay day)
      · omega

/-- The month of a day is the only one of the year that the day is in. -/
theorem monthFromDay_eq {day : ℤ} {month : ℕ}
    (hlow : dayFromYear (yearFromDay day) + daysBefore (yearFromDay day) month ≤ day)
    (hhigh : day < dayFromYear (yearFromDay day) + daysBefore (yearFromDay day) (month + 1)) :
    monthFromDay day = month := by
  obtain ⟨h₁, h₂⟩ := monthFromDay_spec day
  by_contra hne
  rcases lt_or_gt_of_ne hne with h | h
  · have := daysBefore_mono (yearFromDay day) (show monthFromDay day + 1 ≤ month by omega)
    omega
  · have := daysBefore_mono (yearFromDay day) (show month + 1 ≤ monthFromDay day by omega)
    omega

/-! ## Dates -/

/-- A date that exists, with the month counted from one. -/
structure CivilDate where
  year : ℤ
  month : ℕ
  day : ℤ
  month_pos : 0 < month
  month_le : month ≤ 12
  day_pos : 0 < day
  day_le : daysBefore year (month - 1) + day ≤ daysBefore year month
deriving DecidableEq, Repr

namespace CivilDate

/-- The number of the day. -/
def dayNumber (c : CivilDate) : ℤ := makeDay c.year (c.month - 1) c.day

/-- The date of a day. -/
def ofDay (day : ℤ) : CivilDate where
  year := yearFromDay day
  month := monthFromDay day + 1
  day := dateFromDay day
  month_pos := Nat.succ_pos _
  month_le := Nat.succ_le_succ (monthFromDay_le day)
  day_pos := by
    have := (monthFromDay_spec day).1
    unfold dateFromDay
    omega
  day_le := by
    have := (monthFromDay_spec day).2
    unfold dateFromDay
    rw [Nat.add_sub_cancel]
    omega

@[simp] theorem dayNumber_ofDay (day : ℤ) : (ofDay day).dayNumber = day := by
  unfold dayNumber makeDay ofDay dateFromDay
  dsimp only
  rw [Nat.add_sub_cancel]
  omega

theorem dayNumber_bounds (c : CivilDate) :
    dayFromYear c.year ≤ c.dayNumber ∧ c.dayNumber < dayFromYear (c.year + 1) := by
  have hfirst := daysBefore_mono c.year (Nat.zero_le (c.month - 1))
  have hlast := daysBefore_mono c.year c.month_le
  have hpos := c.day_pos
  have hle := c.day_le
  rw [dayFromYear_succ]
  unfold dayNumber makeDay
  rw [daysBefore_zero] at hfirst
  rw [daysBefore_twelve] at hlast
  omega

@[simp] theorem yearFromDay_dayNumber (c : CivilDate) : yearFromDay c.dayNumber = c.year :=
  yearFromDay_eq c.dayNumber_bounds.1 c.dayNumber_bounds.2

@[simp] theorem monthFromDay_dayNumber (c : CivilDate) :
    monthFromDay c.dayNumber = c.month - 1 := by
  have hpos := c.month_pos
  have hle := c.month_le
  have hday := c.day_pos
  have hlast := c.day_le
  refine monthFromDay_eq ?_ ?_
  · rw [yearFromDay_dayNumber]
    unfold dayNumber makeDay
    omega
  · rw [yearFromDay_dayNumber, Nat.sub_add_cancel hpos]
    unfold dayNumber makeDay
    omega

@[simp] theorem ofDay_dayNumber (c : CivilDate) : ofDay c.dayNumber = c := by
  have hpos := c.month_pos
  obtain ⟨year, month, day, h₁, h₂, h₃, h₄⟩ := c
  have hmonth : month - 1 + 1 = month := Nat.sub_add_cancel hpos
  simp only [ofDay, mk.injEq, yearFromDay_dayNumber, monthFromDay_dayNumber, dateFromDay, hmonth,
    true_and]
  unfold dayNumber makeDay
  dsimp only
  omega

/-- An earlier date is not in a later year. -/
theorem year_le_of_dayNumber_le {c d : CivilDate} (h : c.dayNumber ≤ d.dayNumber) :
    c.year ≤ d.year := by
  by_contra hlt
  have hyears := dayFromYear_mono (show d.year + 1 ≤ c.year by omega)
  have hc := c.dayNumber_bounds.1
  have hd := d.dayNumber_bounds.2
  omega

/-- Dates stand in the order of their years, then of their months, then of their days. -/
theorem dayNumber_lt_iff {c d : CivilDate} :
    c.dayNumber < d.dayNumber ↔
      c.year < d.year ∨ c.year = d.year ∧ (c.month < d.month ∨ c.month = d.month ∧ c.day < d.day) := by
  rcases lt_trichotomy c.year d.year with hlt | heq | hgt
  · have hyears := dayFromYear_mono (show c.year + 1 ≤ d.year by omega)
    have hc := c.dayNumber_bounds.2
    have hd := d.dayNumber_bounds.1
    omega
  · have hcpos := c.month_pos
    have hdpos := d.month_pos
    have hc := c.day_le
    have hd := d.day_le
    have hc' := c.day_pos
    have hd' := d.day_pos
    unfold dayNumber makeDay
    rw [heq] at hc ⊢
    rcases lt_trichotomy c.month d.month with hm | hm | hm
    · have hmono := daysBefore_mono d.year (show c.month ≤ d.month - 1 by omega)
      omega
    · rw [hm]
      omega
    · have hmono := daysBefore_mono d.year (show d.month ≤ c.month - 1 by omega)
      omega
  · have hyears := dayFromYear_mono (show d.year + 1 ≤ c.year by omega)
    have hc := c.dayNumber_bounds.1
    have hd := d.dayNumber_bounds.2
    omega

end CivilDate

end Calendar
