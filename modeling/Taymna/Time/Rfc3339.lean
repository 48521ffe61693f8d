import Taymna.Time.Iso

/-!
# Timestamps of RFC 3339

Instants of the years 0 to 9999, as numbers of nanoseconds, in the form of RFC 3339 with the `Z` of UTC.
Fractions of a second have up to nine digits when they are read, and as many groups of three as it takes
when they are written. What is written is read back (`read_write`), and what a `Date` writes is read as its
instant (`read_toISOString`).
-/

namespace Time.Rfc3339

open Calendar Text

def nsPerDay : ℤ := 86400000000000

/-- The instant is in a year of four digits. -/
def Plain (t : ℤ) : Prop :=
  0 ≤ (CivilDate.ofDay (t / nsPerDay)).year ∧ (CivilDate.ofDay (t / nsPerDay)).year ≤ 9999

instance (t : ℤ) : Decidable (Plain t) := inferInstanceAs (Decidable (_ ∧ _))

/-! ## Writing -/

/-- A time of day, which is a number of seconds. -/
def clockText (second : ℕ) : List Char :=
  digits 2 (second / 3600) ++ ':' :: (digits 2 (second / 60 % 60) ++ ':' :: digits 2 (second % 60))

/-- The nanoseconds of a second, in no digits, or three, six or nine. -/
def fractionText (ns : ℕ) : List Char :=
  if ns = 0 then []
  else if ns % 1000000 = 0 then '.' :: digits 3 (ns / 1000000)
  else if ns % 1000 = 0 then '.' :: digits 6 (ns / 1000)
  else '.' :: digits 9 ns

/-- A day, a second of it, and what is written of a fraction. -/
def stamp (day : ℤ) (second : ℕ) (fraction : List Char) : List Char :=
  Iso.dateText (CivilDate.ofDay day) ++ 'T' :: (clockText second ++ (fraction ++ ['Z']))

def write (t : ℤ) : List Char :=
  stamp (t / nsPerDay) ((t % nsPerDay).toNat / 1000000000)
    (fractionText ((t % nsPerDay).toNat % 1000000000))

/-! ## Reading -/

/-- The second of a day. -/
def readClock (s : List Char) : Option (ℕ × List Char) := do
  let (hour, s) ← number 2 s
  let s ← expect ':' s
  let (minute, s) ← number 2 s
  let s ← expect ':' s
  let (second, s) ← number 2 s
  if hour < 24 ∧ minute < 60 ∧ second < 60 then some ((hour * 60 + minute) * 60 + second, s) else none

/-- Nanoseconds, of at least one digit and at most nine after a point, or none. -/
def readFraction : List Char → Option (ℕ × List Char)
  | '.' :: s =>
    let width := (s.takeWhile Char.isDigit).length
    if 1 ≤ width ∧ width ≤ 9 then (number width s).map fun read => (read.1 * 10 ^ (9 - width), read.2)
    else none
  | s => some (0, s)

def read (s : List Char) : Option ℤ := do
  let (year, s) ← number 4 s
  let (day, s) ← Iso.readMonthDay year s
  let s ← expect 'T' s
  let (second, s) ← readClock s
  let (ns, s) ← readFraction s
  let s ← expect 'Z' s
  if s = [] then some (day * nsPerDay + (second * 1000000000 + ns : ℕ)) else none

/-! ## Reading what is written -/

theorem readClock_clockText {second : ℕ} (h : second < 86400) (rest : List Char) :
    readClock (clockText second ++ rest) = some (second, rest) := by
  have hhour : second / 3600 < 10 ^ 2 := by omega
  have hminute : second / 60 % 60 < 10 ^ 2 := by omega
  have hsecond : second % 60 < 10 ^ 2 := by omega
  have hexists : second / 3600 < 24 ∧ second / 60 % 60 < 60 ∧ second % 60 < 60 := by omega
  have hsum : (second / 3600 * 60 + second / 60 % 60) * 60 + second % 60 = second := by omega
  unfold readClock clockText
  simp only [List.append_assoc, List.cons_append, number_digits hhour, number_digits hminute,
    number_digits hsecond, expect_cons, Option.bind_eq_bind, Option.bind_some, if_pos hexists, hsum]

/-- A fraction of so many digits, before a `Z`. -/
theorem readFraction_digits {width n : ℕ} (hpos : 1 ≤ width) (hle : width ≤ 9) (hn : n < 10 ^ width) :
    readFraction ('.' :: (digits width n ++ ['Z'])) = some (n * 10 ^ (9 - width), ['Z']) := by
  have hall : ∀ c ∈ digits width n, c.isDigit = true := fun c hc => isDigit_of_mem_digits hc
  have hwidth : ((digits width n ++ ['Z']).takeWhile Char.isDigit).length = width := by
    rw [List.takeWhile_append_of_pos hall, List.takeWhile_cons_of_neg (by decide), List.append_nil,
      length_digits]
  unfold readFraction
  simp only [hwidth]
  rw [if_pos ⟨hpos, hle⟩, number_digits hn]
  rfl

theorem readFraction_fractionText {ns : ℕ} (h : ns < 1000000000) :
    readFraction (fractionText ns ++ ['Z']) = some (ns, ['Z']) := by
  unfold fractionText
  split_ifs with h₁ h₂ h₃
  · rw [h₁]
    rfl
  · have hread := readFraction_digits (by decide : 1 ≤ 3) (by decide) (by omega : ns / 1000000 < 10 ^ 3)
    have hsum : ns / 1000000 * 10 ^ (9 - 3) = ns := by omega
    rwa [hsum] at hread
  · have hread := readFraction_digits (by decide : 1 ≤ 6) (by decide) (by omega : ns / 1000 < 10 ^ 6)
    have hsum : ns / 1000 * 10 ^ (9 - 6) = ns := by omega
    rwa [hsum] at hread
  · have hread := readFraction_digits (by decide : 1 ≤ 9) (by decide) (by omega : ns < 10 ^ 9)
    rwa [Nat.sub_self, Nat.pow_zero, Nat.mul_one] at hread

theorem read_stamp {day : ℤ} {second ns : ℕ} {fraction : List Char}
    (hday : 0 ≤ (CivilDate.ofDay day).year ∧ (CivilDate.ofDay day).year ≤ 9999) (hsecond : second < 86400)
    (hfraction : readFraction (fraction ++ ['Z']) = some (ns, ['Z'])) :
    read (stamp day second fraction) = some (day * nsPerDay + (second * 1000000000 + ns : ℕ)) := by
  have hyear : (CivilDate.ofDay day).year.toNat < 10 ^ 4 := by omega
  have hnat : (((CivilDate.ofDay day).year.toNat : ℕ) : ℤ) = (CivilDate.ofDay day).year :=
    Int.toNat_of_nonneg hday.1
  unfold read stamp Iso.dateText Iso.yearText
  rw [if_pos hday]
  simp only [List.append_assoc, List.cons_append, number_digits hyear, hnat, Iso.readMonthDay_dateText,
    expect_cons, readClock_clockText hsecond, hfraction, Option.bind_eq_bind, Option.bind_some,
    CivilDate.dayNumber_ofDay]
  exact if_pos trivial

theorem read_write {t : ℤ} (h : Plain t) : read (write t) = some t := by
  have hpos : 0 ≤ t % nsPerDay := Int.emod_nonneg t (by decide)
  have hlt : t % nsPerDay < 86400000000000 := Int.emod_lt_of_pos t (by decide)
  have hsecond : (t % nsPerDay).toNat / 1000000000 < 86400 := by omega
  have hns : (t % nsPerDay).toNat % 1000000000 < 1000000000 := Nat.mod_lt _ (by decide)
  have hsum : t / nsPerDay * nsPerDay + (((t % nsPerDay).toNat / 1000000000 * 1000000000 +
      (t % nsPerDay).toNat % 1000000000 : ℕ) : ℤ) = t := by
    rw [Nat.div_add_mod', Int.toNat_of_nonneg hpos]
    exact Int.ediv_mul_add_emod t nsPerDay
  unfold write
  rw [read_stamp h hsecond (readFraction_fractionText hns), hsum]

/-- The text of a `Date`, which counts milliseconds. -/
theorem toISOString_eq (t : ℤ) :
    Iso.toISOString t = stamp (t / msPerDay) ((t % msPerDay).toNat / 1000)
      ('.' :: digits 3 ((t % msPerDay).toNat % 1000)) := by
  unfold Iso.toISOString stamp Iso.timeText clockText
  generalize (t % msPerDay).toNat = ms
  have hhour : ms / 1000 / 3600 = ms / 3600000 := Nat.div_div_eq_div_mul ms 1000 3600
  have hminute : ms / 1000 / 60 = ms / 60000 := Nat.div_div_eq_div_mul ms 1000 60
  simp only [hhour, hminute, List.append_assoc, List.cons_append]

theorem read_toISOString {t : ℤ} (h : Plain (t * 1000000)) :
    read (Iso.toISOString t) = some (t * 1000000) := by
  have hday : t * 1000000 / nsPerDay = t / msPerDay := by
    unfold nsPerDay msPerDay
    omega
  have hpos : 0 ≤ t % msPerDay := Int.emod_nonneg t (by decide)
  have hlt : t % msPerDay < 86400000 := Int.emod_lt_of_pos t (by decide)
  have hsecond : (t % msPerDay).toNat / 1000 < 86400 := by omega
  have hfraction := readFraction_digits (by decide : 1 ≤ 3) (by decide)
    (by omega : (t % msPerDay).toNat % 1000 < 10 ^ 3)
  have hsum : t / msPerDay * nsPerDay + (((t % msPerDay).toNat / 1000 * 1000000000 +
      (t % msPerDay).toNat % 1000 * 10 ^ (9 - 3) : ℕ) : ℤ) = t * 1000000 := by
    unfold nsPerDay
    unfold msPerDay at hpos ⊢
    omega
  unfold Plain at h
  rw [hday] at h
  rw [toISOString_eq, read_stamp h hsecond hfraction, hsum]

end Time.Rfc3339
