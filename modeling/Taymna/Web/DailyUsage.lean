import Mathlib.Data.List.Chain
import Mathlib.Data.List.Forall2
import Mathlib.Data.List.Range
import Taymna.Api.Usage
import Taymna.Time.Calendar
import Taymna.Time.Midnights

/-!
# Usage by day (`web/src/lib/daily-usage.ts`, `web/src/lib/report-range.ts`)

The dashboard cuts a report into local days. A `Date` is its number of milliseconds, and what its
local methods give is read off the browser's `Zone`. `dailyUsage` moves one `Date` from the first
midnight on and takes its time of day along, so where it cuts is a matter of `Zone.Carries`.
-/

namespace Taymna.Web

open Calendar Time
open Api (roundHalfUp)
open Number (toDouble)

/-- The value of an `<input type="date">`. -/
structure DateInput extends CivilDate where
  year_nonneg : 0 ≤ year
deriving DecidableEq, Repr

/-! ## Local time -/

/-- The constructor takes the years 0 to 99 for those of the 20th century. -/
def fullYear (year : ℤ) : ℤ := if 0 ≤ year ∧ year ≤ 99 then 1900 + year else year

/-- `new Date(year, month, date)`. -/
def newDate (z : Zone) (year : ℤ) (month : ℕ) (date : ℤ) : ℤ :=
  z.utc (makeDay (fullYear year) month date * msPerDay)

/-- `getDate()`. -/
def getDate (z : Zone) (date : ℤ) : ℤ := dateFromDay (z.day date)

/-- `setDate(dayOfMonth)`: the year, the month and the time of day stay, and the day of the month may
lie outside of the month. -/
def setDate (z : Zone) (date dayOfMonth : ℤ) : ℤ :=
  z.utc (makeDay (yearFromDay (z.day date)) (monthFromDay (z.day date)) dayOfMonth * msPerDay +
    z.timeWithinDay date)

/-- A date for an `<input type="date">`: `getFullYear()`, `getMonth() + 1` and `getDate()`. -/
def toDateInput (z : Zone) (date : ℤ) : CivilDate := CivilDate.ofDay (z.day date)

/-- `localMidnight`. -/
def localMidnight (z : Zone) (value : DateInput) : ℤ :=
  newDate z value.year (value.month - 1) value.day

/-- The half-open range of instants for two inclusive local dates. -/
def toInstantRange (z : Zone) (fromDate toDate : DateInput) : ℤ × ℤ :=
  let start := localMidnight z fromDate
  let endExclusive := localMidnight z toDate
  (start, setDate z endExclusive (getDate z endExclusive + 1))

/-! ## The loop over the days -/

/-- What is read of a session of the report. -/
structure ReportedSession where
  startedAt : ℤ
  endedAt : ℤ
deriving DecidableEq, Repr

/-- One bar of the chart. -/
structure DayUsage where
  date : CivilDate
  seconds : ℚ
deriving DecidableEq, Repr

/-- What one turn of the loop counts into. -/
structure Bucket where
  dayStart : ℤ
  dayEnd : ℤ
deriving DecidableEq, Repr

/-- Seconds of `[start, stop)` that fall inside `[from, to)`. -/
def overlapSeconds (start stop windowFrom windowTo : ℤ) : ℚ :=
  let overlapMs := min stop windowTo - max start windowFrom
  if overlapMs > 0 then toDouble (overlapMs / 1000) else 0

/-- `while (cursor <= last)`, for at most so many turns. -/
def bucketsFrom (z : Zone) (last : ℤ) : ℕ → ℤ → Option (List Bucket)
  | 0, _ => none
  | fuel + 1, cursor =>
    if cursor ≤ last then
      let dayStart := cursor
      let dayEnd := setDate z cursor (getDate z cursor + 1)
      (bucketsFrom z last fuel (setDate z cursor (getDate z cursor + 1))).map
        fun buckets => { dayStart := dayStart, dayEnd := dayEnd } :: buckets
    else some []

/-- The days of the loop, if it ends within `fuel` turns. -/
def buckets (z : Zone) (fuel : ℕ) (fromDate toDate : DateInput) : Option (List Bucket) :=
  bucketsFrom z (localMidnight z toDate) fuel (localMidnight z fromDate)

/-- What is pushed for a bucket. -/
def dayUsage (z : Zone) (sessions : List ReportedSession) (bucket : Bucket) : DayUsage :=
  let seconds := sessions.foldl (fun seconds session =>
    toDouble (seconds + overlapSeconds session.startedAt session.endedAt bucket.dayStart
      bucket.dayEnd)) 0
  { date := toDateInput z bucket.dayStart, seconds := roundHalfUp seconds }

/-- `dailyUsage`. -/
def dailyUsage (z : Zone) (fuel : ℕ) (sessions : List ReportedSession) (fromDate toDate : DateInput) :
    Option (List DayUsage) :=
  (buckets z fuel fromDate toDate).map fun buckets => buckets.map (dayUsage z sessions)

/-! ## What the loop does -/

/-- One turn of the loop is a `nextDay`. -/
theorem setDate_getDate_add_one (z : Zone) (date : ℤ) :
    setDate z date (getDate z date + 1) = z.nextDay date := by
  have hday : makeDay (yearFromDay (z.day date)) (monthFromDay (z.day date)) (getDate z date + 1) =
      z.day date + 1 := by
    unfold makeDay getDate dateFromDay
    omega
  have hlocal : z.day date * msPerDay + z.timeWithinDay date = z.localTime date :=
    Int.ediv_mul_add_emod (z.localTime date) msPerDay
  unfold setDate Zone.nextDay
  rw [hday, add_mul, one_mul, ← hlocal]
  exact congrArg z.utc (by omega)

/-- The bucket of a cursor. -/
def bucketAt (z : Zone) (cursor : ℤ) : Bucket := { dayStart := cursor, dayEnd := z.nextDay cursor }

theorem bucketsFrom_succ (z : Zone) (last : ℤ) (fuel : ℕ) (cursor : ℤ) :
    bucketsFrom z last (fuel + 1) cursor =
      if cursor ≤ last then
        (bucketsFrom z last fuel (z.nextDay cursor)).map fun buckets => bucketAt z cursor :: buckets
      else some [] := by
  rw [bucketsFrom, setDate_getDate_add_one]
  rfl

/-- The loop goes through the iterates of `nextDay`, and stops at the first that is past the end. -/
theorem exists_bucketsFrom_iff {z : Zone} {last cursor : ℤ} {bs : List Bucket} :
    (∃ fuel, bucketsFrom z last fuel cursor = some bs) ↔
      bs = (List.range bs.length).map (fun i => bucketAt z (z.nextDay^[i] cursor)) ∧
        (∀ i < bs.length, z.nextDay^[i] cursor ≤ last) ∧ last < z.nextDay^[bs.length] cursor := by
  constructor
  · rintro ⟨fuel, h⟩
    induction fuel generalizing cursor bs with
    | zero => cases h
    | succ fuel ih =>
      rw [bucketsFrom_succ] at h
      split_ifs at h with hle
      · obtain ⟨rest, hrest, rfl⟩ := Option.map_eq_some_iff.1 h
        obtain ⟨hbs, hin, hout⟩ := ih hrest
        rw [List.length_cons, List.range_succ_eq_map, List.map_cons, List.map_map]
        refine ⟨congrArg _ hbs, fun i hi => ?_, hout⟩
        cases i with
        | zero => exact hle
        | succ i => exact hin i (by omega)
      · obtain rfl := Option.some.inj h
        exact ⟨rfl, by simp, not_le.1 hle⟩
  · rintro ⟨hbs, hin, hout⟩
    refine ⟨bs.length + 1, ?_⟩
    generalize hn : bs.length = n at hbs hin hout
    subst hbs
    clear hn
    induction n generalizing cursor with
    | zero =>
      have hlt : last < cursor := hout
      rw [bucketsFrom_succ, if_neg (not_le.2 hlt)]
      rfl
    | succ n ih =>
      have hle : cursor ≤ last := hin 0 (Nat.succ_pos n)
      rw [bucketsFrom_succ, if_pos hle, ih (fun i hi => hin (i + 1) (by omega)) hout,
        List.range_succ_eq_map, List.map_cons, List.map_map]
      rfl

/-! ## Where the days are cut -/

/-- The dates of a period, in order. -/
def datesBetween (fromDate toDate : CivilDate) : List CivilDate :=
  (List.range (toDate.dayNumber - fromDate.dayNumber + 1).toNat).map fun i : ℕ =>
    CivilDate.ofDay (fromDate.dayNumber + i)

/-- They are all the dates from the first to the last. -/
theorem mem_datesBetween_iff {first last c : CivilDate} :
    c ∈ datesBetween first last ↔
      first.dayNumber ≤ c.dayNumber ∧ c.dayNumber ≤ last.dayNumber := by
  unfold datesBetween
  rw [List.mem_map]
  constructor
  · rintro ⟨i, hi, rfl⟩
    have hi := List.mem_range.1 hi
    rw [CivilDate.dayNumber_ofDay]
    omega
  · rintro ⟨hfirst, hlast⟩
    refine ⟨(c.dayNumber - first.dayNumber).toNat, List.mem_range.2 (by omega), ?_⟩
    rw [show first.dayNumber + ((c.dayNumber - first.dayNumber).toNat : ℤ) = c.dayNumber by omega]
    exact CivilDate.ofDay_dayNumber c

theorem datesBetween_increasing (first last : CivilDate) :
    (datesBetween first last).Pairwise fun c d => c.dayNumber < d.dayNumber := by
  unfold datesBetween
  refine List.pairwise_map.2 (List.Pairwise.imp (fun {i j} hlt => ?_) List.pairwise_lt_range)
  rw [CivilDate.dayNumber_ofDay, CivilDate.dayNumber_ofDay]
  omega

/-- The days of a report, and the buckets they are counted into, are cut at the first instants of the
dates. -/
structure CutAtDates (z : Zone) (fromDate toDate : DateInput) (days : List DayUsage)
    (bs : List Bucket) : Prop where
  dates : days.map DayUsage.date = datesBetween fromDate.toCivilDate toDate.toCivilDate
  begins : List.Forall₂ (fun (date : CivilDate) bucket => z.Begins date.dayNumber bucket.dayStart)
    (datesBetween fromDate.toCivilDate toDate.toCivilDate) bs
  consecutive : bs.IsChain fun a b => a.dayEnd = b.dayStart
  nonempty : ∀ bucket ∈ bs, bucket.dayStart < bucket.dayEnd
  starts : bs.head?.map Bucket.dayStart = some (toInstantRange z fromDate toDate).1
  ends : bs.getLast?.map Bucket.dayEnd = some (toInstantRange z fromDate toDate).2

/-- The range of a period ends where that of a period from the next date on starts. -/
def AdjacentAfter (z : Zone) (fromDate toDate : DateInput) : Prop :=
  ∀ next toNext : DateInput, next.dayNumber = toDate.dayNumber + 1 →
    (toInstantRange z fromDate toDate).2 = (toInstantRange z next toNext).1

/-- `dailyUsage` returns, with its days cut at the first instants of the dates. -/
def CutsDays (z : Zone) (sessions : List ReportedSession) (fromDate toDate : DateInput) : Prop :=
  (∃ fuel days bs, dailyUsage z fuel sessions fromDate toDate = some days ∧
    buckets z fuel fromDate toDate = some bs ∧ CutAtDates z fromDate toDate days bs) ∧
  AdjacentAfter z fromDate toDate

/-! ## Local midnights -/

theorem localMidnight_of_le {value : DateInput} (h : 100 ≤ value.year) (z : Zone) :
    localMidnight z value = z.utc (value.dayNumber * msPerDay) := by
  unfold localMidnight newDate fullYear
  rw [if_neg (by omega)]
  rfl

/-- The midnight of a date in the years 0 to 99 is that of a date 1900 years later. -/
theorem localMidnight_of_lt {value : DateInput} (h : value.year < 100) (z : Zone) :
    ∃ n, value.dayNumber < n ∧ localMidnight z value = z.utc (n * msPerDay) := by
  have hnonneg := value.year_nonneg
  refine ⟨makeDay (1900 + value.year) (value.month - 1) value.day, ?_, ?_⟩
  · have hleap := leapDay_cases value.year
    have hbefore := daysBefore_mono value.year (show value.month - 1 ≤ 12 by
      have := value.month_le
      omega)
    have hafter := daysBefore_mono (1900 + value.year) (Nat.zero_le (value.month - 1))
    rw [daysBefore_twelve] at hbefore
    rw [daysBefore_zero] at hafter
    unfold CivilDate.dayNumber makeDay dayFromYear
    omega
  · unfold localMidnight newDate fullYear
    rw [if_pos ⟨hnonneg, by omega⟩]

theorem toInstantRange_snd (z : Zone) (fromDate toDate : DateInput) :
    (toInstantRange z fromDate toDate).2 = z.nextDay (localMidnight z toDate) :=
  setDate_getDate_add_one z _

/-- The date after another, for an input. -/
def DateInput.succ (date : DateInput) : DateInput :=
  { CivilDate.ofDay (date.dayNumber + 1) with
    year_nonneg := by
      refine date.year_nonneg.trans (CivilDate.year_le_of_dayNumber_le ?_)
      rw [CivilDate.dayNumber_ofDay]
      omega }

theorem DateInput.dayNumber_succ (date : DateInput) : date.succ.dayNumber = date.dayNumber + 1 :=
  CivilDate.dayNumber_ofDay _

variable {z : Zone} {sessions : List ReportedSession} {fromDate toDate : DateInput}

theorem adjacentAfter_iff (hyear : 100 ≤ toDate.year) :
    AdjacentAfter z fromDate toDate ↔
      z.nextDay (z.utc (toDate.dayNumber * msPerDay)) =
        z.utc ((toDate.dayNumber + 1) * msPerDay) := by
  have hnext : ∀ next : DateInput, next.dayNumber = toDate.dayNumber + 1 →
      localMidnight z next = z.utc ((toDate.dayNumber + 1) * msPerDay) := by
    intro next h
    rw [← h]
    refine localMidnight_of_le (hyear.trans (CivilDate.year_le_of_dayNumber_le ?_)) z
    omega
  unfold AdjacentAfter
  rw [toInstantRange_snd, localMidnight_of_le hyear]
  constructor
  · intro h
    have := h toDate.succ toDate.succ toDate.dayNumber_succ
    rwa [toInstantRange, hnext _ toDate.dayNumber_succ] at this
  · intro h next toNext hn
    rw [toInstantRange, hnext _ hn]
    exact h

/-! ## The cuts are right just when the time of day that is carried is -/

/-- Where the cursor is after so many turns. -/
def cursorAt (z : Zone) (fromDate : DateInput) (i : ℕ) : ℤ :=
  z.nextDay^[i] (localMidnight z fromDate)

theorem nextDay_cursorAt (i : ℕ) : z.nextDay (cursorAt z fromDate i) = cursorAt z fromDate (i + 1) :=
  (Function.iterate_succ_apply' z.nextDay i _).symm

/-- The buckets of the first `n` turns. -/
def firstBuckets (z : Zone) (fromDate : DateInput) (n : ℕ) : List Bucket :=
  (List.range n).map fun i => bucketAt z (cursorAt z fromDate i)

@[simp] theorem length_firstBuckets (n : ℕ) : (firstBuckets z fromDate n).length = n := by
  simp [firstBuckets]

/-- The loop returns after `n` turns when these are what it takes to be past the last midnight. -/
theorem exists_buckets_iff {bs : List Bucket} :
    (∃ fuel, buckets z fuel fromDate toDate = some bs) ↔
      bs = firstBuckets z fromDate bs.length ∧
        (∀ i < bs.length, cursorAt z fromDate i ≤ localMidnight z toDate) ∧
          localMidnight z toDate < cursorAt z fromDate bs.length :=
  exists_bucketsFrom_iff

theorem datesBetween_eq {n : ℕ} (hn : toDate.dayNumber = fromDate.dayNumber + n) :
    datesBetween fromDate.toCivilDate toDate.toCivilDate =
      (List.range (n + 1)).map fun i : ℕ => CivilDate.ofDay (fromDate.dayNumber + i) := by
  unfold datesBetween
  rw [show (toDate.dayNumber - fromDate.dayNumber + 1).toNat = n + 1 by omega]

theorem begins_firstBuckets_iff {n : ℕ} (hn : toDate.dayNumber = fromDate.dayNumber + n) :
    List.Forall₂ (fun (date : CivilDate) bucket => z.Begins date.dayNumber bucket.dayStart)
        (datesBetween fromDate.toCivilDate toDate.toCivilDate) (firstBuckets z fromDate (n + 1)) ↔
      ∀ i ≤ n, z.Begins (fromDate.dayNumber + i) (cursorAt z fromDate i) := by
  rw [datesBetween_eq hn, firstBuckets, List.forall₂_map_left_iff, List.forall₂_map_right_iff,
    List.forall₂_same]
  simp only [List.mem_range, CivilDate.dayNumber_ofDay, Nat.lt_succ_iff]
  exact Iff.rfl

@[simp] theorem head?_firstBuckets (n : ℕ) :
    (firstBuckets z fromDate (n + 1)).head?.map Bucket.dayStart = some (localMidnight z fromDate) := by
  simp [firstBuckets, List.range_succ_eq_map, bucketAt, cursorAt]

@[simp] theorem getLast?_firstBuckets (n : ℕ) :
    (firstBuckets z fromDate (n + 1)).getLast?.map Bucket.dayEnd =
      some (cursorAt z fromDate (n + 1)) := by
  simp [firstBuckets, List.range_succ, bucketAt, nextDay_cursorAt]

/-- Buckets that begin with their dates are cut at the dates, if they end with the range. -/
theorem cutAtDates_firstBuckets {n : ℕ} (hn : toDate.dayNumber = fromDate.dayNumber + n)
    (hbegins : ∀ i ≤ n, z.Begins (fromDate.dayNumber + i) (cursorAt z fromDate i))
    (hends : cursorAt z fromDate (n + 1) = z.nextDay (localMidnight z toDate)) :
    CutAtDates z fromDate toDate ((firstBuckets z fromDate (n + 1)).map (dayUsage z sessions))
      (firstBuckets z fromDate (n + 1)) where
  dates := by
    rw [datesBetween_eq hn, firstBuckets, List.map_map, List.map_map]
    refine List.map_congr_left fun i hi => ?_
    have hi : i ≤ n := Nat.lt_succ_iff.1 (List.mem_range.1 hi)
    exact congrArg CivilDate.ofDay (hbegins i hi).1
  begins := (begins_firstBuckets_iff hn).2 hbegins
  consecutive := by
    rw [firstBuckets, List.isChain_map, List.isChain_range_succ]
    exact fun i _ => nextDay_cursorAt i
  nonempty := by
    intro bucket hmem
    obtain ⟨i, hi, rfl⟩ := List.mem_map.1 hmem
    have hi : i ≤ n := Nat.lt_succ_iff.1 (List.mem_range.1 hi)
    exact (hbegins i hi).lt_nextDay
  starts := head?_firstBuckets n
  ends := by rw [getLast?_firstBuckets, toInstantRange_snd, hends]

theorem cutsDays_of_carries (hle : fromDate.dayNumber ≤ toDate.dayNumber)
    (hyear : 100 ≤ fromDate.year) (hc : z.Carries fromDate.dayNumber toDate.dayNumber) :
    CutsDays z sessions fromDate toDate := by
  have hyear' : 100 ≤ toDate.year := hyear.trans (CivilDate.year_le_of_dayNumber_le hle)
  have hfrom := localMidnight_of_le hyear z
  have hto := localMidnight_of_le hyear' z
  obtain ⟨n, hn⟩ : ∃ n : ℕ, toDate.dayNumber = fromDate.dayNumber + n :=
    ⟨(toDate.dayNumber - fromDate.dayNumber).toNat, by omega⟩
  have hbegins : ∀ i ≤ n, z.Begins (fromDate.dayNumber + i) (cursorAt z fromDate i) := by
    intro i hi
    unfold cursorAt
    rw [hfrom]
    exact hc.begins_iterate i (by omega)
  have hlast : z.Begins toDate.dayNumber (cursorAt z fromDate n) := by
    rw [hn]
    exact hbegins n le_rfl
  have hend : cursorAt z fromDate (n + 1) = z.utc ((toDate.dayNumber + 1) * msPerDay) := by
    rw [← nextDay_cursorAt, hc.last _ hlast]
  have hends : cursorAt z fromDate (n + 1) = z.nextDay (localMidnight z toDate) := by
    rw [hend, hto, hc.adjacent]
  obtain ⟨fuel, hbs⟩ : ∃ fuel, buckets z fuel fromDate toDate =
      some (firstBuckets z fromDate (n + 1)) := by
    rw [exists_buckets_iff, length_firstBuckets]
    refine ⟨rfl, fun i hi => ?_, ?_⟩
    · rw [hto]
      refine le_trans ?_ (hc.reached _ hlast)
      refine (hbegins i (by omega)).le_of_le_day ?_
      rw [hlast.1]
      omega
    · rw [hto, hend]
      exact hc.passed
  have hdays : dailyUsage z fuel sessions fromDate toDate =
      some ((firstBuckets z fromDate (n + 1)).map (dayUsage z sessions)) := by
    rw [dailyUsage, hbs]
    rfl
  exact ⟨⟨fuel, _, _, hdays, hbs, cutAtDates_firstBuckets hn hbegins hends⟩,
    (adjacentAfter_iff hyear').2 hc.adjacent⟩

/-- The first bucket of a period from a date in the years 0 to 99 begins too late. -/
theorem year_le_of_begins (h : z.Begins fromDate.dayNumber (localMidnight z fromDate)) :
    100 ≤ fromDate.year := by
  by_contra hlt
  obtain ⟨n, hn, hfrom⟩ := localMidnight_of_lt (not_le.1 hlt) z
  have hlocal : z.localTime (localMidnight z fromDate) < n * msPerDay := by
    refine h.lt_next_midnight.trans_le ?_
    unfold msPerDay
    omega
  have := h.lt_utc hlocal
  rw [← hfrom] at this
  exact lt_irrefl _ this

theorem carries_of_cutsDays (hle : fromDate.dayNumber ≤ toDate.dayNumber)
    (h : CutsDays z sessions fromDate toDate) :
    100 ≤ fromDate.year ∧ z.Carries fromDate.dayNumber toDate.dayNumber := by
  obtain ⟨⟨fuel, days, bs, -, hbs, hcut⟩, hadjacent⟩ := h
  obtain ⟨n, hn⟩ : ∃ n : ℕ, toDate.dayNumber = fromDate.dayNumber + n :=
    ⟨(toDate.dayNumber - fromDate.dayNumber).toNat, by omega⟩
  obtain ⟨hfirst, hin, hout⟩ := exists_buckets_iff.1 ⟨fuel, hbs⟩
  have hlen : bs.length = n + 1 := by
    rw [← hcut.begins.length_eq, datesBetween_eq hn, List.length_map, List.length_range]
  rw [hlen] at hfirst hin hout
  have hbegins : ∀ i ≤ n, z.Begins (fromDate.dayNumber + i) (cursorAt z fromDate i) := by
    rw [← begins_firstBuckets_iff hn, ← hfirst]
    exact hcut.begins
  have hstart : z.Begins fromDate.dayNumber (localMidnight z fromDate) := by
    simpa [cursorAt] using hbegins 0 (Nat.zero_le n)
  have hyear := year_le_of_begins hstart
  have hyear' : 100 ≤ toDate.year := hyear.trans (CivilDate.year_le_of_dayNumber_le hle)
  have hto := localMidnight_of_le hyear' z
  have hadj := (adjacentAfter_iff hyear').1 hadjacent
  have hlast : z.Begins toDate.dayNumber (cursorAt z fromDate n) := by
    rw [hn]
    exact hbegins n le_rfl
  have hends : cursorAt z fromDate (n + 1) = z.utc ((toDate.dayNumber + 1) * msPerDay) := by
    have := hcut.ends
    rw [hfirst, getLast?_firstBuckets, toInstantRange_snd, hto, hadj] at this
    exact Option.some.inj this
  refine ⟨hyear, ?_, fun k t hk hkm ht => ?_, fun t ht => ?_, fun t ht => ?_, ?_, hadj⟩
  · rw [← localMidnight_of_le hyear z]
    exact hstart
  · obtain ⟨i, rfl⟩ : ∃ i : ℕ, k = fromDate.dayNumber + i := ⟨(k - fromDate.dayNumber).toNat, by omega⟩
    rw [ht.unique (hbegins i (by omega)), nextDay_cursorAt]
    have := hbegins (i + 1) (by omega)
    rwa [Nat.cast_succ, ← add_assoc] at this
  · rw [ht.unique hlast, nextDay_cursorAt, hends]
  · rw [ht.unique hlast, ← hto]
    exact hin n (Nat.lt_succ_self n)
  · rw [← hto, ← hends]
    exact hout

/-- In every zone that skips no date, the days are cut at the first instants of the dates exactly when
the period begins after the year 99 and all its dates begin at their midnights, or the clock goes on
skipping midnights from the first that does not; this takes a skipped midnight right after the period
as well. -/
theorem cutsDays_iff (z : Zone) (sessions : List ReportedSession) {fromDate toDate : DateInput}
    (hle : fromDate.dayNumber ≤ toDate.dayNumber) :
    (CutsDays z sessions fromDate toDate ↔
      100 ≤ fromDate.year ∧ (z.AtMidnights fromDate.dayNumber toDate.dayNumber ∨
        z.SkipsOn fromDate.dayNumber toDate.dayNumber)) ∧
      (z.BeginsAtMidnight (toDate.dayNumber + 1) →
        ¬ z.SkipsOn fromDate.dayNumber toDate.dayNumber) := by
  refine ⟨?_, Zone.not_skipsOn⟩
  rw [← Zone.carries_iff hle]
  exact ⟨carries_of_cutsDays hle, fun h => cutsDays_of_carries hle h.1 h.2⟩

/-- A day of November 2018. -/
def november (day : ℤ) (hpos : 0 < day) (hle : day ≤ 30) : DateInput where
  year := 2018
  month := 11
  day := day
  month_pos := by decide
  month_le := by decide
  day_pos := hpos
  day_le := by
    change 304 + 0 + day ≤ 334 + 0
    omega
  year_nonneg := by decide

theorem november_dayNumber {day : ℤ} (hpos : 0 < day) (hle : day ≤ 30) :
    (november day hpos hle).dayNumber = 17835 + day := by
  change 17532 + (304 + 0) + day - 1 = _
  omega

/-- A clock that goes from midnight to one o'clock on 4 November 2018. -/
def saoPaulo : Zone where
  offset t := if t < 1541300400000 then -10800000 else -7200000
  bound := 10800000
  neg_bound_le t := by split_ifs <;> omega
  le_bound t := by split_ifs <;> omega
  no_date_skipped t := by
    unfold msPerDay
    split_ifs <;> omega

/-- Only the day of the change has no midnight. -/
theorem saoPaulo_beginsAtMidnight {n : ℤ} (h : n ≠ 17839) : saoPaulo.BeginsAtMidnight n := by
  refine ⟨n * 86400000 + if n < 17839 then 10800000 else 7200000, ⟨?_, fun s hs => ?_⟩, ?_⟩
  · simp only [Zone.day, Zone.localTime, saoPaulo, msPerDay]
    split_ifs <;> omega
  · simp only [Zone.day, Zone.localTime, saoPaulo, msPerDay]
    split_ifs at hs ⊢ <;> omega
  · simp only [Zone.localTime, saoPaulo, msPerDay]
    split_ifs <;> omega

/-- The last two days before the change. -/
theorem cutsDays_iff_november :
    CutsDays saoPaulo [] (november 2 (by decide) (by decide)) (november 3 (by decide) (by decide)) := by
  refine (cutsDays_iff saoPaulo [] ?_).1.2 ⟨by decide, Or.inl fun n _ hn => ?_⟩
  · rw [november_dayNumber, november_dayNumber]
    decide
  · rw [november_dayNumber] at hn
    exact saoPaulo_beginsAtMidnight (by omega)

/-- The day of the change and the one after it: the cursor starts at one o'clock on the 4th, and with
that time of day it is past the midnight of the 5th on the next turn. -/
theorem skippedMidnight_not_cutsDays :
    ¬ CutsDays saoPaulo [] (november 4 (by decide) (by decide))
      (november 5 (by decide) (by decide)) := by
  intro h
  have hle : (november 4 (by decide) (by decide)).dayNumber ≤
      (november 5 (by decide) (by decide)).dayNumber := by
    rw [november_dayNumber, november_dayNumber]
    decide
  have hc := (carries_of_cutsDays hle h).2
  rw [november_dayNumber, november_dayNumber] at hc
  obtain ⟨t, -, ht⟩ :=
    hc.beginsAtMidnight (saoPaulo_beginsAtMidnight (by decide)) 1 (by decide)
  simp only [Zone.localTime, saoPaulo, msPerDay] at ht
  split_ifs at ht <;> omega

end Taymna.Web
