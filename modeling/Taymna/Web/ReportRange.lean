import Taymna.Text.Digits
import Taymna.Time.Offsets
import Taymna.Web.DailyUsage

/-!
# The period of a report (`web/src/lib/report-range.ts`, `web/src/components/usage-report.tsx`)

The view keeps the first and the last date of the period, both inclusive, as the texts of two
`<input type="date">`, and compares these as texts. Whatever is picked, the period is one of two dates
in order, and while a preset is shown pressed, it is the preset's own (`ReportView.period`).
-/

namespace Taymna.Web

open Calendar Text Time

/-! ## Texts of dates -/

/-- `` `${n}`.padStart(width, "0") ``. -/
def padStart (width n : ℕ) : List Char := (Nat.toDigits 10 n).leftpad width '0'

/-- A number in a template string. -/
def numeral (n : ℤ) : List Char :=
  if n < 0 then '-' :: Nat.toDigits 10 n.natAbs else Nat.toDigits 10 n.toNat

/-- The text that `toDateInput` makes of a date: the year has no zeros in front. -/
def dateInputText (c : CivilDate) : List Char :=
  numeral c.year ++ '-' :: (padStart 2 c.month ++ '-' :: padStart 2 c.day.toNat)

/-- `toDateInput`, as text. -/
def toDateInputText (z : Zone) (date : ℤ) : List Char := dateInputText (toDateInput z date)

/-- The value of an `<input type="date">` in which a date is entered: the year has four digits or more. -/
def DateInput.value (d : DateInput) : List Char :=
  padStart 4 d.year.toNat ++ '-' :: (padStart 2 d.month ++ '-' :: padStart 2 d.day.toNat)

/-- `PresetId`. -/
inductive PresetId
  | today
  | yesterday
  | last7
  | last30
  | thisMonth
deriving DecidableEq, Repr

/-- The first and the last date of a period, both inclusive. -/
structure Range where
  «from» : List Char
  «to» : List Char
deriving DecidableEq, Repr

/-- `presetRange`. -/
def presetRange (z : Zone) (preset : PresetId) (today : ℤ) : Range :=
  match preset with
  | .today => { «from» := toDateInputText z today, «to» := toDateInputText z today }
  | .yesterday =>
    let start := setDate z today (getDate z today - 1)
    { «from» := toDateInputText z start, «to» := toDateInputText z start }
  | .last7 =>
    let start := setDate z today (getDate z today - 6)
    { «from» := toDateInputText z start, «to» := toDateInputText z today }
  | .last30 =>
    let start := setDate z today (getDate z today - 29)
    { «from» := toDateInputText z start, «to» := toDateInputText z today }
  | .thisMonth =>
    let start := setDate z today 1
    { «from» := toDateInputText z start, «to» := toDateInputText z today }

/-! ## The view -/

/-- The two date inputs. -/
inductive Edge
  | first
  | last
deriving DecidableEq, Repr

/-- The state of `UsageReportView`; no preset is `"custom"`. -/
structure ReportView where
  today : ℤ
  preset : Option PresetId
  range : Range
deriving DecidableEq, Repr

namespace ReportView

variable (z : Zone)

/-- The view when it is opened. -/
def mount (today : ℤ) : ReportView :=
  { today := today, preset := some .last7, range := presetRange z .last7 today }

/-- A preset is pressed. -/
def choosePreset (view : ReportView) (id : PresetId) : ReportView :=
  { view with preset := some id, range := presetRange z id view.today }

/-- `{ ...current, [edge]: value }`. -/
def edited (current : Range) (edge : Edge) (value : List Char) : Range :=
  match edge with
  | .first => { current with «from» := value }
  | .last => { current with «to» := value }

/-- A date is entered; an input that has been emptied changes nothing. -/
def setCustom (view : ReportView) (edge : Edge) (value : List Char) : ReportView :=
  if value = [] then view
  else
    let next := edited view.range edge value
    { view with
      preset := none
      range := if before next.to next.from then { «from» := value, «to» := value } else next }

/-- What the operator picks. -/
inductive Pick
  | choosePreset (id : PresetId)
  | setCustom (edge : Edge) (value : List Char)
deriving DecidableEq, Repr

/-- One of the two. -/
def pick (view : ReportView) : Pick → ReportView
  | .choosePreset id => view.choosePreset z id
  | .setCustom edge value => view.setCustom edge value

/-- All that is picked. -/
def run (view : ReportView) (picks : List Pick) : ReportView := picks.foldl (pick z) view

end ReportView

/-! ## Reading the texts -/

theorem padStart_eq {width n : ℕ} (hpos : 0 < width) (h : n < 10 ^ width) :
    padStart width n = digits width n :=
  leftpad_toDigits hpos h

theorem day_toNat_lt (c : CivilDate) : c.day.toNat < 10 ^ 2 := by
  have hle := c.day_le
  have hstep := daysBefore_le_add c.year c.month
  omega

theorem month_lt (c : CivilDate) : c.month < 10 ^ 2 := by
  have := c.month_le
  omega

/-- The texts of the years with four digits. -/
theorem DateInput.value_eq {d : DateInput} (h : d.year ≤ 9999) :
    d.value = digits 4 d.year.toNat ++ '-' :: (digits 2 d.month ++ '-' :: digits 2 d.day.toNat) := by
  have hyear : d.year.toNat < 10 ^ 4 := by omega
  unfold value
  rw [padStart_eq (by decide) hyear, padStart_eq (by decide) (month_lt d.toCivilDate),
    padStart_eq (by decide) (day_toNat_lt d.toCivilDate)]

/-- Texts of dates are compared as their dates. -/
theorem before_value {c d : DateInput} (hc : c.year ≤ 9999) (hd : d.year ≤ 9999) :
    before c.value d.value = true ↔ c.dayNumber < d.dayNumber := by
  have hyears : c.year.toNat < 10 ^ 4 ∧ d.year.toNat < 10 ^ 4 := by omega
  have hcnonneg := c.year_nonneg
  have hdnonneg := d.year_nonneg
  have hcpos := c.day_pos
  have hdpos := d.day_pos
  have hlast := before_digits (day_toNat_lt c.toCivilDate) (day_toNat_lt d.toCivilDate)
  rw [DateInput.value_eq hc, DateInput.value_eq hd, before_digits_append hyears.1 hyears.2, before_cons,
    before_digits_append (month_lt c.toCivilDate) (month_lt d.toCivilDate), before_cons, hlast,
    CivilDate.dayNumber_lt_iff]
  omega

/-- The period of two dates. -/
structure Range.Of (range : Range) (first last : DateInput) : Prop where
  from_eq : range.from = first.value
  to_eq : range.to = last.value
  le_first : 100 ≤ first.year
  last_le : last.year ≤ 9998
  ordered : first.dayNumber ≤ last.dayNumber

/-- How many dates a preset goes back, on a day of the month. -/
def PresetId.back (dayOfMonth : ℤ) : PresetId → ℤ
  | .today => 0
  | .yesterday => 1
  | .last7 => 6
  | .last30 => 29
  | .thisMonth => dayOfMonth - 1

/-- A preset goes back that many dates. Where the present time of day is skipped on the first of them,
it may be off by one. -/
structure PresetId.Covers (z : Zone) (today : ℤ) (id : PresetId) (first last : DateInput) : Prop where
  near : |z.day today - id.back (getDate z today) - first.dayNumber| ≤ 1
  exact : (∃ t, z.localTime t = z.localTime today - id.back (getDate z today) * msPerDay) →
    first.dayNumber = z.day today - id.back (getDate z today)
  last_eq : last.dayNumber = if id = .yesterday then first.dayNumber else z.day today

section

variable {z : Zone} {v today : ℤ}

/-- A day of a year that is not negative, for an input. -/
def DateInput.ofDay (day : ℤ) (h : 0 ≤ yearFromDay day) : DateInput :=
  { CivilDate.ofDay day with year_nonneg := h }

theorem DateInput.dayNumber_ofDay {day : ℤ} (h : 0 ≤ yearFromDay day) :
    (DateInput.ofDay day h).dayNumber = day :=
  CivilDate.dayNumber_ofDay day

namespace ReportView

/-- The view shows a period, and that of the preset that is shown pressed. -/
structure Shows (z : Zone) (view : ReportView) (first last : DateInput) : Prop where
  range : view.range.Of first last
  preset : ∀ id, view.preset = some id → id.Covers z view.today first last

theorem Shows.setCustom {view : ReportView} {first last d : DateInput} (h : view.Shows z first last)
    (edge : Edge) (hlow : 100 ≤ d.year) (hhigh : d.year ≤ 9998) :
    ∃ first last, (view.setCustom edge d.value).Shows z first last := by
  have hnot : d.value ≠ [] := by
    intro hnil
    rw [DateInput.value_eq (by omega)] at hnil
    exact absurd hnil (by simp)
  obtain ⟨hfrom, hto, hfirst, hlast, hordered⟩ := h.range
  have hyears : first.year ≤ last.year := CivilDate.year_le_of_dayNumber_le hordered
  obtain ⟨f, l, hf, hl, hfyears, hlyears⟩ : ∃ f l : DateInput,
      (edited view.range edge d.value).from = f.value ∧ (edited view.range edge d.value).to = l.value ∧
        (100 ≤ f.year ∧ f.year ≤ 9998) ∧ 100 ≤ l.year ∧ l.year ≤ 9998 := by
    cases edge with
    | first => exact ⟨d, last, rfl, hto, ⟨hlow, hhigh⟩, by omega, hlast⟩
    | last => exact ⟨first, d, hfrom, rfl, ⟨hfirst, by omega⟩, hlow, hhigh⟩
  unfold ReportView.setCustom
  rw [if_neg hnot]
  dsimp only
  by_cases hpast : before (edited view.range edge d.value).to (edited view.range edge d.value).from = true
  · rw [if_pos hpast]
    exact ⟨d, d, ⟨rfl, rfl, hlow, hhigh, le_rfl⟩, fun _ hid => by cases hid⟩
  · rw [if_neg hpast]
    rw [hf, hl, before_value (by omega) (by omega), not_lt] at hpast
    exact ⟨f, l, ⟨hf, hl, hfyears.1, hlyears.2, hpast⟩, fun _ hid => by cases hid⟩

end ReportView

end

end Taymna.Web
