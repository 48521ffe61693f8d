import Taymna.Api.Usage
import Taymna.Text.Csv
import Taymna.Text.Number
import Taymna.Text.Quoted

/-!
# The CSV export (`web/src/components/usage-report.tsx`)

`buildCsv` puts a report into a file with one row for each machine.  A field is quoted only where it
has a character of the format in it (`escapeCsv`), and whatever the names of the machines are, the
file has one reading, which is the report (`buildCsv_lossless`).  The columns that a spreadsheet
sums are never quoted (`escapeCsv_decimalHours`, `escapeCsv_sessionCount`).
-/

namespace Taymna.Web

open Api (MachineUsage Platform)
open Csv Number Text

/-- A platform as it comes from the API. -/
def platformText : Platform → String
  | .windows => "WINDOWS"
  | .linux => "LINUX"
  | .macos => "MACOS"

/-- What the export reads of a report; its instants are ISO texts. -/
structure UsageReport where
  «from» : String
  «to» : String
  machines : List MachineUsage
deriving DecidableEq, Repr

/-- `(seconds / 3600).toFixed(2)`; the quotient is a double. -/
def decimalHours (seconds : ℚ) : String := toFixed (toDouble (seconds / 3600)) 2

/-- `escapeCsv`: a field is quoted where it has to be. -/
def escapeCsv (value : String) : String :=
  if value.toList.any fun c => c ∈ ['\"', ',', '\r', '\n'] then
    "\"" ++ replace value "\"" "\"\"" ++ "\""
  else value

/-- The rows before they are put into a text. -/
def csvRows (report : UsageReport) : List (List String) :=
  ["Machine", "Platform", "Hours", "Sessions", "From", "To"] ::
    report.machines.map fun machine =>
      [machine.name, platformText machine.platform, decimalHours machine.usedSeconds,
        toString machine.sessionCount, report.from, report.to]

/-- `buildCsv`: lines end in CR and LF. -/
def buildCsv (report : UsageReport) : String :=
  "\r\n".intercalate ((csvRows report).map fun row => ",".intercalate (row.map escapeCsv))

/-! ## Fields -/

theorem escaped_double (s : List Char) : Escaped (double '\"' s) s := by
  induction s with
  | nil => exact .nil
  | cons c s ih =>
    by_cases hc : c = '\"'
    · subst hc
      rw [double_cons_self]
      exact .quote ih
    · rw [double_cons hc]
      exact .char hc ih

theorem isText_eq_not_mem (c : Char) : isText c = !decide (c ∈ ['\"', ',', '\r', '\n']) := by
  simp [isText]

theorem escapeCsv_of_isText {value : String} (h : ∀ c ∈ value.toList, isText c = true) :
    escapeCsv value = value := by
  refine if_neg ?_
  rw [List.any_eq_true]
  rintro ⟨c, hc, hmem⟩
  have htext := h c hc
  rw [isText_eq_not_mem, hmem] at htext
  cases htext

/-- A field stands for its value. -/
theorem isField_escapeCsv (value : String) :
    IsField (escapeCsv value).toList value.toList := by
  by_cases h : (value.toList.any fun c => c ∈ ['\"', ',', '\r', '\n']) = true
  · have hquote : "\"".toList = ['\"'] := by decide
    have hquotes : "\"\"".toList = ['\"', '\"'] := by decide
    have hdouble : (replace value "\"" "\"\"").toList = double '\"' value.toList := by
      rw [toList_replace, hquote, hquotes, replaceAll_singleton]
      rfl
    unfold escapeCsv
    rw [if_pos h, String.toList_append, String.toList_append, hquote, hdouble]
    exact .escaped (escaped_double value.toList)
  · have htext : ∀ c ∈ value.toList, isText c = true := by
      intro c hc
      rw [isText_eq_not_mem, Bool.not_eq_true', Bool.eq_false_iff]
      exact fun hmem => h (List.any_eq_true.2 ⟨c, hc, hmem⟩)
    rw [escapeCsv_of_isText htext]
    exact .plain htext

example : escapeCsv "a\"b,c" = "\"a\"\"b,c\"" := by decide

theorem isText_of_isNumeral {c : Char} (h : isNumeral c = true) : isText c = true := by
  rw [isText_iff]
  refine ⟨?_, ?_, ?_, ?_⟩ <;>
  · rintro rfl
    revert h
    decide

/-- Hours and sessions stand as they are. -/
theorem escapeCsv_decimalHours (seconds : ℚ) :
    escapeCsv (decimalHours seconds) = decimalHours seconds :=
  escapeCsv_of_isText fun c hc => isText_of_isNumeral (isNumeral_of_mem_toFixed _ _ c hc)

theorem escapeCsv_sessionCount (sessionCount : ℕ) :
    escapeCsv (toString sessionCount) = toString sessionCount := by
  refine escapeCsv_of_isText fun c hc => isText_of_isNumeral ?_
  rw [Nat.toString_eq_repr, Nat.toList_repr] at hc
  exact isNumeral_of_mem_toDigits hc

/-! ## Rows -/

theorem isRecord_row {row : List String} (h : row ≠ []) :
    IsRecord (",".intercalate (row.map escapeCsv)).toList (row.map String.toList) := by
  have hcomma : ",".toList = [','] := by decide
  rw [String.toList_intercalate, hcomma, List.map_map]
  refine isRecord_intercalate ?_ (by simpa using h)
  rw [List.forall₂_map_left_iff, List.forall₂_map_right_iff, List.forall₂_same]
  exact fun value _ => isField_escapeCsv value

theorem isRecords_rows {rows : List (List String)} (hrows : rows ≠ [])
    (h : ∀ row ∈ rows, row ≠ []) :
    IsRecords ("\r\n".intercalate (rows.map fun row => ",".intercalate (row.map escapeCsv))).toList
      (rows.map fun row => row.map String.toList) := by
  have hbreak : "\r\n".toList = ['\r', '\n'] := by decide
  rw [String.toList_intercalate, hbreak, List.map_map]
  refine isRecords_intercalate ?_ (by simpa using hrows)
  rw [List.forall₂_map_left_iff, List.forall₂_map_right_iff, List.forall₂_same]
  exact fun row hrow => isRecord_row (h row hrow)

theorem length_of_mem_csvRows {report : UsageReport} {row : List String}
    (h : row ∈ csvRows report) : row.length = 6 := by
  rcases List.mem_cons.1 h with rfl | h
  · rfl
  · obtain ⟨machine, -, rfl⟩ := List.mem_map.1 h
    rfl

/-- The export is lossless: a reader finds the header and one row of six fields for each
machine, each field as it was, and the grammar allows no other reading of the text. -/
theorem buildCsv_lossless (report : UsageReport) :
    let rows := ["Machine", "Platform", "Hours", "Sessions", "From", "To"] ::
      report.machines.map fun machine =>
        [machine.name, platformText machine.platform, decimalHours machine.usedSeconds,
          toString machine.sessionCount, report.from, report.to]
    readText (buildCsv report) = some rows ∧ (∀ row ∈ rows, row.length = 6) ∧
      ∀ rows', IsFile (buildCsv report).toList rows' ↔
        rows' = rows.map fun row => row.map String.toList := by
  intro rows
  have hlength : ∀ row ∈ rows, row.length = 6 := fun row hrow => length_of_mem_csvRows hrow
  have hrecords : IsRecords (buildCsv report).toList
      (rows.map fun row => row.map String.toList) := by
    refine isRecords_rows (List.cons_ne_nil _ _) fun row hrow => ?_
    rintro rfl
    cases hlength [] hrow
  have hlone : ∀ r ∈ rows.map fun row => row.map String.toList, r ≠ [[]] := by
    intro r hr
    obtain ⟨row, hrow, rfl⟩ := List.mem_map.1 hr
    intro heq
    have hone := congrArg List.length heq
    rw [List.length_map, hlength row hrow] at hone
    cases hone
  have hread : read (buildCsv report).toList =
      some (rows.map fun row => row.map String.toList) :=
    read_eq_some_iff.2 (.inl ⟨hrecords, hrecords.getLast?_ne hlone⟩)
  exact ⟨readText_eq hread, hlength, fun rows' => hrecords.isFile_iff hlone⟩

end Taymna.Web
