import Taymna.Api.SessionRows
import Taymna.Api.SessionTable
import Taymna.Time.Iso

/-!
# The report endpoint (`api/src/modules/reports/reports.service.ts`, `reports.controller.ts`)

A report is asked for with two instants as ISO texts. The query is validated, and `usage` refuses a
window that is empty or longer than 366 days. How `new Date` reads a text is a parameter, and so is the
validator: what the dashboard sends has the format of `toISOString`, and both take that.
-/

namespace Taymna.Api

open Time.Iso

/-- Why a report is refused. -/
inductive UsageError
  /-- `@IsISO8601()` of `UsageReportQueryDto`. -/
  | notIso8601
  | toNotAfterFrom
  | rangeTooLong
  /-- Prisma takes no `Date` that is `NaN`. -/
  | invalidDate
deriving DecidableEq, Repr

/-- The text of a `BadRequestException`; those of the others are not the service's own. -/
def UsageError.message? : UsageError → Option String
  | .toNotAfterFrom => some "`to` must be after `from`"
  | .rangeTooLong => some "Range must be 366 days or less"
  | .notIso8601 | .invalidDate => none

/-- The body of the answer (`UsageReport`). -/
structure UsageReport where
  «from» : List Char
  «to» : List Char
  totalUsedSeconds : ℚ
  machines : List MachineUsage
  sessions : List ReportedSession
deriving DecidableEq, Repr

/-- What `usage` reads from the database, and the time. -/
structure ReportInput where
  localeCompare : String → String → ℤ
  machines : List ReportedMachine
  sessions : List UsageSession
  now : ℤ

/-- The report of a window. -/
def ReportInput.report (input : ReportInput) (windowFrom windowTo : ℤ) : UsageReport :=
  let rows := ReportsService.rows .double input.localeCompare input.machines input.sessions windowFrom
    windowTo input.now
  { «from» := toISOString windowFrom
    «to» := toISOString windowTo
    totalUsedSeconds := ReportsService.totalUsedSeconds rows
    machines := rows
    sessions := ReportsService.sessions .double input.machines input.sessions windowFrom windowTo
      input.now }

namespace ReportsService

variable (parse : List Char → Option ℤ) (input : ReportInput)

/-- `usage`. Where one of the instants is `NaN`, neither comparison holds. -/
def usage (fromIso toIso : List Char) : Except UsageError UsageReport :=
  match parse fromIso, parse toIso with
  | some windowFrom, some windowTo =>
    if windowTo ≤ windowFrom then .error .toNotAfterFrom
    else if windowTo - windowFrom > maxRangeMs then .error .rangeTooLong
    else .ok (input.report windowFrom windowTo)
  | _, _ => .error .invalidDate

end ReportsService

/-- The `usage` of the controller, behind the validation of its query. -/
def ReportsController.usage (isISO8601 : List Char → Bool) (parse : List Char → Option ℤ)
    (input : ReportInput) (fromIso toIso : Option (List Char)) : Except UsageError UsageReport :=
  match fromIso, toIso with
  | some fromIso, some toIso =>
    if isISO8601 fromIso && isISO8601 toIso then ReportsService.usage parse input fromIso toIso
    else .error .notIso8601
  | _, _ => .error .notIso8601

end Taymna.Api
