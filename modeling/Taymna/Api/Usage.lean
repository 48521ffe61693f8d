import Mathlib.Data.List.Perm.Basic
import Taymna.Agent.Session
import Taymna.Number.Double

/-!
# Usage reports (`api/src/modules/reports/usage.ts`)

A machine is used while one of its sessions runs, and a report counts the seconds of its window that
fall into one. The code adds them up in doubles, and the definitions take the `Arithmetic`, so that
they can be compared with exact sums. What the loop over the sessions leaves in a row is the sum of
the machine's own seconds in their order (`foldl_addSession`), so `summarizeUsage` looks at a session
only through its machine, its start and the instant it stops to be usable.
-/

namespace Taymna.Api

open Agent (SessionStatus)
open Number (Arithmetic)

/-- A row of the query (`UsageSession`). -/
structure UsageSession where
  machineId : String
  startedAt : ℤ
  expiresAt : ℤ
  endedAt : Option ℤ
  status : SessionStatus
deriving DecidableEq, Repr

/-- `Platform`. -/
inductive Platform
  | windows
  | linux
  | macos
deriving DecidableEq, Repr

/-- A machine of the report (`ReportedMachine`). -/
structure ReportedMachine where
  id : String
  name : String
  platform : Platform
deriving DecidableEq, Repr

/-- What the report says about a machine (`MachineUsage`). -/
@[ext]
structure MachineUsage where
  machineId : String
  name : String
  platform : Platform
  usedSeconds : ℚ
  sessionCount : ℕ
deriving DecidableEq, Repr

/-- The instant a session stopped making the machine usable, or will stop. -/
def usableUntil (session : UsageSession) (now : ℤ) : ℤ :=
  let deadline := session.expiresAt
  let stop := min (session.endedAt.getD deadline) deadline
  if session.status = .active then min stop now else stop

/-- Seconds of `[start, stop)` that fall inside `[from, to)`. -/
def overlapSeconds (arithmetic : Arithmetic) (start stop windowFrom windowTo : ℤ) : ℚ :=
  let overlapMs := min stop windowTo - max start windowFrom
  if overlapMs > 0 then arithmetic.round (overlapMs / 1000) else 0

/-- `Math.round`. -/
def roundHalfUp (x : ℚ) : ℚ := ⌊x + 1 / 2⌋

/-- `Map.set` of one machine's row: a key that is there keeps its place. -/
def setRow (rows : List MachineUsage) (row : MachineUsage) : List MachineUsage :=
  if rows.any fun r => r.machineId = row.machineId then
    rows.map fun r => if r.machineId = row.machineId then row else r
  else rows ++ [row]

/-- The rows before any session has been counted. -/
def emptyRows (machines : List ReportedMachine) : List MachineUsage :=
  machines.foldl (fun rows m =>
    setRow rows { machineId := m.id, name := m.name, platform := m.platform, usedSeconds := 0,
                  sessionCount := 0 }) []

/-- What the loop does with one session. -/
def addSession (arithmetic : Arithmetic) (windowFrom windowTo now : ℤ) (rows : List MachineUsage)
    (session : UsageSession) : List MachineUsage :=
  let seconds := overlapSeconds arithmetic session.startedAt (usableUntil session now) windowFrom
    windowTo
  if seconds ≤ 0 then rows
  else
    rows.map fun row =>
      if row.machineId = session.machineId then
        { row with
          usedSeconds := arithmetic.round (row.usedSeconds + seconds)
          sessionCount := row.sessionCount + 1 }
      else row

/-- Most used first, and by name: `localeCompare` is negative when the first name comes first. -/
def usageOrder (localeCompare : String → String → ℤ) (a b : MachineUsage) : Bool :=
  b.usedSeconds < a.usedSeconds ||
    (a.usedSeconds = b.usedSeconds && localeCompare a.name b.name ≤ 0)

/-- Per-machine usage across `[from, to)`. -/
def summarizeUsage (arithmetic : Arithmetic) (localeCompare : String → String → ℤ)
    (machines : List ReportedMachine) (sessions : List UsageSession) (windowFrom windowTo now : ℤ) :
    List MachineUsage :=
  let rows := sessions.foldl (addSession arithmetic windowFrom windowTo now) (emptyRows machines)
  (rows.map fun row => { row with usedSeconds := roundHalfUp row.usedSeconds }).mergeSort
    (usageOrder localeCompare)

/-! ## The seconds of a machine -/

/-- The seconds that a machine's sessions have in the window, in the order of the sessions. -/
def overlaps (arithmetic : Arithmetic) (sessions : List UsageSession) (windowFrom windowTo now : ℤ)
    (machineId : String) : List ℚ :=
  ((sessions.filter fun session => session.machineId = machineId).map fun session =>
    overlapSeconds arithmetic session.startedAt (usableUntil session now) windowFrom windowTo).filter
      fun seconds => 0 < seconds

section

variable (arithmetic : Arithmetic) (windowFrom windowTo now : ℤ)

theorem overlaps_cons (session : UsageSession) (sessions : List UsageSession) (machineId : String) :
    overlaps arithmetic (session :: sessions) windowFrom windowTo now machineId =
      if session.machineId = machineId ∧ 0 < overlapSeconds arithmetic session.startedAt
          (usableUntil session now) windowFrom windowTo then
        overlapSeconds arithmetic session.startedAt (usableUntil session now) windowFrom windowTo ::
          overlaps arithmetic sessions windowFrom windowTo now machineId
      else overlaps arithmetic sessions windowFrom windowTo now machineId := by
  unfold overlaps
  by_cases hid : session.machineId = machineId
  · by_cases hpos : 0 < overlapSeconds arithmetic session.startedAt (usableUntil session now)
        windowFrom windowTo
    · simp [hid, hpos]
    · simp [hid, hpos]
  · simp [hid]

/-- What the loop leaves in the rows. -/
theorem foldl_addSession (sessions : List UsageSession) (rows : List MachineUsage) :
    sessions.foldl (addSession arithmetic windowFrom windowTo now) rows = rows.map fun row =>
      { row with
        usedSeconds := (overlaps arithmetic sessions windowFrom windowTo now row.machineId).foldl
          (fun total seconds => arithmetic.round (total + seconds)) row.usedSeconds
        sessionCount := row.sessionCount +
          (overlaps arithmetic sessions windowFrom windowTo now row.machineId).length } := by
  induction sessions generalizing rows with
  | nil => exact (List.map_id rows).symm
  | cons session sessions ih =>
    rw [List.foldl_cons, ih]
    simp only [addSession, overlaps_cons]
    by_cases hpos : 0 < overlapSeconds arithmetic session.startedAt (usableUntil session now)
        windowFrom windowTo
    · rw [if_neg (not_le.2 hpos), List.map_map]
      refine List.map_congr_left fun row _ => ?_
      by_cases hid : row.machineId = session.machineId
      · simp [hid, hpos, Nat.add_assoc, Nat.add_comm]
      · have hid' : ¬ session.machineId = row.machineId := fun h => hid h.symm
        simp [hid, hid']
    · simp [hpos, not_lt.1 hpos]

/-! ## What the summary sees of a session -/

/-- Whose time a session is, when it begins, and when it ends. -/
def UsageSession.use (now : ℤ) (session : UsageSession) : String × ℤ × ℤ :=
  (session.machineId, session.startedAt, usableUntil session now)

theorem overlaps_eq_use (sessions : List UsageSession) (machineId : String) :
    overlaps arithmetic sessions windowFrom windowTo now machineId =
      (((sessions.map (UsageSession.use now)).filter fun use => use.1 = machineId).map fun use =>
        overlapSeconds arithmetic use.2.1 use.2.2 windowFrom windowTo).filter
          fun seconds => 0 < seconds := by
  have huse : (sessions.map (UsageSession.use now)).filter (fun use => use.1 = machineId) =
      (sessions.filter fun session => session.machineId = machineId).map (UsageSession.use now) :=
    List.filter_map
  rw [huse, List.map_map]
  rfl

/-- Nothing matters but whose time the sessions are and when, one after the other. -/
theorem summarizeUsage_congr (localeCompare : String → String → ℤ) (machines : List ReportedMachine)
    {sessions sessions' : List UsageSession}
    (h : sessions.map (UsageSession.use now) = sessions'.map (UsageSession.use now)) :
    summarizeUsage arithmetic localeCompare machines sessions windowFrom windowTo now =
      summarizeUsage arithmetic localeCompare machines sessions' windowFrom windowTo now := by
  simp only [summarizeUsage, foldl_addSession, overlaps_eq_use, h]

/-- In exact arithmetic their order does not matter either. -/
theorem summarizeUsage_exact_congr (localeCompare : String → String → ℤ)
    (machines : List ReportedMachine) {sessions sessions' : List UsageSession}
    (h : (sessions.map (UsageSession.use now)).Perm (sessions'.map (UsageSession.use now))) :
    summarizeUsage .exact localeCompare machines sessions windowFrom windowTo now =
      summarizeUsage .exact localeCompare machines sessions' windowFrom windowTo now := by
  have hperm : ∀ machineId, (overlaps .exact sessions windowFrom windowTo now machineId).Perm
      (overlaps .exact sessions' windowFrom windowTo now machineId) := by
    intro machineId
    rw [overlaps_eq_use, overlaps_eq_use]
    exact ((h.filter _).map _).filter _
  have hsum : ∀ (machineId : String) (used : ℚ),
      (overlaps .exact sessions windowFrom windowTo now machineId).foldl
          (fun total seconds => Arithmetic.exact.round (total + seconds)) used =
        (overlaps .exact sessions' windowFrom windowTo now machineId).foldl
          (fun total seconds => Arithmetic.exact.round (total + seconds)) used := fun machineId used =>
    (hperm machineId).foldl_eq' (fun x _ y _ total => add_right_comm total x y) used
  simp only [summarizeUsage, foldl_addSession, hsum, (hperm _).length_eq]

end

/-- Once its deadline has passed, an `ACTIVE` session has been used as long as an expired one. -/
theorem usableUntil_expired {session : UsageSession} {now : ℤ} (h : session.expiresAt < now) :
    usableUntil { session with status := .expired } now = usableUntil session now := by
  have hend : min (session.endedAt.getD session.expiresAt) session.expiresAt ≤ now :=
    (min_le_right _ _).trans h.le
  simp only [usableUntil, reduceCtorEq, if_false]
  split_ifs
  · exact (min_eq_left hend).symm
  · rfl

end Taymna.Api
