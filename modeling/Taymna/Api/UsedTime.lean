import Mathlib.Algebra.BigOperators.Ring.Finset
import Mathlib.Algebra.BigOperators.Ring.List
import Taymna.Api.Usage
import Taymna.Time.Intervals

/-!
# What a report says of one machine

The rows of a report have different machines, whatever the list of machines is, and the seconds of a
machine's row are those of its sessions in the window, added up (`secondsOf`) and rounded to the
nearest second. In exact arithmetic they are its milliseconds there (`usedMs`), and sums of doubles lose
little of them (`abs_lost_le`). The query of `ReportsService` leaves out no session that has any.
-/

namespace Taymna.Api

open Intervals
open Number (Arithmetic toDouble)

/-- The seconds of a machine in a report; `0` if it is not listed. -/
def usedSecondsOf (rows : List MachineUsage) (machineId : String) : ℚ :=
  ((rows.find? fun row => row.machineId = machineId).map MachineUsage.usedSeconds).getD 0

/-- The milliseconds of a machine's sessions that fall into a window. -/
def usedMs (sessions : List UsageSession) (now : ℤ) (machineId : String)
    (windowFrom windowTo : ℤ) : ℤ :=
  ((sessions.filter fun session => session.machineId = machineId).map fun session =>
    clip session.startedAt (usableUntil session now) windowFrom windowTo).sum

/-- To the nearest second. -/
def nearestSecond (ms : ℤ) : ℤ := (ms + 500) / 1000

/-- The milliseconds of each of a machine's sessions that has any in a window. -/
def msOf (sessions : List UsageSession) (now : ℤ) (machineId : String) (windowFrom windowTo : ℤ) :
    List ℤ :=
  ((sessions.filter fun session => session.machineId = machineId).map fun session =>
    clip session.startedAt (usableUntil session now) windowFrom windowTo).filter fun ms => 0 < ms

/-- The seconds of a machine's sessions in a window, added up. -/
def secondsOf (arithmetic : Arithmetic) (sessions : List UsageSession) (now : ℤ) (machineId : String)
    (windowFrom windowTo : ℤ) : ℚ :=
  arithmetic.sum (overlaps arithmetic sessions windowFrom windowTo now machineId)

/-- Milliseconds as seconds, added up as doubles. -/
def doubleSeconds (l : List ℤ) : ℚ :=
  Arithmetic.double.sum (l.map fun ms : ℤ => toDouble (ms / 1000))

/-- The seconds that are lost on the way. -/
def lost (l : List ℤ) : ℚ := l.sum / 1000 - doubleSeconds l

theorem overlapSeconds_eq (arithmetic : Arithmetic) (start stop windowFrom windowTo : ℤ) :
    overlapSeconds arithmetic start stop windowFrom windowTo =
      if 0 < clip start stop windowFrom windowTo then
        arithmetic.round ((clip start stop windowFrom windowTo : ℤ) / 1000)
      else 0 := by
  unfold overlapSeconds
  simp only [gt_iff_lt]
  by_cases h : 0 < min stop windowTo - max start windowFrom
  · have hclip : clip start stop windowFrom windowTo = min stop windowTo - max start windowFrom :=
      max_eq_right h.le
    rw [if_pos h, hclip, if_pos h]
  · have hclip : clip start stop windowFrom windowTo = 0 := max_eq_left (not_lt.1 h)
    rw [if_neg h, hclip, if_neg (lt_irrefl 0)]

/-- A millisecond is far from the smallest doubles. -/
theorem normal_of_ms_pos {ms : ℤ} (h : 0 < ms) : (2 : ℚ) ^ (-1021 : ℤ) ≤ ms / 1000 := by
  have hone : (1 : ℚ) ≤ ms := by exact_mod_cast h
  calc (2 : ℚ) ^ (-1021 : ℤ) ≤ 2 ^ (-10 : ℤ) := zpow_le_zpow_right₀ one_le_two (by decide)
    _ ≤ 1 / 1000 := by norm_num
    _ ≤ ms / 1000 := by gcongr

theorem roundHalfUp_eq (ms : ℤ) : roundHalfUp ((ms : ℚ) / 1000) = nearestSecond ms := by
  unfold roundHalfUp nearestSecond
  rw [show (ms : ℚ) / 1000 + 1 / 2 = ((ms + 500 : ℤ) : ℚ) / ((1000 : ℕ) : ℚ) by push_cast; ring]
  rw [Rat.floor_intCast_div_natCast]
  norm_num

theorem roundHalfUp_natCast (n : ℕ) : roundHalfUp n = n := by
  unfold roundHalfUp
  have hfloor : ⌊(n : ℚ) + 1 / 2⌋ = n := by
    rw [Int.floor_eq_iff]
    constructor <;> push_cast <;> linarith
  rw [hfloor, Int.cast_natCast]

/-- The machines that a report lists. -/
def reportedIds (machines : List ReportedMachine) : List String :=
  (emptyRows machines).map MachineUsage.machineId

theorem setRow_machineId (rows : List MachineUsage) (row : MachineUsage) :
    (setRow rows row).map MachineUsage.machineId =
      if row.machineId ∈ rows.map MachineUsage.machineId then rows.map MachineUsage.machineId
      else rows.map MachineUsage.machineId ++ [row.machineId] := by
  by_cases h : row.machineId ∈ rows.map MachineUsage.machineId
  · have hany : (rows.any fun r => r.machineId = row.machineId) = true := by simpa using h
    rw [if_pos h, setRow, if_pos hany, List.map_map]
    refine List.map_congr_left fun r _ => ?_
    simp only [Function.comp]
    split_ifs with hr
    · exact hr.symm
    · rfl
  · have hany : ¬ (rows.any fun r => r.machineId = row.machineId) = true := by simpa using h
    rw [if_neg h, setRow, if_neg hany, List.map_append]
    rfl

theorem mem_setRow {rows : List MachineUsage} {row r : MachineUsage} (h : r ∈ setRow rows row) :
    r = row ∨ r ∈ rows := by
  unfold setRow at h
  split_ifs at h
  · obtain ⟨r', hr', rfl⟩ := List.mem_map.1 h
    split_ifs
    · exact Or.inl rfl
    · exact Or.inr hr'
  · exact (List.mem_append.1 h).symm.imp_left List.mem_singleton.1

/-- The rows before any session has been counted: one for each machine, and nothing used. -/
structure Unused (machines : List ReportedMachine) (rows : List MachineUsage) : Prop where
  nodup : (rows.map MachineUsage.machineId).Nodup
  mem_iff : ∀ id, id ∈ rows.map MachineUsage.machineId ↔ ∃ machine ∈ machines, machine.id = id
  unused : ∀ row ∈ rows, row.usedSeconds = 0 ∧ row.sessionCount = 0

theorem Unused.setRow {machines : List ReportedMachine} {rows : List MachineUsage}
    (h : Unused machines rows) {machine : ReportedMachine} {row : MachineUsage}
    (hid : row.machineId = machine.id) (hrow : row.usedSeconds = 0 ∧ row.sessionCount = 0) :
    Unused (machines ++ [machine]) (setRow rows row) := by
  have hmem : ∀ id, id ∈ (Api.setRow rows row).map MachineUsage.machineId ↔
      id ∈ rows.map MachineUsage.machineId ∨ id = row.machineId := by
    intro id
    rw [setRow_machineId]
    split_ifs with hrow
    · exact ⟨Or.inl, fun h => h.elim (fun h => h) fun he => he ▸ hrow⟩
    · rw [List.mem_append, List.mem_singleton]
  refine ⟨?_, fun id => ?_, fun r hr => ?_⟩
  · rw [setRow_machineId]
    split_ifs with hrow
    · exact h.nodup
    · exact List.nodup_append.2 ⟨h.nodup, by simp, fun x hx y hy he =>
        hrow (List.mem_singleton.1 hy ▸ he ▸ hx)⟩
  · rw [hmem, h.mem_iff, hid]
    simp only [List.mem_append, List.mem_singleton, or_and_right, exists_or, exists_eq_left]
    rw [eq_comm (a := id)]
  · rcases mem_setRow hr with rfl | hr
    · exact hrow
    · exact h.unused r hr

theorem unused_emptyRows (machines : List ReportedMachine) : Unused machines (emptyRows machines) := by
  induction machines using List.reverseRecOn with
  | nil => exact ⟨List.nodup_nil, by simp [emptyRows], by simp [emptyRows]⟩
  | append_singleton machines machine ih =>
    unfold emptyRows at ih ⊢
    rw [List.foldl_append]
    exact ih.setRow rfl ⟨rfl, rfl⟩

/-! ## Exact sums and sums of doubles -/

variable (windowFrom windowTo now : ℤ)

theorem overlaps_eq (arithmetic : Arithmetic) (sessions : List UsageSession) (machineId : String) :
    overlaps arithmetic sessions windowFrom windowTo now machineId =
      (msOf sessions now machineId windowFrom windowTo).map fun ms : ℤ =>
        arithmetic.round (ms / 1000) := by
  unfold overlaps msOf
  induction sessions.filter (fun session => session.machineId = machineId) with
  | nil => rfl
  | cons session own ih =>
    simp only [List.map_cons, List.filter_cons, overlapSeconds_eq, decide_eq_true_eq] at ih ⊢
    rw [ih]
    by_cases h : 0 < clip session.startedAt (usableUntil session now) windowFrom windowTo
    · have hpos := arithmetic.pos _
        ((zpow_le_zpow_right₀ one_le_two (by decide)).trans (normal_of_ms_pos h))
      simp only [if_pos h, if_pos hpos, List.map_cons]
    · simp only [if_neg h, lt_irrefl, if_false]

theorem sum_msOf (sessions : List UsageSession) (machineId : String) :
    (msOf sessions now machineId windowFrom windowTo).sum =
      usedMs sessions now machineId windowFrom windowTo := by
  unfold msOf usedMs
  induction sessions.filter (fun session => session.machineId = machineId) with
  | nil => rfl
  | cons session own ih =>
    have hnonneg := clip_nonneg session.startedAt (usableUntil session now) windowFrom windowTo
    rw [List.map_cons, List.filter_cons, List.sum_cons, ← ih]
    split_ifs with h
    · rw [List.sum_cons]
    · rw [le_antisymm (not_lt.1 fun hpos => h (decide_eq_true hpos)) hnonneg, zero_add]

theorem pos_of_mem_msOf {sessions : List UsageSession} {machineId : String} {ms : ℤ}
    (h : ms ∈ msOf sessions now machineId windowFrom windowTo) : 0 < ms :=
  of_decide_eq_true (List.mem_filter.1 h).2

theorem sum_seconds (l : List ℤ) : (l.map fun ms : ℤ => (ms : ℚ) / 1000).sum = l.sum / 1000 := by
  simp only [div_eq_mul_inv]
  rw [List.sum_map_mul_right, Int.cast_list_sum]

theorem secondsOf_exact (sessions : List UsageSession) (machineId : String) :
    secondsOf .exact sessions now machineId windowFrom windowTo =
      usedMs sessions now machineId windowFrom windowTo / 1000 := by
  unfold secondsOf
  rw [Arithmetic.exact_sum, overlaps_eq, ← sum_msOf]
  exact sum_seconds _

theorem secondsOf_double (sessions : List UsageSession) (machineId : String) :
    secondsOf .double sessions now machineId windowFrom windowTo =
      doubleSeconds (msOf sessions now machineId windowFrom windowTo) := by
  unfold secondsOf doubleSeconds
  rw [overlaps_eq]
  rfl

/-- The loss is a small part of what is added up. -/
theorem abs_lost_le {l : List ℤ} {total : ℤ} (hpos : ∀ ms ∈ l, 0 < ms) (htotal : l.sum ≤ total)
    (hlength : l.length ≤ 2 ^ 51) : |lost l| ≤ l.length * (total / 1000 / 2 ^ 51) := by
  have hnormal : ∀ x ∈ l.map fun ms : ℤ => (ms : ℚ) / 1000, (2 : ℚ) ^ (-1021 : ℤ) ≤ x := by
    intro x hx
    obtain ⟨ms, hms, rfl⟩ := List.mem_map.1 hx
    exact normal_of_ms_pos (hpos ms hms)
  have htotal' : (l.map fun ms : ℤ => (ms : ℚ) / 1000).sum ≤ total / 1000 := by
    rw [sum_seconds]
    gcongr
  have herror := (Number.abs_sum_double_sub_le hnormal htotal' (by rwa [List.length_map])).2
  rw [List.length_map, List.map_map, sum_seconds, abs_sub_comm] at herror
  exact herror

/-- Eighths of a second are doubles. -/
theorem toDouble_eighths {n : ℕ} (h : n < 2 ^ 53) : toDouble ((125 * n : ℤ) / 1000) = n * 2 ^ (-3 : ℤ) := by
  have hbits : |(n : ℤ)| < 2 ^ 53 := by
    rw [abs_of_nonneg (Int.natCast_nonneg _)]
    exact_mod_cast h
  rw [← Int.cast_natCast (R := ℚ) n, ← Number.toDouble_mul_zpow hbits (by decide)]
  congr 1
  push_cast
  norm_num
  ring

/-- Eighths of a second are added up exactly. -/
theorem doubleSeconds_of_eighths {eighths : List ℕ} (h : eighths.sum < 2 ^ 53) :
    doubleSeconds (eighths.map fun n : ℕ => (125 * n : ℤ)) = eighths.sum * 2 ^ (-3 : ℤ) := by
  unfold doubleSeconds
  rw [← Number.sum_double_mul_zpow h (by decide), List.map_map]
  refine congrArg _ (List.map_congr_left fun n hn => ?_)
  exact toDouble_eighths ((List.single_le_sum (by simp) _ hn).trans_lt h)

theorem lost_of_eighths {eighths : List ℕ} (h : eighths.sum < 2 ^ 53) :
    lost (eighths.map fun n : ℕ => (125 * n : ℤ)) = 0 := by
  have hsum : (eighths.map fun n : ℕ => (125 * n : ℤ)).sum = 125 * (eighths.sum : ℤ) := by
    rw [List.sum_map_mul_left, Nat.cast_list_sum]
  rw [lost, doubleSeconds_of_eighths h, hsum, Int.cast_mul, Int.cast_natCast, Int.cast_ofNat]
  norm_num
  ring

/-- Nothing is lost of whole seconds. -/
theorem doubleSeconds_of_seconds {seconds : List ℕ} (h : 8 * seconds.sum < 2 ^ 53) :
    doubleSeconds (seconds.map fun s : ℕ => (1000 * s : ℤ)) = seconds.sum ∧
      lost (seconds.map fun s : ℕ => (1000 * s : ℤ)) = 0 := by
  have hmul : (seconds.map fun s => 8 * s).sum = 8 * seconds.sum := by
    rw [List.sum_map_mul_left, List.map_id']
  have heighths : seconds.map (fun s : ℕ => (1000 * s : ℤ)) =
      (seconds.map fun s => 8 * s).map fun n : ℕ => (125 * n : ℤ) := by
    rw [List.map_map]
    refine List.map_congr_left fun s _ => ?_
    simp only [Function.comp]
    omega
  rw [← hmul] at h
  rw [heighths]
  refine ⟨?_, lost_of_eighths h⟩
  rw [doubleSeconds_of_eighths h, hmul, Nat.cast_mul]
  norm_num
  ring

/-! ## The seconds of a row -/

variable (arithmetic : Arithmetic)

/-- The row of a machine. -/
def usageOf (arithmetic : Arithmetic) (sessions : List UsageSession) (windowFrom windowTo now : ℤ)
    (row : MachineUsage) : MachineUsage where
  machineId := row.machineId
  name := row.name
  platform := row.platform
  usedSeconds := roundHalfUp (secondsOf arithmetic sessions now row.machineId windowFrom windowTo)
  sessionCount := (overlaps arithmetic sessions windowFrom windowTo now row.machineId).length

/-- The summary has the rows of the machines, in order. -/
theorem summarizeUsage_eq (localeCompare : String → String → ℤ) (machines : List ReportedMachine)
    (sessions : List UsageSession) :
    summarizeUsage arithmetic localeCompare machines sessions windowFrom windowTo now =
      ((emptyRows machines).map (usageOf arithmetic sessions windowFrom windowTo now)).mergeSort
        (usageOrder localeCompare) := by
  simp only [summarizeUsage, foldl_addSession, List.map_map]
  refine congrArg (List.mergeSort · _) (List.map_congr_left fun row hrow => ?_)
  obtain ⟨hused, hcount⟩ := (unused_emptyRows machines).unused row hrow
  simp only [Function.comp, hused, hcount, Nat.zero_add]
  rfl

/-- The machines of a report and their seconds. -/
theorem summarizeUsage_used (localeCompare : String → String → ℤ) (machines : List ReportedMachine)
    (sessions : List UsageSession) :
    ((summarizeUsage arithmetic localeCompare machines sessions windowFrom windowTo now).map
        fun row => (row.machineId, row.usedSeconds)).Perm
      ((reportedIds machines).map fun id =>
        (id, roundHalfUp (secondsOf arithmetic sessions now id windowFrom windowTo))) := by
  rw [summarizeUsage_eq, reportedIds, List.map_map]
  refine ((List.mergeSort_perm _ _).map _).trans (List.Perm.of_eq ?_)
  rw [List.map_map]
  rfl

/-- The seconds of a machine that is listed. -/
theorem usedSecondsOf_summarizeUsage (localeCompare : String → String → ℤ)
    (machines : List ReportedMachine) (sessions : List UsageSession) (machineId : String) :
    usedSecondsOf (summarizeUsage arithmetic localeCompare machines sessions windowFrom windowTo now)
        machineId =
      if machineId ∈ reportedIds machines then
        roundHalfUp (secondsOf arithmetic sessions now machineId windowFrom windowTo)
      else 0 := by
  have hperm := summarizeUsage_used windowFrom windowTo now arithmetic localeCompare machines sessions
  generalize summarizeUsage arithmetic localeCompare machines sessions windowFrom windowTo now = rows
    at hperm ⊢
  unfold usedSecondsOf
  cases hf : rows.find? fun row => row.machineId = machineId with
  | none =>
    refine (if_neg fun hmem => ?_).symm
    obtain ⟨row, hrow, hid⟩ :=
      List.mem_map.1 (hperm.mem_iff.2 (List.mem_map.2 ⟨machineId, hmem, rfl⟩))
    exact absurd (decide_eq_true (congrArg Prod.fst hid)) (List.find?_eq_none.1 hf row hrow)
  | some row =>
    have hrow := List.mem_of_find?_eq_some hf
    have hid : row.machineId = machineId := by simpa using List.find?_some hf
    obtain ⟨id, hmem, hpair⟩ := List.mem_map.1 (hperm.mem_iff.1 (List.mem_map.2 ⟨row, hrow, rfl⟩))
    obtain ⟨rfl, hused⟩ := Prod.mk.inj hpair
    rw [← hid, if_pos hmem]
    exact hused.symm

/-! ## The query -/

theorem usableUntil_le (session : UsageSession) (now : ℤ) :
    usableUntil session now ≤ session.expiresAt := by
  simp only [usableUntil]
  split_ifs
  · exact (min_le_left _ _).trans (min_le_right _ _)
  · exact min_le_right _ _

/-- The `where` of the query for the sessions. -/
def Queried (windowFrom windowTo : ℤ) (session : UsageSession) : Prop :=
  session.startedAt < windowTo ∧ session.expiresAt > windowFrom

instance (windowFrom windowTo : ℤ) (session : UsageSession) :
    Decidable (Queried windowFrom windowTo session) := inferInstanceAs (Decidable (_ ∧ _))

theorem clip_of_not_queried {windowFrom windowTo : ℤ} {session : UsageSession}
    (h : ¬ Queried windowFrom windowTo session) (now : ℤ) :
    clip session.startedAt (usableUntil session now) windowFrom windowTo = 0 := by
  refine clip_of_le ?_
  rcases not_and_or.1 h with hstart | hend
  · exact (min_le_right _ _).trans ((not_lt.1 hstart).trans (le_max_left _ _))
  · exact (min_le_left _ _).trans
      ((usableUntil_le session now).trans ((not_lt.1 hend).trans (le_max_right _ _)))

theorem seconds_eq_zero_of_not_queried {windowFrom windowTo : ℤ} {session : UsageSession}
    (h : ¬ Queried windowFrom windowTo session) (now : ℤ) :
    overlapSeconds arithmetic session.startedAt (usableUntil session now) windowFrom windowTo = 0 := by
  rw [overlapSeconds_eq, clip_of_not_queried h]
  exact if_neg (lt_irrefl 0)

theorem overlaps_queried (sessions : List UsageSession) (machineId : String) :
    overlaps arithmetic (sessions.filter fun session => Queried windowFrom windowTo session) windowFrom
      windowTo now machineId = overlaps arithmetic sessions windowFrom windowTo now machineId := by
  induction sessions with
  | nil => rfl
  | cons session sessions ih =>
    rw [List.filter_cons]
    split_ifs with hq
    · rw [overlaps_cons, overlaps_cons, ih]
    · have hzero := seconds_eq_zero_of_not_queried arithmetic
        (fun h => hq (decide_eq_true h) : ¬ Queried windowFrom windowTo session) now
      rw [ih, overlaps_cons, hzero]
      exact (if_neg fun h => lt_irrefl _ h.2).symm

/-- Filtering the sessions leaves the summary. -/
theorem summarizeUsage_queried (localeCompare : String → String → ℤ)
    (machines : List ReportedMachine) (sessions : List UsageSession) :
    summarizeUsage arithmetic localeCompare machines
        (sessions.filter fun session => Queried windowFrom windowTo session) windowFrom windowTo now =
      summarizeUsage arithmetic localeCompare machines sessions windowFrom windowTo now := by
  simp only [summarizeUsage, foldl_addSession, overlaps_queried]

namespace ReportsService

/-- `rows` of `usage`, where `sessions` is the whole table. -/
def rows (arithmetic : Arithmetic) (localeCompare : String → String → ℤ)
    (machines : List ReportedMachine) (sessions : List UsageSession) (windowFrom windowTo now : ℤ) :
    List MachineUsage :=
  summarizeUsage arithmetic localeCompare machines
    (sessions.filter fun session => Queried windowFrom windowTo session) windowFrom windowTo now

/-- `totalUsedSeconds` of `usage`. The seconds of the rows are integers, and doubles add those up
exactly (`totalUsedSeconds_double`). -/
def totalUsedSeconds (rows : List MachineUsage) : ℚ :=
  rows.foldl (fun total row => total + row.usedSeconds) 0

theorem totalUsedSeconds_eq (rows : List MachineUsage) :
    totalUsedSeconds rows = (rows.map MachineUsage.usedSeconds).sum := by
  rw [List.sum_eq_foldl, List.foldl_map]
  rfl

theorem totalUsedSeconds_double {rows : List MachineUsage} {seconds : List ℕ}
    (hrows : rows.map MachineUsage.usedSeconds = seconds.map (Nat.cast : ℕ → ℚ))
    (hsum : seconds.sum < 2 ^ 53) :
    totalUsedSeconds rows = Arithmetic.double.sum (rows.map MachineUsage.usedSeconds) := by
  have hexact := Number.sum_double_mul_zpow (e := 0) hsum (by decide)
  simp only [zpow_zero, mul_one] at hexact
  rw [totalUsedSeconds_eq, hrows, hexact, Nat.cast_list_sum]

theorem usedSecondsOf_rows (localeCompare : String → String → ℤ) (machines : List ReportedMachine)
    (sessions : List UsageSession) (machineId : String) :
    usedSecondsOf (rows arithmetic localeCompare machines sessions windowFrom windowTo now) machineId =
      if machineId ∈ reportedIds machines then
        roundHalfUp (secondsOf arithmetic sessions now machineId windowFrom windowTo)
      else 0 := by
  unfold rows
  rw [summarizeUsage_queried, usedSecondsOf_summarizeUsage]

end ReportsService

end Taymna.Api
