import Mathlib.Order.Interval.Finset.Nat
import Taymna.Api.UsedTime

/-!
# The summary of a report, row by row

What `summarizeUsage` returns is a list of rows that do not depend on one another: that of a machine
counts the milliseconds of its own sessions that lie in the window (`expectedUsage`). In exact
arithmetic the loop over a map and the rounding after it give just these rows
(`summarizeUsage_expected`), so neither the order of the sessions nor the sessions of other machines
show in them.
-/

namespace Taymna.Api

open Intervals
open Number (Arithmetic)

/-- The milliseconds of `[startedAt, usableUntil)` that lie in `[from, to)`. -/
def msWithin (session : UsageSession) (windowFrom windowTo now : ℤ) : ℕ :=
  ((Finset.range (usableUntil session now - session.startedAt).toNat).filter fun ms : ℕ =>
    windowFrom ≤ session.startedAt + ms ∧ session.startedAt + ms < windowTo).card

/-- The milliseconds of a machine's sessions in the window. -/
def machineMs (sessions : List UsageSession) (windowFrom windowTo now : ℤ) (machineId : String) : ℕ :=
  ((sessions.filter fun session => session.machineId = machineId).map fun session =>
    msWithin session windowFrom windowTo now).sum

/-- The number of a machine's sessions that have any. -/
def machineSessions (sessions : List UsageSession) (windowFrom windowTo now : ℤ)
    (machineId : String) : ℕ :=
  (sessions.filter fun session =>
    session.machineId = machineId ∧ 0 < msWithin session windowFrom windowTo now).length

/-- The row of a machine. -/
def expectedUsage (sessions : List UsageSession) (windowFrom windowTo now : ℤ)
    (machine : ReportedMachine) : MachineUsage where
  machineId := machine.id
  name := machine.name
  platform := machine.platform
  usedSeconds := roundHalfUp (machineMs sessions windowFrom windowTo now machine.id / 1000)
  sessionCount := machineSessions sessions windowFrom windowTo now machine.id

/-- What the order of names by `localeCompare` is relied on for. -/
structure IsCollation (localeCompare : String → String → ℤ) : Prop where
  total : ∀ a b, localeCompare a b ≤ 0 ∨ localeCompare b a ≤ 0
  trans : ∀ a b c, localeCompare a b ≤ 0 → localeCompare b c ≤ 0 → localeCompare a c ≤ 0

/-! ## The loop -/

theorem msWithin_eq_clip (session : UsageSession) (windowFrom windowTo now : ℤ) :
    (msWithin session windowFrom windowTo now : ℤ) =
      clip session.startedAt (usableUntil session now) windowFrom windowTo := by
  have hIco : ((Finset.range (usableUntil session now - session.startedAt).toNat).filter
      fun ms : ℕ => windowFrom ≤ session.startedAt + ms ∧ session.startedAt + ms < windowTo) =
      Finset.Ico (windowFrom - session.startedAt).toNat
        (min (usableUntil session now) windowTo - session.startedAt).toNat := by
    ext ms
    rw [Finset.mem_filter, Finset.mem_range, Finset.mem_Ico]
    omega
  rw [msWithin, hIco, Nat.card_Ico, clip]
  omega

section

variable (windowFrom windowTo now : ℤ)

theorem usedMs_eq_machineMs (sessions : List UsageSession) (machineId : String) :
    usedMs sessions now machineId windowFrom windowTo =
      machineMs sessions windowFrom windowTo now machineId := by
  unfold usedMs machineMs
  rw [Nat.cast_list_sum, List.map_map]
  exact congrArg List.sum (List.map_congr_left fun session _ => (msWithin_eq_clip session _ _ _).symm)

theorem length_msOf (sessions : List UsageSession) (machineId : String) :
    (msOf sessions now machineId windowFrom windowTo).length =
      machineSessions sessions windowFrom windowTo now machineId := by
  unfold msOf machineSessions
  rw [List.filter_map, List.length_map, List.filter_filter]
  refine congrArg List.length (List.filter_congr fun session _ => ?_)
  simp only [Function.comp, ← msWithin_eq_clip, Int.natCast_pos, Bool.decide_and]
  exact Bool.and_comm _ _

/-- The row of a machine before any session has been counted. -/
def emptyRow (machine : ReportedMachine) : MachineUsage :=
  { machineId := machine.id, name := machine.name, platform := machine.platform, usedSeconds := 0,
    sessionCount := 0 }

/-- The row of a machine in exact arithmetic. -/
theorem usageOf_exact (sessions : List UsageSession) (machine : ReportedMachine) :
    usageOf .exact sessions windowFrom windowTo now (emptyRow machine) =
      expectedUsage sessions windowFrom windowTo now machine := by
  unfold usageOf expectedUsage emptyRow
  rw [secondsOf_exact, usedMs_eq_machineMs, overlaps_eq, List.length_map, length_msOf,
    Int.cast_natCast]

/-- The rows before the loop, one for each machine. -/
theorem emptyRows_eq {machines : List ReportedMachine}
    (hids : (machines.map ReportedMachine.id).Nodup) :
    emptyRows machines = machines.map emptyRow := by
  induction machines using List.reverseRecOn with
  | nil => rfl
  | append_singleton machines machine ih =>
    rw [List.map_append, List.nodup_append] at hids
    have hnew : ¬ ((emptyRows machines).any fun row =>
        row.machineId = (emptyRow machine).machineId) = true := by
      rw [ih hids.1]
      intro h
      simp only [List.any_map, List.any_eq_true, Function.comp, decide_eq_true_eq] at h
      obtain ⟨other, hother, hid⟩ := h
      exact hids.2.2 other.id (List.mem_map_of_mem hother) machine.id (by simp) hid
    have hstep : emptyRows (machines ++ [machine]) = setRow (emptyRows machines) (emptyRow machine) := by
      unfold emptyRows
      rw [List.foldl_append]
      rfl
    rw [hstep, setRow, if_neg hnew, ih hids.1, List.map_append]
    rfl

/-- The summary has the rows of the machines, in order. -/
theorem summarizeUsage_machines (arithmetic : Arithmetic) (localeCompare : String → String → ℤ)
    {machines : List ReportedMachine} (hids : (machines.map ReportedMachine.id).Nodup)
    (sessions : List UsageSession) :
    summarizeUsage arithmetic localeCompare machines sessions windowFrom windowTo now =
      (machines.map fun machine =>
        usageOf arithmetic sessions windowFrom windowTo now (emptyRow machine)).mergeSort
          (usageOrder localeCompare) := by
  rw [summarizeUsage_eq, emptyRows_eq hids, List.map_map]
  rfl

/-- In exact arithmetic they are the expected rows. -/
theorem summarizeUsage_expected (localeCompare : String → String → ℤ)
    {machines : List ReportedMachine} (hids : (machines.map ReportedMachine.id).Nodup)
    (sessions : List UsageSession) :
    summarizeUsage .exact localeCompare machines sessions windowFrom windowTo now =
      (machines.map (expectedUsage sessions windowFrom windowTo now)).mergeSort
        (usageOrder localeCompare) := by
  simp only [summarizeUsage_machines windowFrom windowTo now .exact localeCompare hids, usageOf_exact]

/-! ## The order of the rows -/

theorem usageOrder_iff {localeCompare : String → String → ℤ} {a b : MachineUsage} :
    usageOrder localeCompare a b = true ↔ b.usedSeconds < a.usedSeconds ∨
      a.usedSeconds = b.usedSeconds ∧ localeCompare a.name b.name ≤ 0 := by
  simp [usageOrder]

theorem IsCollation.usageOrder_total {localeCompare : String → String → ℤ}
    (h : IsCollation localeCompare) (a b : MachineUsage) :
    (usageOrder localeCompare a b || usageOrder localeCompare b a) = true := by
  rw [Bool.or_eq_true, usageOrder_iff, usageOrder_iff]
  rcases lt_trichotomy a.usedSeconds b.usedSeconds with hlt | heq | hgt
  · exact Or.inr (Or.inl hlt)
  · exact (h.total a.name b.name).imp (fun hn => Or.inr ⟨heq, hn⟩) fun hn => Or.inr ⟨heq.symm, hn⟩
  · exact Or.inl (Or.inl hgt)

theorem IsCollation.usageOrder_trans {localeCompare : String → String → ℤ}
    (h : IsCollation localeCompare) (a b c : MachineUsage)
    (hab : usageOrder localeCompare a b = true) (hbc : usageOrder localeCompare b c = true) :
    usageOrder localeCompare a c = true := by
  rw [usageOrder_iff] at hab hbc ⊢
  rcases hab with hab | ⟨hab, hnab⟩
  · rcases hbc with hbc | ⟨hbc, -⟩
    · exact Or.inl (hbc.trans hab)
    · exact Or.inl (hbc ▸ hab)
  · rcases hbc with hbc | ⟨hbc, hnbc⟩
    · exact Or.inl (hab ▸ hbc)
    · exact Or.inr ⟨hab.trans hbc, h.trans _ _ _ hnab hnbc⟩

/-! ## The summary -/

/-- Only the sessions of a machine show in its row. -/
theorem expectedUsage_filter (sessions : List UsageSession) {machine : ReportedMachine}
    {p : UsageSession → Bool} (hp : ∀ session, session.machineId = machine.id → p session = true) :
    expectedUsage (sessions.filter p) windowFrom windowTo now machine =
      expectedUsage sessions windowFrom windowTo now machine := by
  have hms : machineMs (sessions.filter p) windowFrom windowTo now machine.id =
      machineMs sessions windowFrom windowTo now machine.id := by
    unfold machineMs
    rw [List.filter_filter]
    refine congrArg (fun l => (List.map _ l).sum) (List.filter_congr fun session _ => ?_)
    by_cases hid : session.machineId = machine.id
    · simp [hid, hp session hid]
    · simp [hid]
  have hcount : machineSessions (sessions.filter p) windowFrom windowTo now machine.id =
      machineSessions sessions windowFrom windowTo now machine.id := by
    unfold machineSessions
    rw [List.filter_filter]
    refine congrArg List.length (List.filter_congr fun session _ => ?_)
    by_cases hid : session.machineId = machine.id
    · simp [hid, hp session hid]
    · simp [hid]
  simp only [expectedUsage, hms, hcount]

/-- The summary is what it says, in any row order. -/
theorem summarizeUsage_correct {localeCompare : String → String → ℤ}
    (hcollation : IsCollation localeCompare) {machines : List ReportedMachine}
    (hids : (machines.map ReportedMachine.id).Nodup) (sessions : List UsageSession) :
    (summarizeUsage .exact localeCompare machines sessions windowFrom windowTo now).Perm
        (machines.map (expectedUsage sessions windowFrom windowTo now)) ∧
    (summarizeUsage .exact localeCompare machines sessions windowFrom windowTo now).Pairwise
        (fun a b => b.usedSeconds < a.usedSeconds ∨
          a.usedSeconds = b.usedSeconds ∧ localeCompare a.name b.name ≤ 0) ∧
    (∀ known : UsageSession → Bool,
      (∀ session, (∃ machine ∈ machines, session.machineId = machine.id) → known session = true) →
      summarizeUsage .exact localeCompare machines (sessions.filter known) windowFrom windowTo now =
        summarizeUsage .exact localeCompare machines sessions windowFrom windowTo now) ∧
    ∀ sessions' : List UsageSession, sessions.Perm sessions' →
      summarizeUsage .exact localeCompare machines sessions' windowFrom windowTo now =
        summarizeUsage .exact localeCompare machines sessions windowFrom windowTo now := by
  refine ⟨?_, ?_, fun known hknown => ?_, fun sessions' hperm => ?_⟩
  · rw [summarizeUsage_expected windowFrom windowTo now localeCompare hids]
    exact List.mergeSort_perm _ _
  · rw [summarizeUsage_expected windowFrom windowTo now localeCompare hids]
    have hsorted := List.pairwise_mergeSort hcollation.usageOrder_trans hcollation.usageOrder_total
      (machines.map (expectedUsage sessions windowFrom windowTo now))
    exact hsorted.imp usageOrder_iff.1
  · rw [summarizeUsage_expected windowFrom windowTo now localeCompare hids,
      summarizeUsage_expected windowFrom windowTo now localeCompare hids]
    refine congrArg (List.mergeSort · _) (List.map_congr_left fun machine hmachine => ?_)
    exact expectedUsage_filter windowFrom windowTo now sessions fun session hid =>
      hknown session ⟨machine, hmachine, hid⟩
  · exact (summarizeUsage_exact_congr windowFrom windowTo now localeCompare machines
      (hperm.map _)).symm

end

/-! ### Two machines -/

/-- `localeCompare` of names in lower case without accents: by their characters. -/
def compareNames (a b : String) : ℤ :=
  match compare a b with
  | .lt => -1
  | .eq => 0
  | .gt => 1

theorem compareNames_nonpos_iff {a b : String} :
    compareNames a b ≤ 0 ↔ (compare a b).isLE = true := by
  unfold compareNames
  cases compare a b <;> decide

theorem isCollation_compareNames : IsCollation compareNames where
  total a b := by
    rw [compareNames_nonpos_iff, compareNames_nonpos_iff, @Std.OrientedCmp.eq_swap String compare _ a b]
    cases compare b a <;> simp
  trans a b c hab hbc := by
    rw [compareNames_nonpos_iff] at hab hbc ⊢
    exact Std.TransCmp.isLE_trans hab hbc

def lab : List ReportedMachine :=
  [{ id := "m1", name := "lab two", platform := .windows },
    { id := "m2", name := "lab one", platform := .linux }]

/-- Two sessions of 1.2 s on one machine, and one of a machine that is not listed. -/
def labSessions : List UsageSession :=
  [{ machineId := "m1", startedAt := 0, expiresAt := 1200, endedAt := none, status := .expired },
    { machineId := "m3", startedAt := 0, expiresAt := 9000, endedAt := none, status := .expired },
    { machineId := "m1", startedAt := 5000, expiresAt := 9000, endedAt := some 6200,
      status := .ended }]

theorem summarizeUsage_correct_lab :
    compareNames "lab two" "lab one" = 1 ∧
    (summarizeUsage .exact compareNames lab labSessions 0 10000 10000).Perm
      (lab.map (expectedUsage labSessions 0 10000 10000)) :=
  ⟨by decide,
    (summarizeUsage_correct 0 10000 10000 isCollation_compareNames (by decide) labSessions).1⟩

end Taymna.Api
