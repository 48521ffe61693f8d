import Taymna.Api.SessionTable

/-!
# Who decides that a session is over

The deadline of an `ACTIVE` row is compared with the time in four places. `getActiveSession` and
`start` go by the status, after the query that expires the rows with `expiresAt < now`; `extend` and
`end` refuse from `expiresAt <= now` on, and the agent blocks from then on too. So all of them agree
at every instant but the deadline's own.
-/

namespace Taymna.Api

open SessionsService (Stale snapshot)

/-- The keys of `sessions`: the id, the `ACTIVE` row of a machine, and the machine. -/
structure Database.Constrained (db : Database) : Prop where
  ids : ∀ r ∈ db.sessions, ∀ r' ∈ db.sessions, r.session.id = r'.session.id → r = r'
  active : ∀ r ∈ db.sessions, ∀ r' ∈ db.sessions, r.machineId = r'.machineId →
    r.session.status = .active → r'.session.status = .active → r = r'
  machine : ∀ r ∈ db.sessions, ∃ machine ∈ db.machines, machine.id = r.machineId

namespace Database

variable {db : Database} {row : SessionRow} {t : ℤ}

/-- `getActiveSession` returns the row. -/
def Returns (db : Database) (row : SessionRow) (t : ℤ) : Prop :=
  (db.getActiveSession row.machineId (.at t)).2 = .active (some row.session)

/-- Another session of the machine is refused. -/
def Conflicts (db : Database) (row : SessionRow) (durationMinutes : ℤ) (id : String) (t : ℤ) : Prop :=
  (db.start row.machineId durationMinutes id (.at t)).2 = .conflict

/-- `requireActiveSession` lets the change through. -/
def Accepts (db : Database) (row : SessionRow) (change : Change) (t : ℤ) : Prop :=
  ∃ session, (db.edit row.session.id change (.at t)).2 = .done session

theorem findUnique_eq (hdb : db.Constrained) (hrow : row ∈ db.sessions) :
    db.findUnique row.session.id = some row := by
  cases hf : db.findUnique row.session.id with
  | none => simpa using List.find?_eq_none.1 hf row hrow
  | some r =>
    have hid : r.session.id = row.session.id := by simpa using List.find?_some hf
    rw [hdb.ids r (List.mem_of_find?_eq_some hf) row hrow hid]

/-- An `ACTIVE` row that is left by the query is the machine's, and its deadline has not passed. -/
theorem active_of_mem_expireStaleActiveSession (hdb : db.Constrained) (hrow : row ∈ db.sessions)
    (hactive : row.session.status = .active) {r : SessionRow}
    (hr : r ∈ (db.expireStaleActiveSession row.machineId t t).sessions)
    (hmachine : r.machineId = row.machineId) (hs : r.session.status = .active) :
    r = row ∧ t ≤ row.session.expiresAt := by
  obtain ⟨r', hr', rfl⟩ := List.mem_map.1 hr
  by_cases hm : r'.machineId = row.machineId
  · rw [if_pos hm] at hs ⊢
    by_cases hstale : Stale t r'.session
    · simp [SessionRow.expire, hstale] at hs
    · rw [SessionRow.expire, if_neg hstale] at hs ⊢
      obtain rfl := hdb.active r' hr' row hrow hm hs hactive
      exact ⟨rfl, not_lt.1 fun hlt => hstale ⟨hs, hlt⟩⟩
  · rw [if_neg hm] at hmachine
    exact absurd hmachine hm

/-- What is found after the query: the row, until its deadline has passed. -/
theorem findActive_expireStaleActiveSession (hdb : db.Constrained) (hrow : row ∈ db.sessions)
    (hactive : row.session.status = .active) :
    (db.expireStaleActiveSession row.machineId t t).findActive row.machineId =
      if t ≤ row.session.expiresAt then some row else none := by
  cases hf : (db.expireStaleActiveSession row.machineId t t).findActive row.machineId with
  | some r =>
    obtain ⟨hmachine, hs⟩ : r.machineId = row.machineId ∧ r.session.status = .active := by
      simpa using List.find?_some hf
    obtain ⟨rfl, hle⟩ := active_of_mem_expireStaleActiveSession hdb hrow hactive
      (List.mem_of_find?_eq_some hf) hmachine hs
    rw [if_pos hle]
  | none =>
    refine (if_neg fun hle => ?_).symm
    have hfresh : ¬ Stale t row.session := fun h => absurd h.2 (not_lt.2 hle)
    have hmem : row ∈ (db.expireStaleActiveSession row.machineId t t).sessions :=
      List.mem_map.2 ⟨row, hrow, by rw [if_pos rfl, SessionRow.expire, if_neg hfresh]⟩
    simpa [hactive] using List.find?_eq_none.1 hf row hmem

theorem returns_iff (hdb : db.Constrained) (hrow : row ∈ db.sessions)
    (hactive : row.session.status = .active) : db.Returns row t ↔ t ≤ row.session.expiresAt := by
  unfold Returns getActiveSession
  simp only [Readings.at, findActive_expireStaleActiveSession hdb hrow hactive]
  split_ifs with hle <;> simp [hle]

theorem conflicts_iff (hdb : db.Constrained) (hrow : row ∈ db.sessions)
    (hactive : row.session.status = .active) {durationMinutes : ℤ} {id : String}
    (hid : db.findUnique id = none) :
    db.Conflicts row durationMinutes id t ↔ t ≤ row.session.expiresAt := by
  obtain ⟨machine, hmachine, hrowMachine⟩ := hdb.machine row hrow
  have hany : (db.machines.any fun machine => machine.id = row.machineId) = true :=
    List.any_eq_true.2 ⟨machine, hmachine, decide_eq_true hrowMachine⟩
  have hfresh := db.isSome_findUnique_expireStaleActiveSession row.machineId id t t
  rw [hid] at hfresh
  have hnone : ((db.expireStaleActiveSession row.machineId t t).findUnique id).isSome = false :=
    hfresh
  unfold Conflicts start
  simp only [Readings.at, hany, if_true, findActive_expireStaleActiveSession hdb hrow hactive, hnone]
  by_cases hle : t ≤ row.session.expiresAt <;> simp [hle]

theorem accepts_iff (hdb : db.Constrained) (hrow : row ∈ db.sessions)
    (hactive : row.session.status = .active) (change : Change) :
    db.Accepts row change t ↔ t < row.session.expiresAt := by
  unfold Accepts edit
  simp only [Readings.at, findUnique_eq hdb hrow]
  by_cases hle : row.session.expiresAt ≤ t
  · simp [hle]
  · simp [hle, hactive, not_le.1 hle]

theorem allowed_iff (hactive : row.session.status = .active) :
    (Agent.advance (some (snapshot row.session)) (nanos t)).2 = .allowed ↔
      t < row.session.expiresAt := by
  rw [Agent.advance_allowed_iff, ← nanos_lt_nanos_iff]
  constructor
  · rintro ⟨s, hs, -, hlt⟩
    obtain rfl := Option.some.inj hs
    exact hlt
  · exact fun hlt => ⟨_, rfl, hactive, hlt⟩

/-- All that decide about an `ACTIVE` row agree exactly when it is not the instant of its deadline. -/
theorem deciders_agree_iff (hdb : db.Constrained) (hrow : row ∈ db.sessions)
    (hactive : row.session.status = .active) (t durationMinutes additionalMinutes : ℤ) {id : String}
    (hid : db.findUnique id = none) :
    ((db.Returns row t ↔ db.Accepts row (.extend additionalMinutes) t) ∧
        (db.Returns row t ↔ db.Accepts row .end t) ∧
        (db.Returns row t ↔ db.Conflicts row durationMinutes id t) ∧
        (db.Returns row t ↔
          (Agent.advance (some (snapshot row.session)) (nanos t)).2 = .allowed)) ↔
      t ≠ row.session.expiresAt := by
  rw [returns_iff hdb hrow hactive, accepts_iff hdb hrow hactive, accepts_iff hdb hrow hactive,
    conflicts_iff hdb hrow hactive hid, allowed_iff hactive]
  omega

/-- One machine, with a session that runs for a minute. -/
def minute : SessionRow :=
  { machineId := "m1"
    session := { id := "s1", startedAt := 0, expiresAt := 60000, endedAt := none, status := .active,
                 updatedAt := 0 } }

def oneMinute : Database :=
  { machines := [{ id := "m1", name := "Front desk", platform := .linux }], sessions := [minute] }

theorem oneMinute_constrained : oneMinute.Constrained where
  ids := by simp [oneMinute]
  active := by simp [oneMinute]
  machine := by simp [oneMinute, minute]

/-- A millisecond before the deadline. -/
theorem deciders_agree_before :
    (oneMinute.Returns minute 59999 ↔ oneMinute.Accepts minute (.extend 15) 59999) ∧
      (oneMinute.Returns minute 59999 ↔ oneMinute.Accepts minute .end 59999) ∧
      (oneMinute.Returns minute 59999 ↔ oneMinute.Conflicts minute 30 "s2" 59999) ∧
      (oneMinute.Returns minute 59999 ↔
        (Agent.advance (some (snapshot minute.session)) (nanos 59999)).2 = .allowed) :=
  (deciders_agree_iff oneMinute_constrained (by decide) rfl 59999 30 15 rfl).2 (by decide)

/-- At its deadline the session is returned and is in the way of another one, while it cannot be ended
and the machine is blocked. -/
theorem returned_at_deadline :
    oneMinute.Constrained ∧ minute ∈ oneMinute.sessions ∧ minute.session.status = .active ∧
      oneMinute.Returns minute 60000 ∧ oneMinute.Conflicts minute 30 "s2" 60000 ∧
      ¬ oneMinute.Accepts minute (.extend 15) 60000 ∧ ¬ oneMinute.Accepts minute .end 60000 ∧
      (Agent.advance (some (snapshot minute.session)) (nanos 60000)).2 = .blocked := by
  refine ⟨oneMinute_constrained, by decide, rfl, by unfold Returns; decide,
    by unfold Conflicts; decide, ?_, ?_, by decide⟩
  · rintro ⟨session, h⟩
    cases h
  · rintro ⟨session, h⟩
    cases h

end Database

end Taymna.Api
