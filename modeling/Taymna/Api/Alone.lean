import Mathlib.Data.List.Find
import Taymna.Api.SessionTable

/-!
# A call that runs alone

The calls of the pool and those on the table are the same code: when nothing else happens between
the awaits of a call, the pool that holds one machine's rows does to them what `Database` does, and
the call returns what `Database` returns. -/

namespace Taymna.Api

open Automata SessionsService

variable {Hash : Type*} {db : Database} {machineId : String} {clock : Readings} {w : World Hash}

namespace Database

/-- The rows of one machine. -/
def rowsOf (db : Database) (machineId : String) : List Session :=
  (db.sessions.filter fun row => row.machineId = machineId).map SessionRow.session

theorem rowsOf_map {f : SessionRow → SessionRow} {g : Session → Session}
    (hmachine : ∀ row, (f row).machineId = row.machineId)
    (hf : ∀ row : SessionRow, row.machineId = machineId → (f row).session = g row.session) :
    rowsOf { db with sessions := db.sessions.map f } machineId = (db.rowsOf machineId).map g := by
  unfold rowsOf
  simp only [List.filter_map, List.map_map, Function.comp_def, hmachine]
  exact List.map_congr_left fun row hrow => hf row (by simpa using (List.mem_filter.1 hrow).2)

theorem SessionRow.expire_session (now updatedAt : ℤ) (row : SessionRow) :
    (row.expire now updatedAt).session =
      if Stale now row.session then { row.session with status := .expired, updatedAt := updatedAt }
      else row.session := by
  unfold SessionRow.expire
  split_ifs <;> rfl

theorem rowsOf_expireStaleActiveSession (db : Database) (machineId : String) (now updatedAt : ℤ) :
    (db.expireStaleActiveSession machineId now updatedAt).rowsOf machineId =
      expireStale now updatedAt (db.rowsOf machineId) := by
  refine rowsOf_map (fun row => ?_) fun row hrow => ?_
  · split_ifs <;> simp
  · rw [if_pos hrow]
    exact SessionRow.expire_session now updatedAt row

theorem rowsOf_sweep :
    (db.sweep clock).rowsOf machineId = expireStale clock.first clock.second (db.rowsOf machineId) := by
  exact rowsOf_map (fun row => SessionRow.expire_machineId _ _ row) fun row _ =>
    SessionRow.expire_session _ _ row

theorem findActive_rowsOf (db : Database) (machineId : String) :
    SessionsService.findActive (db.rowsOf machineId) =
      (db.findActive machineId).map SessionRow.session := by
  unfold SessionsService.findActive rowsOf Database.findActive
  rw [List.find?_map, List.find?_filter]
  simp

/-- A session of the machine is found among the machine's rows. -/
theorem findUnique_rowsOf {sessionId : String}
    (h : ∀ row ∈ db.sessions, row.session.id = sessionId → row.machineId = machineId) :
    SessionsService.findUnique (db.rowsOf machineId) sessionId =
      (db.findUnique sessionId).map SessionRow.session := by
  unfold SessionsService.findUnique rowsOf Database.findUnique
  rw [List.find?_map, List.find?_filter]
  refine congrArg (Option.map SessionRow.session) (List.find?_congr fun row hrow => ?_)
  by_cases hid : row.session.id = sessionId
  · simp [hid, h row hrow hid]
  · simp [hid]

end Database

/-- What a call has returned. -/
def SessionCall.outcome : SessionCall → Option Outcome
  | .start (.done session) | .edit _ _ (.done session) => some (.done session)
  | .start .notFound | .edit _ _ .notFound => some .notFound
  | .start .conflict | .edit _ _ .conflict => some .conflict
  | .getActiveSession (.found session) => some (.active session)
  | _ => none

namespace SessionPool

/-- The request `e`, served alone, leaves `rows` and returns `outcome`. -/
def ServedAlone (w : World Hash) (e : SessionEvent) (rows : List Session) (outcome : Option Outcome) :
    Prop :=
  ∃ es w' c, run next ⟨w, []⟩ (.env e :: es) = some ⟨w', [c]⟩ ∧ w'.sessions = rows ∧ c.outcome = outcome

/-- The call goes on, `wait` after the last reading of the clock and `again` after that. -/
def go (wait again : ℤ) (id : String) : Pool.Label SessionEvent Input :=
  .call 0 ⟨wait, again, "", id, 0⟩

theorem getActiveSession_alone (hw : w.sessions = db.rowsOf machineId) :
    ServedAlone w (.getActiveSession (clock.first - w.clock))
      ((db.getActiveSession machineId clock).1.rowsOf machineId)
      (some (db.getActiveSession machineId clock).2) := by
  refine ⟨[go (clock.second - clock.first) 0 "", go 0 0 "", go 0 0 ""], _, _, rfl, ?_, ?_⟩
  · simp only [World.read, add_sub_cancel, hw]
    exact (Database.rowsOf_expireStaleActiveSession _ _ _ _).symm
  · simp only [World.read, add_sub_cancel, hw, SessionCall.outcome, Database.getActiveSession]
    rw [← Database.rowsOf_expireStaleActiveSession, Database.findActive_rowsOf]

/-- A `start` up to its `session.create`. -/
theorem run_start (clock : Readings) (hw : w.sessions = db.rowsOf machineId)
    (hm : w.machine.isSome = true)
    {durationMinutes : ℤ} (hallowed : allowedMinutes durationMinutes = true) :
    run next ⟨w, []⟩ [.env (.start durationMinutes), go 0 0 "", go (clock.first - w.clock) 0 "",
        go (clock.second - clock.first) 0 "", go (clock.third - clock.second) 0 "",
        go (clock.fourth - clock.third) 0 ""] =
      some ⟨{ w with
          clock := clock.fourth
          sessions := (db.expireStaleActiveSession machineId clock.first clock.second).rowsOf machineId },
        [.start (.stamped clock.third (clock.third + durationMinutes * 60000) clock.fourth)]⟩ := by
  simp [run, next, Pool.next, event, step, StartSession.step, go, hallowed, hm, World.read, hw,
    Database.rowsOf_expireStaleActiveSession]

theorem start_alone (hw : w.sessions = db.rowsOf machineId)
    (hmachine : w.machine.isSome = db.machines.any fun machine => machine.id = machineId)
    {durationMinutes : ℤ} (hallowed : allowedMinutes durationMinutes = true) {id : String}
    (hid : db.findUnique id = none) :
    ServedAlone w (.start durationMinutes)
      ((db.start machineId durationMinutes id clock).1.rowsOf machineId)
      (some (db.start machineId durationMinutes id clock).2) := by
  by_cases hm : w.machine.isSome = true
  · have hrun := run_start clock hw hm hallowed
    have hnew :
        (db.expireStaleActiveSession machineId clock.first clock.second).findUnique id = none := by
      rw [← Option.not_isSome_iff_eq_none, Database.isSome_findUnique_expireStaleActiveSession, hid]
      simp
    have hfresh : ∀ r ∈ (db.expireStaleActiveSession machineId clock.first clock.second).rowsOf machineId,
        r.id ≠ id := by
      intro r hr
      obtain ⟨row, hrow, rfl⟩ := List.mem_map.1 hr
      simpa using List.find?_eq_none.1 hnew row (List.mem_filter.1 hrow).1
    have hactive := Database.findActive_rowsOf
      (db.expireStaleActiveSession machineId clock.first clock.second) machineId
    rw [hm] at hmachine
    unfold Database.start
    simp only [← hmachine, if_true, hnew, Option.isSome_none, Bool.false_eq_true, or_false]
    generalize db.expireStaleActiveSession machineId clock.first clock.second = mid at *
    have hany : ((mid.rowsOf machineId).any fun row => row.id = id) = false := by simpa using hfresh
    obtain ⟨m, hm'⟩ := Option.isSome_iff_exists.1 hm
    cases hfound : mid.findActive machineId with
    | some row =>
      rw [hfound] at hactive
      refine ⟨_ ++ [go 0 0 id, go 0 0 ""], { w with clock := clock.fourth, sessions := mid.rowsOf machineId },
        .start .conflict, run_append_eq_some.2 ⟨_, hrun, ?_⟩, rfl, rfl⟩
      simp [run, next, Pool.next, step, StartSession.step, go, hm', hany, create, hactive]
    | none =>
      rw [hfound] at hactive
      let row : Session :=
        { id := id, startedAt := clock.third, expiresAt := clock.third + durationMinutes * 60000,
          endedAt := none, status := .active, updatedAt := clock.fourth }
      let created : World Hash :=
        { w with clock := clock.fourth, sessions := mid.rowsOf machineId ++ [row] }
      refine ⟨_ ++ [go 0 0 id, go 0 0 ""], pushSessionUpdate created row 0, .start (.done row),
        run_append_eq_some.2 ⟨_, hrun, ?_⟩, ?_, rfl⟩
      · simp [run, next, Pool.next, step, StartSession.step, go, hm', hany, create, hactive, created, row]
      · rw [pushSessionUpdate_sessions]
        simp [created, row, Database.rowsOf]
  · rw [Bool.not_eq_true] at hm
    refine ⟨[go 0 0 "", go 0 0 ""], w, .start .notFound, ?_, ?_, ?_⟩
    · simp [run, next, Pool.next, event, step, StartSession.step, go, hallowed, hm]
    · rw [hm] at hmachine
      simp [Database.start, ← hmachine, hw]
    · rw [hm] at hmachine
      simp [Database.start, ← hmachine, SessionCall.outcome]

theorem edit_alone (hw : w.sessions = db.rowsOf machineId) {sessionId : String}
    (hmachine : ∀ row ∈ db.sessions, row.session.id = sessionId → row.machineId = machineId)
    {change : Change} (hallowed : change.allowed = true) :
    ServedAlone w (.edit sessionId change) ((db.edit sessionId change clock).1.rowsOf machineId)
      (some (db.edit sessionId change clock).2) := by
  have hfind := Database.findUnique_rowsOf hmachine
  unfold Database.edit
  cases hfound : db.findUnique sessionId with
  | none =>
    rw [hfound] at hfind
    refine ⟨[go 0 0 "", go 0 0 ""], w, .edit sessionId change .notFound, ?_, hw, rfl⟩
    simp [run, next, Pool.next, event, step, EditSession.step, go, hallowed, hw, hfind]
  | some row =>
    rw [hfound] at hfind
    obtain rfl : row.session.id = sessionId := by simpa using List.find?_some hfound
    simp only
    split_ifs with hrefused
    · by_cases hs : row.session.status = .active
      · have hle : row.session.expiresAt ≤ clock.first := hrefused.resolve_left (not_not.2 hs)
        refine ⟨[go 0 0 "", go (clock.first - w.clock) 0 ""], { w with clock := clock.first },
          .edit row.session.id change .conflict, ?_, hw, rfl⟩
        simp [run, next, Pool.next, event, step, EditSession.step, go, hallowed, hw, hfind, hs, hle,
          World.read]
      · refine ⟨[go 0 0 "", go 0 0 ""], w, .edit row.session.id change .conflict, ?_, hw, rfl⟩
        simp [run, next, Pool.next, event, step, EditSession.step, go, hallowed, hw, hfind, hs]
    · obtain ⟨hs, hlt⟩ : row.session.status = .active ∧ clock.first < row.session.expiresAt := by
        simpa using hrefused
      let edit := EditSession.edit row.session clock.second change
      let written : World Hash :=
        { w with
          clock := clock.third
          sessions := (db.rowsOf machineId).map fun r =>
            if r.id = row.session.id then edit.apply clock.third r else r }
      refine ⟨[go 0 0 "", go (clock.first - w.clock) (clock.second - clock.first) "",
          go (clock.third - clock.second) 0 "", go 0 0 "", go 0 0 ""],
        pushSessionUpdate written (edit.apply clock.third row.session) 0,
        .edit row.session.id change (.done (edit.apply clock.third row.session)), ?_, ?_, rfl⟩
      · simp [run, next, Pool.next, event, step, EditSession.step, go, hallowed, hw, hfind, hs,
          hlt.not_ge, World.read, update, edit, written]
      · rw [pushSessionUpdate_sessions]
        refine (Database.rowsOf_map (fun r => ?_) fun r _ => ?_).symm
        · split_ifs <;> rfl
        · split_ifs <;> rfl

theorem sweep_alone (hw : w.sessions = db.rowsOf machineId) :
    ServedAlone w (.sweep (clock.first - w.clock)) ((db.sweep clock).rowsOf machineId) none := by
  refine ⟨[go (clock.second - clock.first) 0 ""], _, _, rfl, ?_, rfl⟩
  simp only [World.read, add_sub_cancel, hw]
  exact Database.rowsOf_sweep.symm

end SessionPool

end Taymna.Api
