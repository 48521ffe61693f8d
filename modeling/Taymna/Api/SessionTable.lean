import Taymna.Api.SessionPool
import Taymna.Api.Usage

/-!
# The sessions of all machines, one call at a time

What `SessionsService`, `SessionsSweeper` and `ReportsService` do to the whole table when each call
runs to its end before the next one starts. A call reads the clock up to four times (`Readings`):
for what it compares deadlines with, for what it writes, and for the stamps of the rows.  A report
gets the rows in the order in which the database returns them (`RowOrder`).
-/

namespace Taymna.Api

open Number (Arithmetic)
open SessionsService (Stale Running Edit)

/-- A row of `sessions`, with its machine. -/
structure SessionRow where
  machineId : String
  session : Session
deriving DecidableEq, Repr

/-- The machines and the sessions. -/
structure Database where
  machines : List ReportedMachine
  sessions : List SessionRow
deriving DecidableEq, Repr

/-- What the clock shows to one call. -/
structure Readings where
  first : ℤ
  second : ℤ
  third : ℤ
  fourth : ℤ
deriving DecidableEq, Repr

/-- Every reading shows `t`. -/
def Readings.at (t : ℤ) : Readings := { first := t, second := t, third := t, fourth := t }

/-- The clock does not go back while the call runs. -/
def Readings.Ordered (clock : Readings) : Prop :=
  clock.first ≤ clock.second ∧ clock.second ≤ clock.third ∧ clock.third ≤ clock.fourth

theorem Readings.Ordered.first_le_fourth {clock : Readings} (h : clock.Ordered) :
    clock.first ≤ clock.fourth := h.1.trans (h.2.1.trans h.2.2)

instance (clock : Readings) : Decidable clock.Ordered := inferInstanceAs (Decidable (_ ∧ _))

/-- The order in which the database returns the rows of a table, given by their places in it. -/
structure RowOrder where
  places : ℕ → List ℕ
  perm : ∀ n, (places n).Perm (List.range n)

namespace RowOrder

variable {α β : Type}

/-- As they were inserted. -/
def inserted : RowOrder where
  places := List.range
  perm _ := .refl _

/-- The rows that were inserted last come first. -/
def reversed : RowOrder where
  places n := (List.range n).reverse
  perm _ := List.reverse_perm _

/-- The rows in that order. -/
def arrange (order : RowOrder) (rows : List α) : List α :=
  (order.places rows.length).filterMap fun i => rows[i]?

theorem arrange_map (order : RowOrder) (f : α → β) (rows : List α) :
    order.arrange (rows.map f) = (order.arrange rows).map f := by
  unfold arrange
  rw [List.length_map, List.map_filterMap]
  simp only [List.getElem?_map]

theorem arrange_perm (order : RowOrder) (rows : List α) : (order.arrange rows).Perm rows := by
  have hrange : (List.range rows.length).filterMap (fun i => rows[i]?) = rows := by
    induction rows using List.reverseRecOn with
    | nil => rfl
    | append_singleton rows row ih =>
      rw [List.length_append, List.length_singleton, List.range_succ, List.filterMap_append]
      have hinit : (List.range rows.length).filterMap (fun i => (rows ++ [row])[i]?) = rows := by
        refine (List.filterMap_congr fun i hi => ?_).trans ih
        exact List.getElem?_append_left (List.mem_range.1 hi)
      rw [hinit]
      simp
  exact ((order.perm rows.length).filterMap _).trans (List.Perm.of_eq hrange)

end RowOrder

/-- What a call returns. -/
inductive Outcome
  /-- What `getActiveSession` returns. -/
  | active (session : Option Session)
  /-- What `start`, `extend` and `end` return. -/
  | done (session : Session)
  | notFound
  | conflict
  | badRequest
  | report (machines : List MachineUsage)
deriving DecidableEq, Repr

/-- What an expiry does to a row that it selects. -/
def SessionRow.expire (now updatedAt : ℤ) (row : SessionRow) : SessionRow :=
  if Stale now row.session then
    { row with session := { row.session with status := .expired, updatedAt := updatedAt } }
  else row

@[simp] theorem SessionRow.expire_machineId (now updatedAt : ℤ) (row : SessionRow) :
    (row.expire now updatedAt).machineId = row.machineId := by
  unfold SessionRow.expire
  split_ifs <;> rfl

@[simp] theorem SessionRow.expire_id (now updatedAt : ℤ) (row : SessionRow) :
    (row.expire now updatedAt).session.id = row.session.id := by
  unfold SessionRow.expire
  split_ifs <;> rfl

/-- What the query for a report selects of a row. -/
def SessionRow.usage (row : SessionRow) : UsageSession :=
  { machineId := row.machineId
    startedAt := row.session.startedAt
    expiresAt := row.session.expiresAt
    endedAt := row.session.endedAt
    status := row.session.status }

/-- `MAX_RANGE_MS`: a year and a day. -/
def maxRangeMs : ℤ := 366 * 24 * 60 * 60 * 1000

namespace Database

/-- `updateMany` of the machine's `ACTIVE` rows whose deadline has passed. -/
def expireStaleActiveSession (db : Database) (machineId : String) (now updatedAt : ℤ) : Database :=
  { db with
    sessions := db.sessions.map fun row =>
      if row.machineId = machineId then row.expire now updatedAt else row }

/-- `findFirst` of the machine's `ACTIVE` row. -/
def findActive (db : Database) (machineId : String) : Option SessionRow :=
  db.sessions.find? fun row => row.machineId = machineId ∧ row.session.status = .active

/-- `findUnique` by the primary key. -/
def findUnique (db : Database) (sessionId : String) : Option SessionRow :=
  db.sessions.find? fun row => row.session.id = sessionId

theorem isSome_findUnique_expireStaleActiveSession (db : Database) (machineId sessionId : String)
    (now updatedAt : ℤ) :
    ((db.expireStaleActiveSession machineId now updatedAt).findUnique sessionId).isSome =
      (db.findUnique sessionId).isSome := by
  have hid : ∀ row : SessionRow, (if row.machineId = machineId then row.expire now updatedAt
      else row).session.id = row.session.id := by
    intro row
    split_ifs <;> simp
  unfold findUnique expireStaleActiveSession
  simp only [List.find?_map, Option.isSome_map, Function.comp_def, hid]

/-- The machine's `ACTIVE` session, after those that have run out have been expired. -/
def getActiveSession (db : Database) (machineId : String) (clock : Readings) : Database × Outcome :=
  let db := db.expireStaleActiveSession machineId clock.first clock.second
  (db, .active ((db.findActive machineId).map SessionRow.session))

/-- `session.create` conflicts with an `ACTIVE` row of the machine, as with a row of the same id. -/
def start (db : Database) (machineId : String) (durationMinutes : ℤ) (id : String) (clock : Readings) :
    Database × Outcome :=
  if db.machines.any fun machine => machine.id = machineId then
    let db := db.expireStaleActiveSession machineId clock.first clock.second
    if (db.findActive machineId).isSome ∨ (db.findUnique id).isSome then (db, .conflict)
    else
      let session := { id := id, startedAt := clock.third,
                       expiresAt := clock.third + durationMinutes * 60000, endedAt := none,
                       status := .active, updatedAt := clock.fourth }
      ({ db with sessions := db.sessions ++ [⟨machineId, session⟩] }, .done session)
  else (db, .notFound)

/-- What `extend` and `end` have in common. -/
def edit (db : Database) (sessionId : String) (change : Change) (clock : Readings) :
    Database × Outcome :=
  match db.findUnique sessionId with
  | none => (db, .notFound)
  | some row =>
    if row.session.status ≠ .active ∨ row.session.expiresAt ≤ clock.first then (db, .conflict)
    else
      let edit := EditSession.edit row.session clock.second change
      ({ db with
          sessions := db.sessions.map fun r =>
            if r.session.id = row.session.id then { r with session := edit.apply clock.third r.session }
            else r },
        .done (edit.apply clock.third row.session))

/-- The deadline is moved, from where it was read. -/
def extend (db : Database) (sessionId : String) (additionalMinutes : ℤ) (clock : Readings) :
    Database × Outcome := db.edit sessionId (.extend additionalMinutes) clock

/-- The session is over before its deadline. -/
def «end» (db : Database) (sessionId : String) (clock : Readings) : Database × Outcome :=
  db.edit sessionId .end clock

/-- `SessionsSweeper.sweep`: every machine's sessions that have run out are expired. -/
def sweep (db : Database) (clock : Readings) : Database :=
  { db with sessions := db.sessions.map (SessionRow.expire clock.first clock.second) }

/-- `ReportsService.usage`, as far as `summarizeUsage` goes. -/
def usage (arithmetic : Arithmetic) (localeCompare : String → String → ℤ) (order : RowOrder)
    (db : Database) (windowFrom windowTo : ℤ) (clock : Readings) : Outcome :=
  if windowTo ≤ windowFrom then .badRequest
  else if windowTo - windowFrom > maxRangeMs then .badRequest
  else
    let sessions := ((order.arrange db.sessions).map SessionRow.usage).filter fun session =>
      session.startedAt < windowTo ∧ session.expiresAt > windowFrom
    .report (summarizeUsage arithmetic localeCompare db.machines sessions windowFrom windowTo
      clock.first)

end Database

/-! ## Sequences of calls -/

/-- A call of the services, or a report. -/
inductive Operation
  /-- With the id that the database draws for the row. -/
  | start (machineId : String) (durationMinutes : ℤ) (id : String)
  | extend (sessionId : String) (additionalMinutes : ℤ)
  | end (sessionId : String)
  | getActiveSession (machineId : String)
  | usage (windowFrom windowTo : ℤ)
  | sweep
deriving DecidableEq, Repr

/-- A call, and what the clock shows to it. -/
structure Executed where
  operation : Operation
  clock : Readings
deriving DecidableEq, Repr

namespace Database

variable (arithmetic : Arithmetic) (localeCompare : String → String → ℤ)

/-- One call; a sweep returns nothing to anybody. -/
def serve (order : RowOrder) (db : Database) (e : Executed) : Database × Option Outcome :=
  match e.operation with
  | .start machineId durationMinutes id =>
    let (db, outcome) := db.start machineId durationMinutes id e.clock
    (db, some outcome)
  | .extend sessionId additionalMinutes =>
    let (db, outcome) := db.extend sessionId additionalMinutes e.clock
    (db, some outcome)
  | .end sessionId =>
    let (db, outcome) := db.end sessionId e.clock
    (db, some outcome)
  | .getActiveSession machineId =>
    let (db, outcome) := db.getActiveSession machineId e.clock
    (db, some outcome)
  | .usage windowFrom windowTo =>
    (db, some (db.usage arithmetic localeCompare order windowFrom windowTo e.clock))
  | .sweep => (db.sweep e.clock, none)

/-- What the calls return, one after the other; the `n`-th of them to return anything finds the rows
in `order n`. -/
def outcomes (order : ℕ → RowOrder) : Database → List Executed → List Outcome
  | _, [] => []
  | db, e :: es =>
    let (db, outcome) := db.serve arithmetic localeCompare (order 0) e
    outcome.toList ++ outcomes (fun n => order (n + outcome.toList.length)) db es

theorem outcomes_cons (order : ℕ → RowOrder) (db : Database) (e : Executed) (es : List Executed) :
    db.outcomes arithmetic localeCompare order (e :: es) =
      (db.serve arithmetic localeCompare (order 0) e).2.toList ++
        (db.serve arithmetic localeCompare (order 0) e).1.outcomes arithmetic localeCompare
          (fun n => order (n + (db.serve arithmetic localeCompare (order 0) e).2.toList.length)) es :=
  rfl

end Database

/-- The clock does not go back, neither in a call nor from one to the next. -/
def Chronological (es : List Executed) : Prop :=
  (∀ e ∈ es, e.clock.Ordered) ∧ es.Pairwise fun e e' => e.clock.fourth ≤ e'.clock.first

instance (es : List Executed) : Decidable (Chronological es) := inferInstanceAs (Decidable (_ ∧ _))

end Taymna.Api
