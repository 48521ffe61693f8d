import Taymna.Api.SessionTable

/-!
# The sweep is unobservable

`asOf t` is what the table amounts to from `t` on: a row that is `ACTIVE` past its deadline counts
as expired, and when a row was marked so is forgotten. A sweep that is over by `t` leaves it alone,
and no call that starts at `t` or later sees more of the table than that. So the sweeps can be left
out of any sequence of calls. A sum of doubles depends on the order of its terms, so a report is the
same where it finds the rows in the same order; in exact arithmetic it is the same in any.
-/

namespace Taymna.Api

open Number (Arithmetic)
open SessionsService (Stale Running Edit)

variable {t now updatedAt : ℤ} {row : SessionRow} {db : Database} {arithmetic : Arithmetic}

/-! ## The table from an instant on -/

namespace SessionRow

/-- The row's deadline has passed by `t`, whether or not it is marked. -/
def Over (t : ℤ) (row : SessionRow) : Prop :=
  row.session.status = .expired ∨ Stale t row.session

instance (t : ℤ) (row : SessionRow) : Decidable (row.Over t) := inferInstanceAs (Decidable (_ ∨ _))

def asOf (t : ℤ) (row : SessionRow) : SessionRow :=
  if row.Over t then { row with session := { row.session with status := .expired, updatedAt := 0 } }
  else row

theorem asOf_of_over (h : row.Over t) :
    row.asOf t = { row with session := { row.session with status := .expired, updatedAt := 0 } } :=
  if_pos h

theorem asOf_of_not_over (h : ¬ row.Over t) : row.asOf t = row := if_neg h

theorem not_over_of_running (ht : t ≤ now) (h : Running now row.session) : ¬ row.Over t := by
  rintro (hs | ⟨-, hlt⟩)
  · cases h.1.symm.trans hs
  · exact absurd h.2 (not_lt.2 (hlt.le.trans ht))

@[simp] theorem asOf_machineId : (row.asOf t).machineId = row.machineId := by
  unfold asOf
  split_ifs <;> rfl

@[simp] theorem asOf_id : (row.asOf t).session.id = row.session.id := by
  unfold asOf
  split_ifs <;> rfl

/-- What is over stays over. -/
theorem over_asOf_iff {t' : ℤ} (ht : t ≤ t') : (row.asOf t).Over t' ↔ row.Over t' := by
  by_cases h : row.Over t
  · have h' : row.Over t' := h.imp_right fun hs => ⟨hs.1, hs.2.trans_le ht⟩
    simp only [h', iff_true]
    rw [asOf_of_over h]
    exact Or.inl rfl
  · rw [asOf_of_not_over h]

theorem asOf_asOf {t' : ℤ} (ht : t ≤ t') : (row.asOf t).asOf t' = row.asOf t' := by
  by_cases h' : row.Over t'
  · rw [asOf_of_over ((over_asOf_iff ht).2 h'), asOf_of_over h']
    by_cases h : row.Over t
    · rw [asOf_of_over h]
    · rw [asOf_of_not_over h]
  · have h : ¬ row.Over t := fun h => h' (h.imp_right fun hs => ⟨hs.1, hs.2.trans_le ht⟩)
    rw [asOf_of_not_over h]

/-- An expiry that is over by `t` changes nothing from then on. -/
theorem asOf_expire (ht : now ≤ t) : (row.expire now updatedAt).asOf t = row.asOf t := by
  unfold expire
  split_ifs with hstale
  · have h : row.Over t := Or.inr ⟨hstale.1, hstale.2.trans_le ht⟩
    rw [asOf_of_over h]
    exact asOf_of_over (Or.inl rfl)
  · rfl

/-- A row that is not running has nothing more to lose. -/
theorem running_asOf_iff (ht : t ≤ now) : Running now (row.asOf t).session ↔ Running now row.session := by
  by_cases h : row.Over t
  · refine ⟨fun hr => ?_, fun hr => absurd h (not_over_of_running ht hr)⟩
    rw [asOf_of_over h] at hr
    cases hr.1
  · rw [asOf_of_not_over h]

/-- A row that is over is not `ACTIVE` after an expiry. -/
theorem expire_status_ne (ht : t ≤ now) (h : row.Over t) :
    (row.expire now updatedAt).session.status ≠ .active := by
  unfold expire
  split_ifs with hstale
  · simp
  · rcases h with hs | hs
    · simp [hs]
    · exact absurd ⟨hs.1, hs.2.trans_le ht⟩ hstale

@[simp] theorem asOf_startedAt : (row.asOf t).session.startedAt = row.session.startedAt := by
  unfold asOf
  split_ifs <;> rfl

@[simp] theorem asOf_expiresAt : (row.asOf t).session.expiresAt = row.session.expiresAt := by
  unfold asOf
  split_ifs <;> rfl

/-- What a report sees of it. -/
theorem use_asOf (ht : t ≤ now) : (row.asOf t).usage.use now = row.usage.use now := by
  unfold asOf
  split_ifs with h
  · rcases h with hs | hstale
    · simp [usage, UsageSession.use, usableUntil, hs]
    · have hlt : row.usage.expiresAt < now := hstale.2.trans_le ht
      have huntil := usableUntil_expired hlt
      exact congrArg (fun u => (row.machineId, row.session.startedAt, u)) huntil
  · rfl

end SessionRow

namespace Database

/-- The whole table. -/
def asOf (t : ℤ) (db : Database) : Database :=
  { db with sessions := db.sessions.map (SessionRow.asOf t) }

theorem asOf_asOf {t' : ℤ} (ht : t ≤ t') : (db.asOf t).asOf t' = db.asOf t' := by
  unfold asOf
  simp only [List.map_map]
  exact congrArg (Database.mk db.machines) (List.map_congr_left fun row _ => SessionRow.asOf_asOf ht)

theorem asOf_sweep {clock : Readings} (ht : clock.first ≤ t) : (db.sweep clock).asOf t = db.asOf t := by
  unfold sweep asOf
  simp only [List.map_map]
  exact congrArg (Database.mk db.machines) (List.map_congr_left fun row _ => SessionRow.asOf_expire ht)

theorem asOf_expireStaleActiveSession {machineId : String} (ht : now ≤ t) :
    (db.expireStaleActiveSession machineId now updatedAt).asOf t = db.asOf t := by
  unfold expireStaleActiveSession asOf
  simp only [List.map_map]
  refine congrArg (Database.mk db.machines) (List.map_congr_left fun row _ => ?_)
  simp only [Function.comp]
  split_ifs
  · exact SessionRow.asOf_expire ht
  · rfl

theorem findUnique_asOf (sessionId : String) :
    (db.asOf t).findUnique sessionId = (db.findUnique sessionId).map (SessionRow.asOf t) := by
  unfold findUnique asOf
  simp only [List.find?_map, Function.comp_def, SessionRow.asOf_id]

/-- A row that is `ACTIVE` after an expiry runs on, so it looks the same from `t` on. -/
theorem findActive_expireStaleActiveSession_asOf {machineId : String} (ht : t ≤ now) :
    ((db.asOf t).expireStaleActiveSession machineId now updatedAt).findActive machineId =
      (db.expireStaleActiveSession machineId now updatedAt).findActive machineId := by
  unfold findActive expireStaleActiveSession asOf
  simp only [List.map_map]
  induction db.sessions with
  | nil => rfl
  | cons row rows ih =>
    simp only [List.map_cons, Function.comp]
    by_cases hm : row.machineId = machineId
    · by_cases h : row.Over t
      · have h' : (row.asOf t).Over t := (SessionRow.over_asOf_iff le_rfl).2 h
        rw [List.find?_cons_of_neg, List.find?_cons_of_neg]
        · exact ih
        · simp [hm, SessionRow.expire_status_ne ht h]
        · simp [hm, SessionRow.expire_status_ne ht h']
      · rw [SessionRow.asOf_of_not_over h, List.find?_cons, List.find?_cons, ih]
    · rw [List.find?_cons_of_neg, List.find?_cons_of_neg]
      · exact ih
      · simp [hm]
      · simp [hm]

/-! ## One call -/

/-- A call on either table returns the same, and leaves the same table from `t` on. -/
structure SameFrom (t : ℤ) (r r' : Database × Outcome) : Prop where
  outcome : r.2 = r'.2
  rows : r.1.asOf t = r'.1.asOf t

variable {clock : Readings}

theorem expireStaleActiveSession_asOf (machineId : String) (ht : t ≤ clock.first)
    (hle : clock.first ≤ clock.fourth) :
    ((db.asOf t).expireStaleActiveSession machineId clock.first clock.second).asOf clock.fourth =
      (db.expireStaleActiveSession machineId clock.first clock.second).asOf clock.fourth :=
  calc _ = (db.asOf t).asOf clock.fourth := asOf_expireStaleActiveSession hle
    _ = db.asOf clock.fourth := asOf_asOf (ht.trans hle)
    _ = _ := (asOf_expireStaleActiveSession hle).symm

theorem getActiveSession_asOf (machineId : String) (ht : t ≤ clock.first) (hclock : clock.Ordered) :
    SameFrom clock.fourth ((db.asOf t).getActiveSession machineId clock)
      (db.getActiveSession machineId clock) where
  outcome := by
    unfold getActiveSession
    simp only [findActive_expireStaleActiveSession_asOf ht]
  rows := expireStaleActiveSession_asOf machineId ht hclock.first_le_fourth

theorem start_asOf (machineId : String) (durationMinutes : ℤ) (id : String) (ht : t ≤ clock.first)
    (hclock : clock.Ordered) :
    SameFrom clock.fourth ((db.asOf t).start machineId durationMinutes id clock)
      (db.start machineId durationMinutes id clock) := by
  have hle := hclock.first_le_fourth
  have hrows : ((db.asOf t).expireStaleActiveSession machineId clock.first clock.second).asOf
      clock.fourth = (db.expireStaleActiveSession machineId clock.first clock.second).asOf clock.fourth :=
    expireStaleActiveSession_asOf machineId ht hle
  have hunique : ((db.asOf t).findUnique id).isSome = (db.findUnique id).isSome := by
    rw [findUnique_asOf, Option.isSome_map]
  unfold start
  simp only [findActive_expireStaleActiveSession_asOf ht, isSome_findUnique_expireStaleActiveSession,
    hunique]
  by_cases hmachine : db.machines.any fun machine => machine.id = machineId
  · have hmachine' : (db.asOf t).machines.any fun machine => machine.id = machineId := hmachine
    simp only [hmachine, hmachine', if_true]
    split_ifs
    · exact ⟨rfl, hrows⟩
    · refine ⟨rfl, ?_⟩
      unfold asOf at hrows ⊢
      simp only [List.map_append]
      rw [(Database.mk.inj hrows).2]
      rfl
  · have hmachine' : ¬ ((db.asOf t).machines.any fun machine => machine.id = machineId) := hmachine
    simp only [hmachine, hmachine']
    exact ⟨rfl, asOf_asOf (ht.trans hle)⟩

/-- The ids are the primary key. -/
def Keyed (db : Database) : Prop := (db.sessions.map fun row => row.session.id).Nodup

instance (db : Database) : Decidable db.Keyed := inferInstanceAs (Decidable (List.Nodup _))

theorem edit_asOf (hkeyed : db.Keyed) (sessionId : String) (change : Change) (ht : t ≤ clock.first)
    (hclock : clock.Ordered) :
    SameFrom clock.fourth ((db.asOf t).edit sessionId change clock)
      (db.edit sessionId change clock) := by
  have hle := hclock.first_le_fourth
  have hkeep : ((db.asOf t).asOf clock.fourth) = db.asOf clock.fourth := asOf_asOf (ht.trans hle)
  unfold edit
  rw [findUnique_asOf]
  cases hfind : db.findUnique sessionId with
  | none => exact ⟨rfl, hkeep⟩
  | some row =>
    have hmem : row ∈ db.sessions := List.mem_of_find?_eq_some hfind
    have hrefused : ∀ r : SessionRow, ¬ Running clock.first r.session →
        r.session.status ≠ .active ∨ r.session.expiresAt ≤ clock.first := by
      intro r hr
      by_cases hs : r.session.status = .active
      · exact Or.inr (not_lt.1 fun hlt => hr ⟨hs, hlt⟩)
      · exact Or.inl hs
    by_cases hrun : Running clock.first row.session
    · have hsame : row.asOf t = row :=
        SessionRow.asOf_of_not_over (SessionRow.not_over_of_running ht hrun)
      have hallowed : ¬ (row.session.status ≠ .active ∨ row.session.expiresAt ≤ clock.first) := by
        rintro (hs | hle)
        · exact hs hrun.1
        · exact absurd hrun.2 (not_lt.2 hle)
      simp only [Option.map_some, hsame, hallowed, if_false]
      refine ⟨rfl, ?_⟩
      unfold asOf
      simp only [List.map_map]
      refine congrArg (Database.mk db.machines) (List.map_congr_left fun r hr => ?_)
      simp only [Function.comp, SessionRow.asOf_id]
      split_ifs with hid
      · -- Only the row that was read has its id.
        rw [List.inj_on_of_nodup_map hkeyed hr hmem hid, hsame]
      · exact SessionRow.asOf_asOf (ht.trans hle)
    · have hrun' : ¬ Running clock.first (row.asOf t).session :=
        fun h => hrun ((SessionRow.running_asOf_iff ht).1 h)
      simp only [Option.map_some, hrefused row hrun, hrefused (row.asOf t) hrun', if_true]
      exact ⟨rfl, hkeep⟩

theorem usage_asOf (localeCompare : String → String → ℤ) {order order' : RowOrder}
    (horder : arithmetic = .exact ∨ order = order') (windowFrom windowTo : ℤ) (ht : t ≤ clock.first) :
    (db.asOf t).usage arithmetic localeCompare order windowFrom windowTo clock =
      db.usage arithmetic localeCompare order' windowFrom windowTo clock := by
  let selected (rows : List SessionRow) : List UsageSession :=
    (rows.map SessionRow.usage).filter fun session =>
      session.startedAt < windowTo ∧ session.expiresAt > windowFrom
  have huse : ∀ rows : List SessionRow,
      (selected (rows.map (SessionRow.asOf t))).map (UsageSession.use clock.first) =
        (selected rows).map (UsageSession.use clock.first) := by
    intro rows
    have hfilter : ∀ row : SessionRow, ((row.asOf t).usage.startedAt < windowTo ∧
        (row.asOf t).usage.expiresAt > windowFrom) ↔
        (row.usage.startedAt < windowTo ∧ row.usage.expiresAt > windowFrom) := fun row => by
      simp only [SessionRow.usage, SessionRow.asOf_startedAt, SessionRow.asOf_expiresAt]
    simp only [selected, List.filter_map, List.map_map, Function.comp_def, hfilter]
    exact List.map_congr_left fun row _ => SessionRow.use_asOf ht
  have hsummary : summarizeUsage arithmetic localeCompare db.machines
        (selected (order.arrange (db.asOf t).sessions)) windowFrom windowTo clock.first =
      summarizeUsage arithmetic localeCompare db.machines (selected (order'.arrange db.sessions))
        windowFrom windowTo clock.first := by
    have harrange : order.arrange (db.asOf t).sessions =
        (order.arrange db.sessions).map (SessionRow.asOf t) := order.arrange_map _ _
    rw [harrange]
    rcases horder with rfl | rfl
    · refine summarizeUsage_exact_congr _ _ _ localeCompare db.machines ?_
      rw [huse]
      have hperm := (order.arrange_perm db.sessions).trans (order'.arrange_perm db.sessions).symm
      exact ((hperm.map _).filter _).map _
    · exact summarizeUsage_congr _ _ _ _ localeCompare db.machines (huse _)
  unfold usage
  rw [show (db.asOf t).machines = db.machines from rfl]
  split_ifs
  · rfl
  · rfl
  · exact congrArg Outcome.report hsummary

/-- No call but a sweep sees more of the table, or leaves more of it to see. -/
theorem serve_asOf (localeCompare : String → String → ℤ) {order order' : RowOrder}
    (horder : arithmetic = .exact ∨ order = order') (hkeyed : db.Keyed) {e : Executed}
    (he : e.operation ≠ .sweep) (ht : t ≤ e.clock.first) (hclock : e.clock.Ordered) :
    ((db.asOf t).serve arithmetic localeCompare order e).2 =
        (db.serve arithmetic localeCompare order' e).2 ∧
      ((db.asOf t).serve arithmetic localeCompare order e).1.asOf e.clock.fourth =
        (db.serve arithmetic localeCompare order' e).1.asOf e.clock.fourth := by
  have hsome : ∀ {r r' : Database × Outcome}, SameFrom e.clock.fourth r r' →
      some r.2 = some r'.2 ∧ r.1.asOf e.clock.fourth = r'.1.asOf e.clock.fourth :=
    fun h => ⟨congrArg some h.outcome, h.rows⟩
  obtain ⟨operation, clock⟩ := e
  cases operation with
  | start machineId minutes id => exact hsome (start_asOf machineId minutes id ht hclock)
  | extend sessionId minutes => exact hsome (edit_asOf hkeyed sessionId (.extend minutes) ht hclock)
  | «end» sessionId => exact hsome (edit_asOf hkeyed sessionId .end ht hclock)
  | getActiveSession machineId => exact hsome (getActiveSession_asOf machineId ht hclock)
  | usage windowFrom windowTo =>
    exact ⟨congrArg some (usage_asOf localeCompare horder windowFrom windowTo ht),
      asOf_asOf (ht.trans hclock.first_le_fourth)⟩
  | sweep => exact absurd rfl he

/-! ## Whole sequences -/

/-- A query that writes rows leaves their ids. -/
theorem Keyed.map (h : db.Keyed) {f : SessionRow → SessionRow}
    (hf : ∀ row, (f row).session.id = row.session.id) :
    Keyed { db with sessions := db.sessions.map f } := by
  unfold Keyed
  simp only [List.map_map, Function.comp_def, hf]
  exact h

theorem Keyed.expireStaleActiveSession (h : db.Keyed) (machineId : String) :
    (db.expireStaleActiveSession machineId now updatedAt).Keyed :=
  h.map fun row => by split_ifs <;> simp

theorem Keyed.start (h : db.Keyed) (machineId : String) (durationMinutes : ℤ) (id : String) :
    (db.start machineId durationMinutes id clock).1.Keyed := by
  have hrows : (db.expireStaleActiveSession machineId clock.first clock.second).Keyed :=
    h.expireStaleActiveSession machineId
  unfold Database.start
  simp only
  split_ifs with _ hconflict
  · exact hrows
  · have hfresh : (db.expireStaleActiveSession machineId clock.first clock.second).findUnique id =
        none := by
      rw [← Option.not_isSome_iff_eq_none]
      exact fun hsome => hconflict (Or.inr hsome)
    unfold Keyed
    rw [List.map_append, List.nodup_append]
    refine ⟨hrows, by simp, fun x hx y hy hxy => ?_⟩
    obtain ⟨row, hrow, rfl⟩ := List.mem_map.1 hx
    obtain rfl := List.mem_singleton.1 hy
    exact absurd hxy (by simpa using List.find?_eq_none.1 hfresh row hrow)
  · exact h

theorem Keyed.edit (h : db.Keyed) (sessionId : String) (change : Change) :
    (db.edit sessionId change clock).1.Keyed := by
  unfold Database.edit
  split
  · exact h
  · simp only
    split_ifs
    · exact h
    · exact h.map fun row => by split_ifs <;> simp

theorem Keyed.serve (localeCompare : String → String → ℤ) (order : RowOrder) (h : db.Keyed)
    (e : Executed) : (db.serve arithmetic localeCompare order e).1.Keyed := by
  obtain ⟨operation, clock⟩ := e
  cases operation with
  | start machineId minutes id => exact h.start machineId minutes id
  | extend sessionId minutes => exact h.edit sessionId (.extend minutes)
  | «end» sessionId => exact h.edit sessionId .end
  | getActiveSession machineId => exact h.expireStaleActiveSession machineId
  | usage => exact h
  | sweep => exact h.map fun row => SessionRow.expire_id _ _ row

/-- The sweeps can be left out, and the calls then run on a table that amounts to the same. -/
theorem outcomes_filter (localeCompare : String → String → ℤ) {order order' : ℕ → RowOrder}
    (horder : arithmetic = .exact ∨ order = order') {es : List Executed} {db db' : Database}
    (hdb : db.Keyed) (hdb' : db'.Keyed) (hsame : db.asOf t = db'.asOf t)
    (ht : ∀ e ∈ es, t ≤ e.clock.first) (hes : Chronological es) :
    db.outcomes arithmetic localeCompare order es =
      db'.outcomes arithmetic localeCompare order' (es.filter fun e => e.operation ≠ .sweep) := by
  induction es generalizing db db' t order order' with
  | nil => rfl
  | cons e es ih =>
    obtain ⟨hordered, hpairwise⟩ := hes
    obtain ⟨hlater, hrest⟩ := List.pairwise_cons.1 hpairwise
    have hes' : Chronological es := ⟨fun e he => hordered e (List.mem_cons_of_mem _ he), hrest⟩
    have hclock : e.clock.Ordered := hordered e List.mem_cons_self
    have hte : t ≤ e.clock.first := ht e List.mem_cons_self
    have hlast : t ≤ e.clock.fourth := hte.trans hclock.first_le_fourth
    by_cases he : e.operation = .sweep
    · rw [List.filter_cons_of_neg (by simpa using he)]
      have hserve : db.serve arithmetic localeCompare (order 0) e = (db.sweep e.clock, none) := by
        unfold Database.serve
        rw [he]
      have hswept : (db.sweep e.clock).asOf e.clock.fourth = db'.asOf e.clock.fourth := by
        rw [asOf_sweep hclock.first_le_fourth, ← asOf_asOf hlast, hsame, asOf_asOf hlast]
      rw [outcomes_cons, hserve]
      exact ih horder (hdb.map fun row => SessionRow.expire_id _ _ row) hdb' hswept hlater hes'
    · rw [List.filter_cons_of_pos (by simpa using he)]
      have hfirst : arithmetic = .exact ∨ order 0 = order' 0 := horder.imp_right fun h => by rw [h]
      have hfirst' : arithmetic = .exact ∨ order 0 = order 0 := .inr rfl
      obtain ⟨hout, hrows⟩ := serve_asOf localeCompare hfirst' hdb he hte hclock
      obtain ⟨hout', hrows'⟩ := serve_asOf localeCompare hfirst hdb' he hte hclock
      rw [hsame] at hout hrows
      rw [outcomes_cons, outcomes_cons, ← hout, ← hout']
      refine congrArg (_ ++ ·) ?_
      exact ih (horder.imp_right fun h => by rw [h]) (hdb.serve localeCompare (order 0) e)
        (hdb'.serve localeCompare (order' 0) e) (hrows.symm.trans hrows') hlater hes'

/-- A sequence of calls returns what it returns without its sweeps. -/
theorem outcomes_eq_outcomes_filter (localeCompare : String → String → ℤ) {order order' : ℕ → RowOrder}
    (horder : arithmetic = .exact ∨ order = order') (hdb : db.Keyed) {es : List Executed}
    (hes : Chronological es) :
    db.outcomes arithmetic localeCompare order es =
      db.outcomes arithmetic localeCompare order' (es.filter fun e => e.operation ≠ .sweep) := by
  cases es with
  | nil => rfl
  | cons e es =>
    have hfirst : ∀ e' ∈ e :: es, e.clock.first ≤ e'.clock.first := by
      intro e' he'
      rcases List.mem_cons.1 he' with rfl | he'
      · exact le_rfl
      · have hlater := (List.pairwise_cons.1 hes.2).1 e' he'
        exact (hes.1 e List.mem_cons_self).first_le_fourth.trans hlater
    exact outcomes_filter localeCompare horder hdb hdb rfl hfirst hes

/-- Two sequences of calls that differ in their sweeps alone return the same. -/
theorem outcomes_congr (localeCompare : String → String → ℤ) {order order' : ℕ → RowOrder}
    (horder : arithmetic = .exact ∨ order = order') (hdb : db.Keyed) {es es' : List Executed}
    (hes : Chronological es) (hes' : Chronological es')
    (hcalls : (es.filter fun e => e.operation ≠ .sweep) = es'.filter fun e => e.operation ≠ .sweep) :
    db.outcomes arithmetic localeCompare order es = db.outcomes arithmetic localeCompare order' es' := by
  rw [outcomes_eq_outcomes_filter localeCompare horder hdb hes, hcalls]
  exact (outcomes_eq_outcomes_filter localeCompare (.inr rfl) hdb hes').symm

/-- Two sequences of calls, each at non-decreasing times, that differ in their sweeps alone: every
call and every report has the same outcome, where the seconds are added up as doubles, in the order
in which the database returns the rows. In exact arithmetic that order does not matter. -/
theorem sweep_unobservable (localeCompare : String → String → ℤ) {db : Database} (hdb : db.Keyed)
    {es es' : List Executed} (hes : Chronological es) (hes' : Chronological es')
    (hcalls : (es.filter fun e => e.operation ≠ .sweep) = es'.filter fun e => e.operation ≠ .sweep)
    (order order' : ℕ → RowOrder) :
    db.outcomes .double localeCompare order es = db.outcomes .double localeCompare order es' ∧
      db.outcomes .exact localeCompare order es = db.outcomes .exact localeCompare order' es' :=
  ⟨outcomes_congr localeCompare (.inr rfl) hdb hes hes' hcalls,
    outcomes_congr localeCompare (.inl rfl) hdb hes hes' hcalls⟩

/-- A session that runs out, and another after it, with a sweep in between or without. -/
theorem sweep_unobservable_between :
    let db : Database := ⟨[⟨"m1", "Front desk", .windows⟩], []⟩
    let call (operation : Operation) (at' : ℤ) : Executed := ⟨operation, ⟨at', at', at', at'⟩⟩
    let before := [call (.start "m1" 1 "x") 0, call (.extend "x" 1) 30000]
    let after := [call (.usage 0 300000) 150000, call (.end "x") 150000, call (.start "m1" 1 "y") 150000,
      call (.getActiveSession "m1") 180000]
    let inserted (_ : ℕ) := RowOrder.inserted
    let reversed (_ : ℕ) := RowOrder.reversed
    db.outcomes .double (fun _ _ => 0) reversed (before ++ call .sweep 130000 :: after) =
        db.outcomes .double (fun _ _ => 0) reversed (before ++ after) ∧
      db.outcomes .exact (fun _ _ => 0) reversed (before ++ call .sweep 130000 :: after) =
        db.outcomes .exact (fun _ _ => 0) inserted (before ++ after) :=
  sweep_unobservable _ (by decide) (by decide) (by decide) (by decide) _ _

end Database

end Taymna.Api
