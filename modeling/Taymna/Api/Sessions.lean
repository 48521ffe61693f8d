import Mathlib.Data.List.Nodup
import Taymna.Api.Protocol

/-!
# The session table (`api/src/modules/sessions/sessions.service.ts`)

The rows of one machine's sessions and the queries that `SessionsService` runs on them, each of
which the database executes in one step. The partial unique index lets at most one row be `ACTIVE`.
-/

namespace Taymna.Api

open Agent (SessionStatus)

/-- A row of `sessions`. -/
structure Session where
  id : String
  startedAt : ℤ
  expiresAt : ℤ
  endedAt : Option ℤ
  status : SessionStatus
  updatedAt : ℤ
deriving DecidableEq, Repr

namespace SessionsService

/-- `toDto`: what is told about a session. -/
def toDto (session : Session) : SessionStateDto :=
  { id := session.id
    startedAt := session.startedAt
    expiresAt := session.expiresAt
    status := session.status
    updatedAt := session.updatedAt }

/-- Whether `expireStaleActiveSession` applies to a row. -/
def Stale (now : ℤ) (row : Session) : Prop := row.status = .active ∧ row.expiresAt < now

instance (now : ℤ) (row : Session) : Decidable (Stale now row) := inferInstanceAs (Decidable (_ ∧ _))

/-- The `updateMany` of `expireStaleActiveSession`, stamped `updatedAt`. -/
def expireStale (now updatedAt : ℤ) (rows : List Session) : List Session :=
  rows.map fun row =>
    if Stale now row then { row with status := .expired, updatedAt := updatedAt } else row

/-- The `findFirst` of `getActiveSession`. -/
def findActive (rows : List Session) : Option Session := rows.find? fun row => row.status = .active

/-- `session.findUnique` by id. -/
def findUnique (rows : List Session) (id : String) : Option Session := rows.find? fun row => row.id = id

/-- `session.create`, with the row's defaults; `none` is the conflict that the unique index reports. -/
def create (rows : List Session) (id : String) (startedAt expiresAt updatedAt : ℤ) :
    Option (List Session × Session) :=
  match findActive rows with
  | some _ => none
  | none =>
    let row := { id := id, startedAt := startedAt, expiresAt := expiresAt, endedAt := none,
                 status := .active, updatedAt := updatedAt }
    some (rows ++ [row], row)

/-- What `extend` and `end` write. -/
inductive Edit
  | extend (expiresAt : ℤ)
  | end (endedAt : ℤ)
deriving DecidableEq, Repr

/-- The row with the edit written on it. -/
def Edit.apply (edit : Edit) (updatedAt : ℤ) (row : Session) : Session :=
  match edit with
  | .extend expiresAt => { row with expiresAt := expiresAt, updatedAt := updatedAt }
  | .end endedAt => { row with status := .ended, endedAt := some endedAt, updatedAt := updatedAt }

/-- `session.update` by id; `none` when there is no such row. -/
def update (rows : List Session) (id : String) (edit : Edit) (updatedAt : ℤ) :
    Option (List Session × Session) :=
  match findUnique rows id with
  | none => none
  | some row =>
    some (rows.map fun r => if r.id = id then edit.apply updatedAt r else r, edit.apply updatedAt row)

/-- What `requireActiveSession` asks of the row it has read. -/
def Running (now : ℤ) (row : Session) : Prop := row.status = .active ∧ now < row.expiresAt

instance (now : ℤ) (row : Session) : Decidable (Running now row) := inferInstanceAs (Decidable (_ ∧ _))

/-- The message that tells an agent about a session, or that there is none. -/
def sessionState (session : Option Session) (serverTime : ℤ) : ServerToAgentMessage :=
  .sessionState (session.map toDto) serverTime

/-- The session that an agent makes of a row. -/
def snapshot (session : Session) : Agent.SessionSnapshot := (toDto session).read

/-! ## What the queries do to the rows -/

/-- The primary key, and the unique index on the `ACTIVE` rows. -/
structure Constrained (rows : List Session) : Prop where
  ids : (rows.map Session.id).Nodup
  active : ∀ r ∈ rows, ∀ r' ∈ rows, r.status = .active → r'.status = .active → r.id = r'.id

theorem Constrained.nil : Constrained [] := ⟨List.nodup_nil, by simp⟩

variable {rows rows' : List Session} {id : String} {edit : Edit} {updatedAt : ℤ} {row r : Session}

theorem Constrained.eq_of_id (h : Constrained rows) {r' : Session} (hr : r ∈ rows) (hr' : r' ∈ rows)
    (he : r.id = r'.id) : r = r' := List.inj_on_of_nodup_map h.ids hr hr' he

theorem findActive_eq_none_iff : findActive rows = none ↔ ∀ r ∈ rows, r.status ≠ .active := by
  simp [findActive]

theorem findActive_some (h : findActive rows = some r) : r ∈ rows ∧ r.status = .active :=
  ⟨List.mem_of_find?_eq_some h, by simpa using List.find?_some h⟩

theorem Constrained.findActive_eq (h : Constrained rows) (hr : r ∈ rows) (hs : r.status = .active) :
    findActive rows = some r := by
  cases hf : findActive rows with
  | none => exact absurd hs (findActive_eq_none_iff.1 hf r hr)
  | some r' =>
    obtain ⟨hr', hs'⟩ := findActive_some hf
    rw [h.eq_of_id hr' hr (h.active r' hr' r hr hs' hs)]

/-- A query of `expireStaleActiveSession` before any deadline has passed. -/
theorem expireStale_eq {now : ℤ} (h : ∀ r ∈ rows, r.status = .active → now ≤ r.expiresAt) :
    expireStale now updatedAt rows = rows := by
  refine (List.map_congr_left fun r hr => ?_).trans (List.map_id rows)
  exact if_neg fun hstale => absurd hstale.2 (not_lt.2 (h r hr hstale.1))

/-- After the query each row is as it was, or was stale. -/
theorem mem_expireStale_cases {now : ℤ} {x : Session} (hx : x ∈ expireStale now updatedAt rows) :
    x ∈ rows ∨ ∃ r ∈ rows, Stale now r ∧ x = { r with status := .expired, updatedAt := updatedAt } := by
  obtain ⟨r, hr, rfl⟩ := List.mem_map.1 hx
  split_ifs with hstale
  · exact Or.inr ⟨r, hr, hstale, rfl⟩
  · exact Or.inl hr

theorem mem_expireStale {now : ℤ} (hr : r ∈ rows) (hstale : ¬ Stale now r) :
    r ∈ expireStale now updatedAt rows := List.mem_map.2 ⟨r, hr, if_neg hstale⟩

theorem Constrained.expireStale {now : ℤ} (h : Constrained rows) :
    Constrained (SessionsService.expireStale now updatedAt rows) where
  ids := by
    have hids : (SessionsService.expireStale now updatedAt rows).map Session.id =
        rows.map Session.id := by
      unfold SessionsService.expireStale
      rw [List.map_map]
      refine List.map_congr_left fun r _ => ?_
      simp only [Function.comp]
      split_ifs <;> rfl
    rw [hids]
    exact h.ids
  active x hx y hy hxs hys := by
    rcases mem_expireStale_cases hx with hx | ⟨r, -, -, rfl⟩
    · rcases mem_expireStale_cases hy with hy | ⟨r, -, -, rfl⟩
      · exact h.active x hx y hy hxs hys
      · cases hys
    · cases hxs

/-- The unique index, as the number of `ACTIVE` rows. -/
theorem Constrained.length_active_le (h : Constrained rows) :
    (rows.filter fun r => r.status = .active).length ≤ 1 := by
  have hids : ((rows.filter fun r => r.status = .active).map Session.id).Nodup :=
    h.ids.sublist (List.filter_sublist.map Session.id)
  have hmem : ∀ r ∈ rows.filter (fun r => r.status = .active), r ∈ rows ∧ r.status = .active := by
    simp
  rcases hf : rows.filter (fun r => r.status = .active) with _ | ⟨r, _ | ⟨r', rest⟩⟩
  · rw [hf]
    exact Nat.zero_le 1
  · rw [hf]
    exact le_rfl
  · rw [hf] at hids hmem
    obtain ⟨hr, hs⟩ := hmem r (by simp)
    obtain ⟨hr', hs'⟩ := hmem r' (by simp)
    simp [h.active r hr r' hr' hs hs'] at hids

theorem create_eq_some {startedAt expiresAt : ℤ}
    (h : create rows id startedAt expiresAt updatedAt = some (rows', row)) :
    findActive rows = none ∧ rows' = rows ++ [row] ∧ row.id = id ∧ row.status = .active ∧
      row.updatedAt = updatedAt := by
  unfold create at h
  split at h
  · cases h
  · rename_i hf
    obtain ⟨rfl, rfl⟩ := Prod.mk.inj (Option.some.inj h)
    exact ⟨hf, rfl, rfl, rfl, rfl⟩

theorem Constrained.append (h : Constrained rows) (hf : findActive rows = none)
    (hid : ∀ r ∈ rows, r.id ≠ row.id) : Constrained (rows ++ [row]) where
  ids := by
    rw [List.map_append, List.nodup_append]
    refine ⟨h.ids, by simp, fun x hx y hy => ?_⟩
    obtain ⟨r, hr, rfl⟩ := List.mem_map.1 hx
    obtain rfl := List.mem_singleton.1 hy
    exact hid r hr
  active r hr r' hr' hs hs' := by
    have hnone := findActive_eq_none_iff.1 hf
    rcases List.mem_append.1 hr with hr | hr <;> rcases List.mem_append.1 hr' with hr' | hr'
    · exact absurd hs (hnone r hr)
    · exact absurd hs (hnone r hr)
    · exact absurd hs' (hnone r' hr')
    · rw [List.mem_singleton.1 hr, List.mem_singleton.1 hr']

@[simp] theorem Edit.apply_id : (edit.apply updatedAt row).id = row.id := by cases edit <;> rfl

@[simp] theorem Edit.apply_updatedAt : (edit.apply updatedAt row).updatedAt = updatedAt := by
  cases edit <;> rfl

/-- No change makes a row `ACTIVE`. -/
theorem Edit.active_of_apply (h : (edit.apply updatedAt row).status = .active) :
    row.status = .active := by
  cases edit with
  | extend => exact h
  | «end» => cases h

theorem update_eq_some (h : update rows id edit updatedAt = some (rows', r)) :
    ∃ row, findUnique rows id = some row ∧ r = edit.apply updatedAt row ∧
      rows' = rows.map fun r => if r.id = id then edit.apply updatedAt r else r := by
  unfold update at h
  split at h
  · cases h
  · rename_i row hrow
    obtain ⟨rfl, rfl⟩ := Prod.mk.inj (Option.some.inj h)
    exact ⟨row, hrow, rfl, rfl⟩

theorem findUnique_some (h : findUnique rows id = some row) : row ∈ rows ∧ row.id = id :=
  ⟨List.mem_of_find?_eq_some h, by simpa using List.find?_some h⟩

theorem findUnique_map {f : Session → Session} (hf : ∀ r, (f r).id = r.id) (rows : List Session)
    (id : String) : findUnique (rows.map f) id = (findUnique rows id).map f := by
  unfold findUnique
  rw [List.find?_map]
  simp only [Function.comp_def, hf]

theorem findUnique_append (row : Session) (h : (findUnique rows id).isSome) :
    findUnique (rows ++ [row]) id = findUnique rows id := by
  unfold findUnique at h ⊢
  rw [List.find?_append, Option.or_of_isSome h]

/-- After an update each row is the one that it changes, or was there before. -/
theorem Constrained.mem_update (hrows : Constrained rows)
    (h : update rows id edit updatedAt = some (rows', r)) (hrow : findUnique rows id = some row)
    {x : Session} (hx : x ∈ rows') : x = edit.apply updatedAt row ∨ x ∈ rows ∧ x.id ≠ id := by
  obtain ⟨-, -, -, rfl⟩ := update_eq_some h
  obtain ⟨hmem, rfl⟩ := findUnique_some hrow
  obtain ⟨y, hy, rfl⟩ := List.mem_map.1 hx
  split_ifs with he
  · rw [hrows.eq_of_id hy hmem he]
    exact Or.inl rfl
  · exact Or.inr ⟨hy, he⟩

theorem Constrained.update (hrows : Constrained rows)
    (h : SessionsService.update rows id edit updatedAt = some (rows', r)) : Constrained rows' := by
  obtain ⟨row, hrow, -, hrows'⟩ := update_eq_some h
  have hmem := fun x hx => hrows.mem_update h hrow (x := x) hx
  have hactive : ∀ x ∈ rows', x.status = .active → ∃ y ∈ rows, y.id = x.id ∧ y.status = .active := by
    intro x hx hs
    rcases hmem x hx with rfl | ⟨hx, -⟩
    · exact ⟨row, (findUnique_some hrow).1, by simp, Edit.active_of_apply hs⟩
    · exact ⟨x, hx, rfl, hs⟩
  refine ⟨?_, fun x hx y hy hs hs' => ?_⟩
  · have hids : rows'.map Session.id = rows.map Session.id := by
      rw [hrows', List.map_map]
      refine List.map_congr_left fun r _ => ?_
      simp only [Function.comp]
      split_ifs <;> simp
    rw [hids]
    exact hrows.ids
  · obtain ⟨x', hx', hid, hs⟩ := hactive x hx hs
    obtain ⟨y', hy', hid', hs'⟩ := hactive y hy hs'
    rw [← hid, ← hid']
    exact hrows.active x' hx' y' hy' hs hs'

theorem mem_update_self (h : update rows id edit updatedAt = some (rows', r)) : r ∈ rows' := by
  obtain ⟨row, hrow, rfl, rfl⟩ := update_eq_some h
  obtain ⟨hmem, rfl⟩ := findUnique_some hrow
  exact List.mem_map.2 ⟨row, hmem, if_pos rfl⟩

/-- The `ACTIVE` row after a change of it. -/
theorem Constrained.findActive_update (hrows : Constrained rows)
    (h : SessionsService.update rows id edit updatedAt = some (rows', r))
    (hrow : findUnique rows id = some row) (hs : row.status = .active) :
    findActive rows' = if r.status = .active then some r else none := by
  split_ifs with hr
  · exact (hrows.update h).findActive_eq (mem_update_self h) hr
  · refine findActive_eq_none_iff.2 fun x hx hxs => ?_
    obtain ⟨row', hrow', rfl, -⟩ := update_eq_some h
    obtain rfl := Option.some.inj (hrow.symm.trans hrow')
    obtain ⟨hmem, rfl⟩ := findUnique_some hrow
    rcases hrows.mem_update h hrow hx with rfl | ⟨hx, hne⟩
    · exact hr hxs
    · exact hne (hrows.active x hx row hmem hxs hs)

/-- The `ACTIVE` row after a change of another. -/
theorem Constrained.findActive_update_other (hrows : Constrained rows)
    (h : SessionsService.update rows id edit updatedAt = some (rows', r))
    (hrow : findUnique rows id = some row) (hs : row.status ≠ .active) :
    findActive rows' = findActive rows := by
  cases hf : findActive rows with
  | none =>
    refine findActive_eq_none_iff.2 fun x hx hxs => ?_
    rcases hrows.mem_update h hrow hx with rfl | ⟨hx, -⟩
    · exact hs (Edit.active_of_apply hxs)
    · exact findActive_eq_none_iff.1 hf x hx hxs
  | some y =>
    obtain ⟨hy, hys⟩ := findActive_some hf
    refine (hrows.update h).findActive_eq ?_ hys
    obtain ⟨-, -, -, rfl⟩ := update_eq_some h
    obtain ⟨hmem, rfl⟩ := findUnique_some hrow
    refine List.mem_map.2 ⟨y, hy, if_neg fun he => hs ?_⟩
    rw [← hrows.eq_of_id hy hmem he]
    exact hys

end SessionsService

end Taymna.Api
