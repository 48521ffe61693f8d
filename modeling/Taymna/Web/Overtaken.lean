import Taymna.Api.Sweeping
import Taymna.Web.Convergence

/-!
# Responses that nothing overtakes

As long as the table is what the operations have written (`InSync`), a response has the last state of
a machine when it is sent, and goes on to have it until an operation writes another one. So the
dashboard's list converges when the last response about each machine was sent after the last operation
on it (`converged_of_sent_after`).
-/

namespace Taymna

open Automata
open Api (Change Database Outcome Readings SessionRow SessionsService.toDto)

/-! ## The table -/

namespace Api.Database

variable {db db' db'' : Database}

/-- The session that a call has written for a machine. -/
def pushed (machineId : String) : Outcome → Option SessionRow
  | .done session => some ⟨machineId, session⟩
  | _ => none

/-- What a call may do to the rows: one that is `ACTIVE` was there before, unless it is the one that
has been written. -/
structure RowsStep (db db' : Database) (written : Option SessionRow) : Prop where
  keyed : db'.Keyed
  machine : ∀ row ∈ db'.sessions, (∃ r ∈ db.sessions, r.machineId = row.machineId) ∨
    ∃ m ∈ db.machines, m.id = row.machineId
  active : ∀ row ∈ db'.sessions, row.session.status = .active →
    row ∈ db.sessions ∧ (∀ w ∈ written, row.machineId ≠ w.machineId) ∨ written = some row

theorem RowsStep.refl (h : db.Keyed) : RowsStep db db none where
  keyed := h
  machine row hrow := Or.inl ⟨row, hrow, rfl⟩
  active row hrow _ := Or.inl ⟨hrow, by simp⟩

theorem rowsStep_expire (h : db.Keyed) (machineId : String) (now updatedAt : ℤ) :
    RowsStep db (db.expireStaleActiveSession machineId now updatedAt) none := by
  refine ⟨h.expireStaleActiveSession machineId, fun row hrow => ?_, fun row hrow hs => ?_⟩
  · obtain ⟨r, hr, rfl⟩ := List.mem_map.1 hrow
    refine Or.inl ⟨r, hr, ?_⟩
    split_ifs <;> simp
  · obtain ⟨r, hr, rfl⟩ := List.mem_map.1 hrow
    refine Or.inl ⟨?_, by simp⟩
    split_ifs at hs ⊢ with hm
    · unfold SessionRow.expire at hs ⊢
      split_ifs at hs ⊢
      exact hr
    · exact hr

theorem RowsStep.trans {written : Option SessionRow} (h : RowsStep db db' none)
    (hmachines : db'.machines = db.machines) (h' : RowsStep db' db'' written) :
    RowsStep db db'' written := by
  refine ⟨h'.keyed, fun row hrow => ?_, fun row hrow hs => ?_⟩
  · rcases h'.machine row hrow with ⟨r, hr, hm⟩ | hm
    · rw [← hm]
      exact h.machine r hr
    · rw [hmachines] at hm
      exact Or.inr hm
  · rcases h'.active row hrow hs with ⟨hrow', hne⟩ | hw
    · rcases h.active row hrow' hs with ⟨hrow, -⟩ | hw
      · exact Or.inl ⟨hrow, hne⟩
      · cases hw
    · exact Or.inr hw

theorem findActive_eq_none_iff {machineId : String} : db.findActive machineId = none ↔
    ∀ row ∈ db.sessions, row.machineId = machineId → row.session.status ≠ .active := by
  simp [findActive]

theorem findActive_some {machineId : String} {row : SessionRow}
    (h : db.findActive machineId = some row) :
    row ∈ db.sessions ∧ row.machineId = machineId ∧ row.session.status = .active := by
  have hfound := List.find?_some h
  exact ⟨List.mem_of_find?_eq_some h, by simpa using hfound⟩

theorem rowsStep_start (h : db.Keyed) (machineId : String) (durationMinutes : ℤ) (id : String)
    (clock : Readings) :
    RowsStep db (db.start machineId durationMinutes id clock).1
      (pushed machineId (db.start machineId durationMinutes id clock).2) := by
  have hkeyed : (db.start machineId durationMinutes id clock).1.Keyed :=
    h.start machineId durationMinutes id
  have hexpired := rowsStep_expire h machineId clock.first clock.second
  unfold start at hkeyed ⊢
  by_cases hm : (db.machines.any fun machine => machine.id = machineId) = true
  · rw [if_pos hm] at hkeyed ⊢
    dsimp only at hkeyed ⊢
    by_cases hconflict : ((db.expireStaleActiveSession machineId clock.first clock.second).findActive
        machineId).isSome ∨ ((db.expireStaleActiveSession machineId clock.first
          clock.second).findUnique id).isSome
    · rw [if_pos hconflict]
      exact hexpired
    · rw [if_neg hconflict] at hkeyed ⊢
      refine hexpired.trans rfl ⟨hkeyed, fun row hrow => ?_, fun row hrow hs => ?_⟩
      · rcases List.mem_append.1 hrow with hrow | hrow
        · exact Or.inl ⟨row, hrow, rfl⟩
        · obtain rfl := List.mem_singleton.1 hrow
          obtain ⟨machine, hmachine, hid⟩ := List.any_eq_true.1 hm
          exact Or.inr ⟨machine, hmachine, by simpa using hid⟩
      · rcases List.mem_append.1 hrow with hrow | hrow
        · have hnone := findActive_eq_none_iff.1
            (Option.not_isSome_iff_eq_none.1 fun hsome => hconflict (Or.inl hsome))
          refine Or.inl ⟨hrow, fun w hw he => ?_⟩
          obtain rfl := Option.some.inj hw
          exact hnone row hrow he hs
        · exact Or.inr (congrArg some (List.mem_singleton.1 hrow).symm)
  · rw [if_neg hm]
    exact .refl h

/-- Where a machine has one `ACTIVE` row at most. -/
theorem rowsStep_edit (h : db.Keyed)
    (hone : ∀ r ∈ db.sessions, ∀ r' ∈ db.sessions, r.machineId = r'.machineId →
      r.session.status = .active → r'.session.status = .active → r = r')
    {sessionId : String} {row : SessionRow} (hrow : db.findUnique sessionId = some row)
    (change : Change) (clock : Readings) :
    RowsStep db (db.edit sessionId change clock).1
      (pushed row.machineId (db.edit sessionId change clock).2) := by
  have hkeyed : (db.edit sessionId change clock).1.Keyed := h.edit sessionId change
  have hmem : row ∈ db.sessions := List.mem_of_find?_eq_some hrow
  unfold edit at hkeyed ⊢
  rw [hrow] at hkeyed ⊢
  dsimp only at hkeyed ⊢
  by_cases hrefused : row.session.status ≠ .active ∨ row.session.expiresAt ≤ clock.first
  · rw [if_pos hrefused]
    exact .refl h
  · rw [if_neg hrefused] at hkeyed ⊢
    obtain ⟨hactive, -⟩ := not_or.1 hrefused
    -- No other row has the id of the one that is found.
    have heq : ∀ r ∈ db.sessions, r.session.id = row.session.id → r = row :=
      fun r hr hid => List.inj_on_of_nodup_map h hr hmem hid
    refine ⟨hkeyed, fun x hx => ?_, fun x hx hs => ?_⟩
    · obtain ⟨r, hr, rfl⟩ := List.mem_map.1 hx
      refine Or.inl ⟨r, hr, ?_⟩
      split_ifs <;> rfl
    · obtain ⟨r, hr, rfl⟩ := List.mem_map.1 hx
      by_cases hid : r.session.id = row.session.id
      · rw [if_pos hid, heq r hr hid]
        exact Or.inr rfl
      · rw [if_neg hid] at hs ⊢
        refine Or.inl ⟨hr, fun w hw he => hid ?_⟩
        obtain rfl := Option.some.inj hw
        rw [hone r hr row hmem he hs (not_not.1 hactive)]

end Api.Database

namespace Web

open Api.Database (RowsStep pushed)

namespace Server

variable {server : Server}

theorem push_rows {machineId : String} {result : Database × Outcome}
    (h : RowsStep server.db result.1 (pushed machineId result.2)) :
    RowsStep server.db (server.push machineId result).server.db (pushed machineId result.2) ∧
      (server.push machineId result).event = (pushed machineId result.2).map fun row =>
        (row.machineId, SessionsService.toDto row.session) := by
  obtain ⟨db', outcome⟩ := result
  cases outcome <;> exact ⟨⟨h.keyed, h.machine, h.active⟩, rfl⟩

theorem commit_rows (h : server.db.Keyed)
    (hone : ∀ r ∈ server.sessions, ∀ r' ∈ server.sessions, r.machineId = r'.machineId →
      r.session.status = .active → r'.session.status = .active → r = r')
    (operation : Operation) :
    ∃ written, RowsStep server.db (server.commit operation).server.db written ∧
      (server.commit operation).event = written.map fun row =>
        (row.machineId, SessionsService.toDto row.session) := by
  have hsame : ∃ written, RowsStep server.db server.fail.server.db written ∧
      server.fail.event = written.map fun row =>
        (row.machineId, SessionsService.toDto row.session) := ⟨none, .refl h, rfl⟩
  cases operation with
  | create machine =>
    rw [commit, create]
    split_ifs
    · exact hsame
    · have hrows := RowsStep.refl h
      exact ⟨none, ⟨hrows.keyed, hrows.machine, hrows.active⟩, rfl⟩
  | start machineId durationMinutes id clock =>
    exact ⟨_, push_rows (Api.Database.rowsStep_start h machineId durationMinutes id clock)⟩
  | extend sessionId additionalMinutes clock =>
    rw [commit]
    split
    · rename_i row hrow
      exact ⟨_, push_rows (Api.Database.rowsStep_edit h hone hrow (.extend additionalMinutes) clock)⟩
    · exact hsame
  | «end» sessionId clock =>
    rw [commit]
    split
    · rename_i row hrow
      exact ⟨_, push_rows (Api.Database.rowsStep_edit h hone hrow .end clock)⟩
    · exact hsame

theorem list_rows (h : server.db.Keyed) (clock : Readings) :
    RowsStep server.db (server.list clock).1.db none := by
  have hfold : ∀ (machines : List Machine) {db : Database}, db.Keyed →
      RowsStep db (machines.foldl (fun db m => (db.getActiveSession m.id clock).1) db) none := by
    intro machines
    induction machines with
    | nil => exact fun hkeyed => .refl hkeyed
    | cons m machines ih =>
      intro db hkeyed
      have hexpired := Api.Database.rowsStep_expire hkeyed m.id clock.first clock.second
      exact hexpired.trans rfl (ih hexpired.keyed)
  have hrows := hfold server.machines h
  exact ⟨hrows.keyed, hrows.machine, hrows.active⟩

end Server

namespace Dashboard

variable {s t : Dashboard} {a : Action} {id : String} {session : Option SessionState}

/-- The `ACTIVE` rows are what the operations have written last. -/
structure InSync (s : Dashboard) : Prop where
  keyed : s.server.db.Keyed
  machine : ∀ row ∈ s.server.sessions, row.machineId ∈ s.server.machines.map Machine.id
  active : ∀ row ∈ s.server.sessions, row.session.status = .active →
    lastWritten row.machineId s.written = some (SessionsService.toDto row.session)

/-- The action writes a state of the machine. -/
def Writes (s : Dashboard) (id : String) : Action → Prop
  | .commit operation => ∃ session, (s.server.commit operation).event = some (id, session)
  | .read _ | .event | .response _ => False

/-- What an action does to the table, and what it writes. -/
structure Acts (s : Dashboard) (a : Action) (t : Dashboard) (put : Option SessionRow) : Prop where
  rows : RowsStep s.server.db t.server.db put
  written : t.written =
    s.written ++ (put.map fun row => (row.machineId, SessionsService.toDto row.session)).toList
  machines : ∀ id ∈ s.server.machines.map Machine.id, id ∈ t.server.machines.map Machine.id
  writes : ∀ row ∈ put, s.Writes row.machineId a

/-- The last state of a machine tells which row it is of. -/
theorem InSync.one (hs : s.InSync) : ∀ r ∈ s.server.sessions, ∀ r' ∈ s.server.sessions,
    r.machineId = r'.machineId → r.session.status = .active → r'.session.status = .active →
      r = r' := by
  intro r hr r' hr' hm hactive hactive'
  have hlast := hs.active r hr hactive
  rw [hm, hs.active r' hr' hactive'] at hlast
  have hid : r'.session.id = r.session.id := congrArg Api.SessionStateDto.id (Option.some.inj hlast)
  exact List.inj_on_of_nodup_map hs.keyed hr hr' hid.symm

theorem InSync.acts (hs : s.InSync) (h : s.step a = some t) : ∃ put, Acts s a t put := by
  cases a with
  | commit operation =>
    obtain rfl := Option.some.inj h
    obtain ⟨put, hrows, hevent⟩ := Server.commit_rows hs.keyed hs.one operation
    refine ⟨put, hrows, by rw [← hevent], fun id hid => ?_, fun row hrow => ?_⟩
    · rcases s.server.commit_cases operation with ⟨machine, -, -, hmachines, -⟩ | ⟨hmachines, -⟩
      · simp only [hmachines, List.map_append]
        exact List.mem_append_left _ hid
      · rwa [hmachines]
    · rw [Option.mem_def.1 hrow] at hevent
      exact ⟨_, hevent⟩
  | read clock =>
    obtain rfl := Option.some.inj h
    exact ⟨none, Server.list_rows hs.keyed clock, (List.append_nil _).symm, fun _ hid => hid,
      by simp⟩
  | event =>
    rw [Dashboard.step] at h
    split at h
    · cases h
    · obtain rfl := Option.some.inj h
      exact ⟨none, .refl hs.keyed, (List.append_nil _).symm, fun _ hid => hid, by simp⟩
  | response index =>
    rw [Dashboard.step] at h
    split at h
    · cases h
    · obtain rfl := Option.some.inj h
      exact ⟨none, .refl hs.keyed, (List.append_nil _).symm, fun _ hid => hid, by simp⟩

/-- What is written for other machines. -/
theorem Acts.lastWritten_of_ne {put : Option SessionRow} (h : Acts s a t put)
    (hne : ∀ row ∈ put, id ≠ row.machineId) :
    lastWritten id t.written = lastWritten id s.written := by
  rw [h.written]
  cases put with
  | none => simp
  | some row =>
    have hrow := hne row rfl
    rw [Option.map_some, Option.toList_some, lastWritten_concat, if_neg fun he => hrow he.symm]

theorem InSync.step (hs : s.InSync) (h : s.step a = some t) : t.InSync := by
  obtain ⟨put, hacts⟩ := hs.acts h
  refine ⟨hacts.rows.keyed, fun row hrow => hacts.machines _ ?_, fun row hrow hactive => ?_⟩
  · rcases hacts.rows.machine row hrow with ⟨r, hr, hm⟩ | ⟨m, hm, hid⟩
    · rw [← hm]
      exact hs.machine r hr
    · obtain ⟨machine, hmachine, rfl⟩ := List.mem_map.1 hm
      exact List.mem_map.2 ⟨machine, hmachine, hid⟩
  · rcases hacts.rows.active row hrow hactive with ⟨hrow, hne⟩ | rfl
    · rw [hacts.lastWritten_of_ne hne]
      exact hs.active row hrow hactive
    · rw [hacts.written, Option.map_some, Option.toList_some, lastWritten_concat, if_pos rfl]

/-! ## Responses -/

/-- What has the last state goes on to have it, until another one is written. -/
theorem Shows.step (hs : s.InSync) (hshows : s.Shows id session) (hquiet : ¬ s.Writes id a)
    (h : s.step a = some t) : t.Shows id session := by
  obtain ⟨put, hacts⟩ := hs.acts h
  have hne : ∀ row ∈ put, id ≠ row.machineId :=
    fun row hrow he => hquiet (he ▸ hacts.writes row hrow)
  have hlast := hacts.lastWritten_of_ne hne
  rcases hshows with rfl | rfl
  · exact Or.inl hlast.symm
  · cases hactive : s.server.db.findActive id with
    | some row =>
      obtain ⟨hrow, rfl, hstatus⟩ := Api.Database.findActive_some hactive
      exact Or.inl (hlast.trans (hs.active row hrow hstatus)).symm
    | none =>
      have hnone : t.server.db.findActive id = none := by
        refine Api.Database.findActive_eq_none_iff.2 fun row hrow hid hstatus => ?_
        rcases hacts.rows.active row hrow hstatus with ⟨hrow, -⟩ | hput
        · exact Api.Database.findActive_eq_none_iff.1 hactive row hrow hid hstatus
        · exact hne row hput hid.symm
      rw [Shows, hnone]
      exact Or.inr rfl

/-- A response has the last state when it is sent. -/
theorem shows_of_sent (hs : s.InSync) (h : s.step a = some t) {d : Delivery}
    (hd : t.responses = s.responses ++ [d]) (hsession : d.sessionOf id = some session) :
    t.Shows id session := by
  cases a with
  | commit operation =>
    obtain ⟨put, hacts⟩ := hs.acts h
    obtain rfl := Option.some.inj h
    have hone := List.append_cancel_left hd
    rcases s.server.commit_cases operation with ⟨machine, hnew, hnull, -, hresponse, hevent⟩ |
      ⟨-, ⟨hresponse, -⟩ | ⟨machineId, state, hresponse, hevent⟩⟩
    · rw [hresponse] at hone
      obtain rfl : Delivery.created machine = d := List.singleton_inj.1 hone
      rw [Delivery.sessionOf] at hsession
      split_ifs at hsession with hid
      obtain rfl := Option.some.inj hsession
      refine Or.inr ?_
      rw [hnull, Api.Database.findActive_eq_none_iff.2, Option.map_none]
      intro row hrow hm hstatus
      rcases hacts.rows.active row hrow hstatus with ⟨hrow, -⟩ | hput
      · exact hnew (hid ▸ hm ▸ hs.machine row hrow)
      · obtain ⟨state, hstate⟩ := hacts.writes row hput
        rw [hevent] at hstate
        cases hstate
    · rw [hresponse] at hone
      cases hone
    · rw [hresponse] at hone
      obtain rfl : Delivery.result machineId state = d := List.singleton_inj.1 hone
      rw [Delivery.sessionOf] at hsession
      split_ifs at hsession with hid
      obtain rfl := Option.some.inj hsession
      refine Or.inl ?_
      simp only [hevent, Option.toList_some]
      rw [lastWritten_concat, if_pos hid]
  | read clock =>
    obtain rfl := Option.some.inj h
    obtain rfl := List.singleton_inj.1 (List.append_cancel_left hd)
    obtain ⟨m, hfind, rfl⟩ := Option.map_eq_some_iff.1 hsession
    have hid : m.id = id := by simpa using List.find?_some hfind
    obtain ⟨machine, -, rfl⟩ := List.mem_map.1 (List.mem_of_find?_eq_some hfind)
    subst hid
    exact Or.inr rfl
  | event =>
    rw [Dashboard.step] at h
    split at h
    · cases h
    · obtain rfl := Option.some.inj h
      simp at hd
  | response index =>
    rw [Dashboard.step] at h
    split at h
    · cases h
    · obtain rfl := Option.some.inj h
      have hle := List.length_eraseIdx_le s.responses index
      have hlen := congrArg List.length hd
      simp only [List.length_append, List.length_singleton] at hlen
      omega

/-- The response is sent in the run, and nothing is written for the machine after that. -/
def SentAfter (s : Dashboard) (es : List Action) (id : String) (d : Delivery) : Prop :=
  ∃ es₁ a es₂ u v, es = es₁ ++ a :: es₂ ∧ run step s es₁ = some u ∧ u.step a = some v ∧
    v.responses = u.responses ++ [d] ∧ Along step (fun s a => ¬ s.Writes id a) v es₂

theorem SentAfter.shows {es : List Action} {d : Delivery} (hsent : SentAfter s es id d)
    (hs : s.InSync) (h : run step s es = some t) (hsession : d.sessionOf id = some session) :
    t.Shows id session := by
  obtain ⟨es₁, a, es₂, u, v, rfl, hu, hv, hd, hquiet⟩ := hsent
  obtain ⟨u', hu', ht⟩ := run_append_eq_some.1 h
  obtain rfl : u = u' := Option.some.inj (hu.symm.trans hu')
  obtain ⟨v', hv', ht⟩ := run_cons_eq_some.1 ht
  obtain rfl : v = v' := Option.some.inj (hv.symm.trans hv')
  have hsync : u.InSync := run_invariant (I := InSync) (fun _ _ _ hs h => hs.step h) hs hu
  exact (run_invariant_along (I := fun s => s.InSync ∧ s.Shows id session)
    (fun _ _ _ hI hP h => ⟨hI.1.step h, hI.2.step hI.1 hP h⟩)
    ⟨hsync.step hv, shows_of_sent hsync hv hd hsession⟩ hquiet ht).2

/-- Nobody has written anything yet. -/
theorem inSync_of_no_sessions {server : Server} (h : server.sessions = []) :
    (start server []).InSync := by
  refine ⟨?_, ?_, ?_⟩ <;> simp [start, Api.Database.Keyed, Server.db, h]

/-- In every run that delivers everything, the list converges if each machine is in the last list to
arrive or the response to its creation arrives after that, and not both, and each response that is the
last to arrive about a machine was sent after the last operation on it. -/
theorem converged_of_sent_after {server : Server} {before : List (String × SessionState)}
    {es : List Action} (hs : (start server before).InSync)
    (hrun : run step (start server before) es = some s) (hdelivered : s.Delivered)
    (h : ∀ m ∈ s.server.machines, Once m.id s.arrived ∧
      ∀ d ∈ lastAbout m.id s.arrived, d.isResponse = true → SentAfter (start server before) es m.id d) :
    s.Converged := by
  refine (converged_iff (Sound.run hrun) hdelivered.1).2 fun m hm => ?_
  obtain ⟨honce, hsent⟩ := h m hm
  exact ⟨honce, fun d hd hresponse session hsession =>
    (hsent d hd hresponse).shows hs hrun hsession⟩

/-- The list arrives, and a session is started. -/
def started : List Action :=
  [.read (.at 0), .response 0, .commit (.start "m1" 60 "s1" (.at 1000)), .event, .response 0]

/-- It is ended. -/
def ended : Action := .commit (.end "s1" (.at 60000))

/-- The response to that. -/
def endResponse : Delivery :=
  .result "m1"
    { id := "s1", startedAt := 1000, expiresAt := 3601000, status := .ended, updatedAt := 60000 }

/-- The session is ended, and the event and the response arrive in order. -/
theorem converged_in_order :
    ∃ s, run step (start single []) (started ++ ended :: [.event, .response 0]) = some s ∧
      s.Delivered ∧ s.Converged := by
  obtain ⟨u, v, hu, hv, hd⟩ : ∃ u v, run step (start single []) started = some u ∧
      u.step ended = some v ∧ v.responses = u.responses ++ [endResponse] :=
    ⟨_, _, rfl, rfl, by decide⟩
  obtain ⟨s, hs, hdelivered, hmachines, honce, hlast⟩ : ∃ s,
      run step (start single []) (started ++ ended :: [.event, .response 0]) = some s ∧
        s.Delivered ∧ s.server.machines = [idle "m1"] ∧ Once "m1" s.arrived ∧
        lastAbout "m1" s.arrived = some endResponse :=
    ⟨_, rfl, ⟨rfl, rfl⟩, rfl, Or.inl ⟨by decide, by decide⟩, by decide⟩
  refine ⟨s, hs, hdelivered, converged_of_sent_after (inSync_of_no_sessions rfl) hs hdelivered ?_⟩
  intro m hm
  rw [hmachines, List.mem_singleton] at hm
  subst hm
  refine ⟨honce, fun d hd' _ => ⟨started, ended, [.event, .response 0], u, v, rfl, hu, hv, ?_, ?_⟩⟩
  · obtain rfl : endResponse = d := Option.some.inj (hlast.symm.trans hd')
    exact hd
  · refine along_of_forall (fun _ a ha => ?_) v
    rcases List.mem_pair.1 ha with rfl | rfl <;> exact id

end Dashboard

end Web

end Taymna
