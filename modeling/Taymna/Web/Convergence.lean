import Taymna.Automata.Run
import Taymna.Api.SessionTable
import Taymna.Web.Machines

/-!
# Whether the dashboard's list converges

The server creates machines and starts, extends and ends their sessions, one operation after another.
The events arrive in the order in which they were broadcast, and the responses, those of the lists
among them, whenever they like. The list that the dashboard ends up with is that of the server when no
machine is missing or doubled (`Once`) and no response about a machine arrives last that was overtaken
by an operation (`NotOvertaken`).
-/

namespace Taymna.Web

open Automata
open Api (Database Outcome Readings SessionRow SessionsService.toDto)

/-! ## The server -/

/-- What the database holds; a machine as `create` has returned it. -/
structure Server where
  machines : List Machine
  sessions : List SessionRow
  /-- The primary key. -/
  nodup : (machines.map Machine.id).Nodup
deriving DecidableEq, Repr

/-- What an operation leaves, what it returns if it succeeds, and the event that it broadcasts. -/
structure Committed where
  server : Server
  response : Option Delivery
  event : Option (String × SessionState)
deriving DecidableEq, Repr

/-- A request that the server carries out. -/
inductive Operation
  | create (machine : Machine)
  /-- With the id that the database draws for the row. -/
  | start (machineId : String) (durationMinutes : ℤ) (id : String) (clock : Readings)
  | extend (sessionId : String) (additionalMinutes : ℤ) (clock : Readings)
  | end (sessionId : String) (clock : Readings)
deriving DecidableEq, Repr

namespace Server

/-- The tables that `SessionsService` works on. -/
def db (server : Server) : Database :=
  { machines := server.machines.map fun m => { id := m.id, name := m.name, platform := m.platform }
    sessions := server.sessions }

/-- `toDto` of a machine, once its stale session has been expired. -/
def toDto (db : Database) (m : Machine) : Machine :=
  { m with activeSession := (db.findActive m.id).map fun row => SessionsService.toDto row.session }

/-- `list`, at one moment: no machine's session depends on the rows of another. -/
def list (server : Server) (clock : Readings) : Server × List Machine :=
  let db := server.machines.foldl (fun db m => (db.getActiveSession m.id clock).1) server.db
  ({ server with sessions := db.sessions }, server.machines.map (toDto db))

/-- An operation that fails. -/
def fail (server : Server) : Committed := { server := server, response := none, event := none }

/-- What `SessionsService` has done for a machine, with the event of `pushSessionUpdate`. -/
def push (server : Server) (machineId : String) : Database × Outcome → Committed
  | (db, .done session) =>
    { server := { server with sessions := db.sessions }
      response := some (.result machineId (SessionsService.toDto session))
      event := some (machineId, SessionsService.toDto session) }
  | (db, _) => fail { server with sessions := db.sessions }

theorem nodup_concat {machines : List Machine} (hnodup : (machines.map Machine.id).Nodup)
    {machine : Machine} (hmachine : machine.id ∉ machines.map Machine.id) :
    ((machines ++ [machine]).map Machine.id).Nodup := by
  rw [List.map_append, List.map_singleton, ← List.concat_eq_append]
  exact hnodup.concat hmachine

/-- `create` broadcasts nothing. -/
def create (server : Server) (machine : Machine) : Committed :=
  if h : machine.id ∈ server.machines.map Machine.id then server.fail
  else
    { server :=
        { server with
          machines := server.machines ++ [{ machine with activeSession := none }]
          nodup := nodup_concat server.nodup h }
      response := some (.created { machine with activeSession := none })
      event := none }

/-- The machine of `extend` and `end` is that of the session. -/
def commit (server : Server) : Operation → Committed
  | .create machine => server.create machine
  | .start machineId durationMinutes id clock =>
    server.push machineId (server.db.start machineId durationMinutes id clock)
  | .extend sessionId additionalMinutes clock =>
    match server.db.findUnique sessionId with
    | some row => server.push row.machineId (server.db.extend sessionId additionalMinutes clock)
    | none => server.fail
  | .end sessionId clock =>
    match server.db.findUnique sessionId with
    | some row => server.push row.machineId (server.db.end sessionId clock)
    | none => server.fail

end Server

/-! ## The messages -/

/-- The server and one dashboard, with what is under way between them. -/
structure Dashboard where
  server : Server
  /-- What the operations have written, in order. -/
  written : List (String × SessionState)
  /-- Broadcast and not yet arrived, oldest first. -/
  events : List (String × SessionState)
  /-- Responses under way. -/
  responses : List Delivery
  /-- Everything that has arrived, in order. -/
  arrived : List Delivery
deriving DecidableEq, Repr

/-- What the server does, and what arrives. -/
inductive Action
  | commit (operation : Operation)
  /-- The database is read for a list. -/
  | read (clock : Readings)
  | event
  | response (index : ℕ)
deriving DecidableEq, Repr

/-- The state that was written last for a machine. -/
def lastWritten (id : String) (written : List (String × SessionState)) : Option SessionState :=
  (written.filter fun w => w.1 = id).getLast?.map Prod.snd

namespace Dashboard

/-- The dashboard is opened when `written` has been written. -/
def start (server : Server) (written : List (String × SessionState)) : Dashboard :=
  { server := server, written := written, events := [], responses := [], arrived := [] }

/-- One action: events arrive in order, responses in any. -/
def step (s : Dashboard) : Action → Option Dashboard
  | .commit operation =>
    let c := s.server.commit operation
    some { s with
      server := c.server
      written := s.written ++ c.event.toList
      events := s.events ++ c.event.toList
      responses := s.responses ++ c.response.toList }
  | .read clock =>
    let (server, machines) := s.server.list clock
    some { s with server := server, responses := s.responses ++ [.list machines] }
  | .event =>
    match s.events with
    | [] => none
    | (machineId, session) :: events =>
      some { s with
        events := events
        arrived := s.arrived ++ [.event machineId (.sessionUpdated (some session))] }
  | .response index =>
    match s.responses[index]? with
    | none => none
    | some d => some { s with responses := s.responses.eraseIdx index, arrived := s.arrived ++ [d] }

/-- The list that the dashboard has. -/
def cache (s : Dashboard) : Cache := cacheOf s.arrived

/-- The session is the state written last for the machine, or what is left of it for a list, which has
only the `ACTIVE` ones. -/
def Shows (s : Dashboard) (id : String) (session : Option SessionState) : Prop :=
  session = lastWritten id s.written ∨
    session = (s.server.db.findActive id).map fun row => SessionsService.toDto row.session

instance (s : Dashboard) (id : String) (session : Option SessionState) :
    Decidable (s.Shows id session) := inferInstanceAs (Decidable (_ ∨ _))

/-- Each machine has one entry, with the state that the last operation on it has written. -/
def Converged (s : Dashboard) : Prop :=
  ∀ m ∈ s.server.machines, ∃ entry, entries m.id s.cache = [entry] ∧ s.Shows m.id entry.activeSession

instance (s : Dashboard) : Decidable s.Converged :=
  decidable_of_iff
    (∀ m ∈ s.server.machines, ∃ entry ∈ entries m.id s.cache,
      entries m.id s.cache = [entry] ∧ s.Shows m.id entry.activeSession)
    (forall₂_congr fun _ _ => exists_congr fun entry =>
      and_iff_right_of_imp fun h => h.1 ▸ List.mem_singleton_self entry)

/-- Everything has been delivered. -/
def Delivered (s : Dashboard) : Prop := s.events = [] ∧ s.responses = []

end Dashboard

/-! ## The condition -/

/-- A list. -/
def Delivery.listed : Delivery → Option (List Machine)
  | .list machines => some machines
  | _ => none

/-- The machine that has been created. -/
def Delivery.creates : Delivery → Option String
  | .created machine => some machine.id
  | _ => none

/-- Whether it comes over HTTP. -/
def Delivery.isResponse : Delivery → Bool
  | .event _ _ => false
  | _ => true

/-- The last list that has arrived. -/
def lastList (ds : List Delivery) : List Machine := ((ds.filterMap Delivery.listed).getLast?).getD []

/-- What has arrived since. -/
def sinceLastList (ds : List Delivery) : List Delivery :=
  (ds.reverse.takeWhile fun d => d.listed.isNone).reverse

/-- The machine is in the last list, or its creation is returned after that, and not both. -/
def Once (id : String) (ds : List Delivery) : Prop :=
  Xor (id ∈ (lastList ds).map Machine.id) (id ∈ (sinceLastList ds).filterMap Delivery.creates)

/-- The last thing that has arrived about a machine. -/
def lastAbout (id : String) (ds : List Delivery) : Option Delivery :=
  (ds.filter fun d => (d.sessionOf id).isSome).getLast?

/-- If the last thing to arrive about a machine is a response, then it has the machine's last state. -/
def Dashboard.NotOvertaken (s : Dashboard) (id : String) : Prop :=
  ∀ d ∈ lastAbout id s.arrived, d.isResponse = true → ∀ session ∈ d.sessionOf id, s.Shows id session

/-! ## What has arrived -/

section Arrived

variable (ds : List Delivery) (d : Delivery) (id : String)

theorem lastList_concat : lastList (ds ++ [d]) = d.listed.getD (lastList ds) := by
  unfold lastList
  cases h : d.listed <;> simp [h]

theorem sinceLastList_concat :
    sinceLastList (ds ++ [d]) = if d.listed.isNone then sinceLastList ds ++ [d] else [] := by
  unfold sinceLastList
  rw [List.reverse_append, List.reverse_singleton, List.singleton_append, List.takeWhile_cons]
  split_ifs <;> simp

theorem lastAbout_concat :
    lastAbout id (ds ++ [d]) = if (d.sessionOf id).isSome then some d else lastAbout id ds := by
  unfold lastAbout
  split_ifs with h <;> simp [h]

theorem lastDelivered_eq : lastDelivered id ds = (lastAbout id ds).bind (Delivery.sessionOf id) := by
  induction ds using List.reverseRecOn with
  | nil => rfl
  | append_singleton ds d ih =>
    rw [lastDelivered_concat, lastAbout_concat, ih]
    cases h : d.sessionOf id <;> simp [h]

end Arrived

/-- What arrives as long as no machine is removed or changed in another way. -/
def Delivery.Plain : Delivery → Prop
  | .list machines => (machines.map Machine.id).Nodup
  | .event _ (.sessionUpdated (some _)) | .result _ _ | .created _ => True
  | _ => False

/-- The entries of a machine, by where they come from. -/
theorem length_entries_cacheOf {ds : List Delivery} (hds : ∀ d ∈ ds, d.Plain) (id : String) :
    (entries id (cacheOf ds)).length =
      ((lastList ds).map Machine.id).count id +
        ((sinceLastList ds).filterMap Delivery.creates).count id := by
  induction ds using List.reverseRecOn with
  | nil => rfl
  | append_singleton ds d ih =>
    have hd := hds d (by simp)
    have hlen := ih fun d hd => hds d (List.mem_append_left _ hd)
    rw [cacheOf_concat, lastList_concat, sinceLastList_concat]
    cases d with
    | list machines =>
      simp only [Delivery.apply, Delivery.listed, Option.getD_some, Option.isNone_some]
      rw [List.count, List.countP_map, List.countP_eq_length_filter]
      rfl
    | event machineId message =>
      cases message with
      | sessionUpdated session =>
        simp only [Delivery.listed, Option.getD_none, Option.isNone_none, if_true,
          List.filterMap_append]
        rw [show [Delivery.event machineId (.sessionUpdated session)].filterMap Delivery.creates = []
          from rfl, List.append_nil, ← hlen]
        exact length_entries_patchMachineSession machineId id session (cacheOf ds)
      | machineUpdated | machineDecommissioning | machineRemoved => cases hd
    | result machineId session =>
      simp only [Delivery.listed, Option.getD_none, Option.isNone_none, if_true,
        List.filterMap_append]
      rw [show [Delivery.result machineId session].filterMap Delivery.creates = [] from rfl,
        List.append_nil, ← hlen]
      exact length_entries_patchMachineSession machineId id (some session) (cacheOf ds)
    | created machine =>
      simp only [Delivery.listed, Option.getD_none, Option.isNone_none, if_true,
        List.filterMap_append]
      rw [show [Delivery.created machine].filterMap Delivery.creates = [machine.id] from rfl,
        List.count_append, ← add_assoc, ← hlen, Delivery.apply, entries_appendMachine,
        List.length_append, List.count_singleton]
      split_ifs <;> simp_all
    | replaced | removed => cases hd

/-- Each list has a machine at most once. -/
theorem nodup_lastList {ds : List Delivery} (hds : ∀ d ∈ ds, d.Plain) :
    ((lastList ds).map Machine.id).Nodup := by
  induction ds using List.reverseRecOn with
  | nil => exact List.nodup_nil
  | append_singleton ds d ih =>
    have hd := hds d (by simp)
    have hlast := ih fun d hd => hds d (List.mem_append_left _ hd)
    rw [lastList_concat]
    cases d with
    | list machines => exact hd
    | event | result | replaced | removed | created => exact hlast

theorem sinceLastList_sublist (ds : List Delivery) : (sinceLastList ds).Sublist ds := by
  have hprefix := List.takeWhile_prefix (l := ds.reverse) fun d => d.listed.isNone
  rw [sinceLastList, ← List.reverse_sublist, List.reverse_reverse]
  exact hprefix.sublist

theorem once_iff {ds : List Delivery} (hds : ∀ d ∈ ds, d.Plain)
    (hcreated : (ds.filterMap Delivery.creates).Nodup) (id : String) :
    Once id ds ↔ (entries id (cacheOf ds)).length = 1 := by
  have hlist := List.nodup_iff_count_le_one.1 (nodup_lastList hds) id
  have hsince := List.nodup_iff_count_le_one.1
    (hcreated.sublist ((sinceLastList_sublist ds).filterMap Delivery.creates)) id
  rw [length_entries_cacheOf hds, Once, Xor, ← List.count_pos_iff, ← List.count_pos_iff]
  omega

/-! ## What has been written -/

/-- The event of an operation. -/
def Delivery.pushed : Delivery → Option (String × SessionState)
  | .event machineId (.sessionUpdated (some session)) => some (machineId, session)
  | _ => none

theorem lastWritten_concat (id : String) (written : List (String × SessionState))
    (w : String × SessionState) :
    lastWritten id (written ++ [w]) = if w.1 = id then some w.2 else lastWritten id written := by
  unfold lastWritten
  split_ifs with h <;> simp [h]

theorem Delivery.Plain.cases {d : Delivery} (hd : d.Plain) :
    d.isResponse = true ∧ d.pushed = none ∨
      ∃ machineId session, d = .event machineId (.sessionUpdated (some session)) := by
  cases d with
  | event machineId message =>
    cases message with
    | sessionUpdated session =>
      cases session with
      | none => cases hd
      | some session => exact Or.inr ⟨machineId, session, rfl⟩
    | machineUpdated | machineDecommissioning | machineRemoved => cases hd
  | list | result | replaced | removed | created => exact Or.inl ⟨rfl, rfl⟩

/-- The events arrive in the order in which the states were written, so that the last one to arrive
about a machine has the last state, if a response does not follow. -/
theorem lastWritten_of_event (written : List (String × SessionState)) {ds : List Delivery}
    (hds : ∀ d ∈ ds, d.Plain) {id : String} {d : Delivery} (hlast : lastAbout id ds = some d)
    (hd : d.isResponse = false) {session : Option SessionState} (hs : d.sessionOf id = some session) :
    session = lastWritten id (written ++ ds.filterMap Delivery.pushed) := by
  induction ds using List.reverseRecOn with
  | nil => cases hlast
  | append_singleton ds e ih =>
    have hrest := ih fun d hd => hds d (List.mem_append_left _ hd)
    rw [lastAbout_concat] at hlast
    rw [List.filterMap_append, ← List.append_assoc]
    rcases (hds e (by simp)).cases with ⟨hresponse, hpushed⟩ | ⟨machineId, state, rfl⟩
    · rw [List.filterMap_cons_none hpushed, List.filterMap_nil, List.append_nil]
      split_ifs at hlast with habout
      · obtain rfl := Option.some.inj hlast
        exact absurd hresponse (by simp [hd])
      · exact hrest hlast
    · rw [List.filterMap_cons_some (f := Delivery.pushed) rfl, List.filterMap_nil, lastWritten_concat]
      by_cases hid : machineId = id
      · rw [if_pos (by simp [Delivery.sessionOf, hid])] at hlast
        obtain rfl := Option.some.inj hlast
        rw [Delivery.sessionOf, if_pos hid] at hs
        rw [if_pos hid]
        exact (Option.some.inj hs).symm
      · rw [if_neg (by simp [Delivery.sessionOf, hid])] at hlast
        rw [if_neg hid]
        exact hrest hlast

/-! ## What an operation does -/

/-- An operation on the sessions fails or returns what it broadcasts. -/
def Committed.OnSessions (server : Server) (c : Committed) : Prop :=
  c.server.machines = server.machines ∧
    (c.response = none ∧ c.event = none ∨
      ∃ machineId session,
        c.response = some (.result machineId session) ∧ c.event = some (machineId, session))

namespace Server

theorem push_onSessions (server : Server) (machineId : String) (result : Database × Outcome) :
    (server.push machineId result).OnSessions server := by
  obtain ⟨db, outcome⟩ := result
  cases outcome with
  | done session => exact ⟨rfl, Or.inr ⟨machineId, _, rfl, rfl⟩⟩
  | active | notFound | conflict | badRequest | report => exact ⟨rfl, Or.inl ⟨rfl, rfl⟩⟩

theorem commit_cases (server : Server) (operation : Operation) :
    (∃ machine : Machine, machine.id ∉ server.machines.map Machine.id ∧
      machine.activeSession = none ∧
      (server.commit operation).server.machines = server.machines ++ [machine] ∧
      (server.commit operation).response = some (.created machine) ∧
      (server.commit operation).event = none) ∨
    (server.commit operation).OnSessions server := by
  cases operation with
  | create machine =>
    by_cases h : machine.id ∈ server.machines.map Machine.id
    · rw [commit, create, dif_pos h]
      exact Or.inr ⟨rfl, Or.inl ⟨rfl, rfl⟩⟩
    · rw [commit, create, dif_neg h]
      exact Or.inl ⟨{ machine with activeSession := none }, h, rfl, rfl, rfl, rfl⟩
  | start machineId durationMinutes id clock => exact Or.inr (push_onSessions _ _ _)
  | extend sessionId additionalMinutes clock =>
    rw [commit]
    split
    · exact Or.inr (push_onSessions _ _ _)
    · exact Or.inr ⟨rfl, Or.inl ⟨rfl, rfl⟩⟩
  | «end» sessionId clock =>
    rw [commit]
    split
    · exact Or.inr (push_onSessions _ _ _)
    · exact Or.inr ⟨rfl, Or.inl ⟨rfl, rfl⟩⟩

theorem list_plain (server : Server) (clock : Readings) :
    (Delivery.list (server.list clock).2).Plain := by
  have hids : ((server.list clock).2).map Machine.id = server.machines.map Machine.id := by
    rw [list, List.map_map]
    rfl
  rw [Delivery.Plain, hids]
  exact server.nodup

end Server

/-! ## Runs -/

/-- What has been sent: the creation of a machine is returned once. -/
structure Issued (machines : List Machine) (ds : List Delivery) : Prop where
  plain : ∀ d ∈ ds, d.Plain
  created : (ds.filterMap Delivery.creates).Nodup
  machines : ∀ id ∈ ds.filterMap Delivery.creates, id ∈ machines.map Machine.id

namespace Issued

variable {machines : List Machine} {ds ds' : List Delivery} {d : Delivery}

theorem perm (h : Issued machines ds) (hperm : ds.Perm ds') : Issued machines ds' where
  plain d hd := h.plain d (hperm.mem_iff.2 hd)
  created := (hperm.filterMap _).nodup_iff.1 h.created
  machines id hid := h.machines id ((hperm.filterMap _).mem_iff.2 hid)

theorem plain_concat (h : Issued machines ds) (hd : d.Plain) : ∀ e ∈ ds ++ [d], e.Plain := by
  intro e he
  rcases List.mem_append.1 he with he | he
  · exact h.plain e he
  · rwa [List.mem_singleton.1 he]

theorem concat (h : Issued machines ds) (hd : d.Plain) (hcreates : d.creates = none) :
    Issued machines (ds ++ [d]) := by
  have hsame : (ds ++ [d]).filterMap Delivery.creates = ds.filterMap Delivery.creates := by
    rw [List.filterMap_append, List.filterMap_cons_none hcreates, List.filterMap_nil,
      List.append_nil]
  exact ⟨h.plain_concat hd, hsame ▸ h.created, hsame ▸ h.machines⟩

theorem create (h : Issued machines ds) {machine : Machine}
    (hmachine : machine.id ∉ machines.map Machine.id) :
    Issued (machines ++ [machine]) (ds ++ [.created machine]) := by
  have hnew : (ds ++ [Delivery.created machine]).filterMap Delivery.creates =
      ds.filterMap Delivery.creates ++ [machine.id] := by
    rw [List.filterMap_append]
    rfl
  refine ⟨h.plain_concat trivial, ?_, fun id hid => ?_⟩
  · rw [hnew, ← List.concat_eq_append]
    exact h.created.concat fun hid => hmachine (h.machines _ hid)
  · rw [hnew] at hid
    rw [List.map_append, List.map_singleton]
    rcases List.mem_append.1 hid with hid | hid
    · exact List.mem_append_left _ (h.machines id hid)
    · exact List.mem_append_right _ hid

end Issued

/-- The events are under way in the order in which they were written after `before`. -/
structure Sound (before : List (String × SessionState)) (s : Dashboard) : Prop where
  written : s.written = before ++ s.arrived.filterMap Delivery.pushed ++ s.events
  responses : ∀ d ∈ s.responses, d.pushed = none
  issued : Issued s.server.machines (s.arrived ++ s.responses)

namespace Sound

variable {before : List (String × SessionState)} {s t : Dashboard}

theorem start (server : Server) (before : List (String × SessionState)) :
    Sound before (Dashboard.start server before) where
  written := by simp [Dashboard.start]
  responses d hd := by cases hd
  issued := ⟨fun d hd => (by cases hd), List.nodup_nil, fun id hid => (by cases hid)⟩

theorem commit (h : Sound before s) {operation : Operation}
    (hstep : s.step (.commit operation) = some t) : Sound before t := by
  obtain rfl := Option.some.inj hstep
  rcases s.server.commit_cases operation with ⟨machine, hnew, -, hmachines, hresponse, hevent⟩ |
    ⟨hmachines, ⟨hresponse, hevent⟩ | ⟨machineId, session, hresponse, hevent⟩⟩
  · refine ⟨?_, ?_, ?_⟩
    · simpa [hevent] using h.written
    · simpa [hresponse, or_imp, forall_and, Delivery.pushed] using h.responses
    · simpa [hresponse, hmachines] using h.issued.create hnew
  · refine ⟨?_, ?_, ?_⟩
    · simpa [hevent] using h.written
    · simpa [hresponse] using h.responses
    · simpa [hresponse, hmachines] using h.issued
  · refine ⟨?_, ?_, ?_⟩
    · simp [hevent, h.written]
    · simpa [hresponse, or_imp, forall_and, Delivery.pushed] using h.responses
    · simpa [hresponse, hmachines] using h.issued.concat (d := .result machineId session) trivial rfl

theorem read (h : Sound before s) {clock : Readings} (hstep : s.step (.read clock) = some t) :
    Sound before t := by
  obtain rfl := Option.some.inj hstep
  refine ⟨h.written, ?_, ?_⟩
  · simpa [or_imp, forall_and, Delivery.pushed] using h.responses
  · have hissued := h.issued.concat (s.server.list_plain clock) rfl
    rwa [List.append_assoc] at hissued

theorem event (h : Sound before s) (hstep : s.step .event = some t) : Sound before t := by
  rw [Dashboard.step] at hstep
  split at hstep
  · cases hstep
  · rename_i machineId session events hevents
    obtain rfl := Option.some.inj hstep
    refine ⟨?_, h.responses, ?_⟩
    · simp [h.written, hevents, Delivery.pushed]
    · have hissued := h.issued.concat (d := .event machineId (.sessionUpdated (some session)))
        trivial rfl
      refine hissued.perm ?_
      simp only [List.append_assoc]
      exact List.perm_append_comm.append_left _

theorem response (h : Sound before s) {index : ℕ} (hstep : s.step (.response index) = some t) :
    Sound before t := by
  rw [Dashboard.step] at hstep
  split at hstep
  · cases hstep
  · rename_i d hd
    obtain rfl := Option.some.inj hstep
    obtain ⟨hindex, rfl⟩ := List.getElem?_eq_some_iff.1 hd
    refine ⟨?_, fun e he => h.responses e (List.mem_of_mem_eraseIdx he), ?_⟩
    · rw [List.filterMap_append, List.filterMap_cons_none (h.responses _ (List.getElem_mem hindex)),
        List.filterMap_nil, List.append_nil]
      exact h.written
    · refine h.issued.perm ?_
      rw [List.append_assoc, List.singleton_append]
      exact (List.getElem_cons_eraseIdx_perm hindex).symm.append_left _

theorem step (h : Sound before s) {a : Action} (hstep : s.step a = some t) : Sound before t := by
  cases a with
  | commit operation => exact h.commit hstep
  | read clock => exact h.read hstep
  | event => exact h.event hstep
  | response index => exact h.response hstep

theorem run {server : Server} {es : List Action}
    (hrun : Automata.run Dashboard.step (Dashboard.start server before) es = some s) :
    Sound before s :=
  run_invariant (I := Sound before) (fun _ _ _ h hstep => h.step hstep) (start server before) hrun

end Sound

namespace Dashboard

variable {before : List (String × SessionState)} {s : Dashboard}

/-- What the only entry of a machine shows is what has arrived last about it. -/
theorem shows_iff (h : Sound before s) (hevents : s.events = []) {id : String} {entry : Machine}
    (hentry : entries id s.cache = [entry]) :
    s.Shows id entry.activeSession ↔ s.NotOvertaken id := by
  have hlast := lastDelivered_of_entry hentry
  rw [lastDelivered_eq, Option.bind_eq_some_iff] at hlast
  obtain ⟨d, hd, hsession⟩ := hlast
  constructor
  · intro hshows e he _ session hs
    obtain rfl : d = e := Option.some.inj (hd.symm.trans he)
    obtain rfl : entry.activeSession = session := Option.some.inj (hsession.symm.trans hs)
    exact hshows
  · intro hnot
    cases hresponse : d.isResponse with
    | true => exact hnot d hd hresponse _ hsession
    | false =>
      refine Or.inl ?_
      rw [h.written, hevents, List.append_nil]
      exact lastWritten_of_event before (fun d hd => h.issued.plain d (List.mem_append_left _ hd))
        hd hresponse hsession

/-- Once the events have arrived, the list is that of the server, exactly when each machine is in the
last list or is created after it, and not both, and no response that an operation has overtaken is the
last to arrive about a machine. -/
theorem converged_iff (hsound : Sound before s) (hevents : s.events = []) :
    s.Converged ↔ ∀ m ∈ s.server.machines, Once m.id s.arrived ∧ s.NotOvertaken m.id := by
  have hplain : ∀ d ∈ s.arrived, d.Plain :=
    fun d hd => hsound.issued.plain d (List.mem_append_left _ hd)
  have hcreated := hsound.issued.created
  rw [List.filterMap_append] at hcreated
  refine forall₂_congr fun m _ => ?_
  rw [once_iff hplain hcreated.of_append_left m.id, List.length_eq_one_iff]
  constructor
  · rintro ⟨entry, hentry, hshows⟩
    exact ⟨⟨entry, hentry⟩, (shows_iff hsound hevents hentry).1 hshows⟩
  · rintro ⟨⟨entry, hentry⟩, hnot⟩
    exact ⟨entry, hentry, (shows_iff hsound hevents hentry).2 hnot⟩

/-- A machine without a session. -/
def idle (id : String) : Machine :=
  { id := id, name := "Front desk", platform := .windows, online := true, decommissioning := false,
    lastSeenAt := none, agentVersion := none, activeSession := none, createdAt := 0, updatedAt := 0 }

/-- A server with one of them. -/
def single : Server := { machines := [idle "m1"], sessions := [], nodup := List.nodup_singleton _ }

/-- The response to the start arrives after all that there is about the end. -/
def overtaken : List Action :=
  [.read (.at 0), .response 0, .commit (.start "m1" 60 "s1" (.at 1000)), .event,
    .commit (.end "s1" (.at 60000)), .event, .response 1, .response 0]

/-- A machine is created, and a list that has it arrives before the response. -/
def doubled : List Action := [.commit (.create (idle "m2")), .read (.at 0), .response 1, .response 0]

/-- The session that has been ended is shown as `ACTIVE`, and the machine is there twice. -/
theorem not_converged :
    (∃ s, run step (start single []) overtaken = some s ∧ s.Delivered ∧ ¬s.Converged) ∧
      ∃ s, run step (start single []) doubled = some s ∧ s.Delivered ∧ ¬s.Converged :=
  ⟨⟨_, rfl, ⟨rfl, rfl⟩, by decide⟩, ⟨_, rfl, ⟨rfl, rfl⟩, by decide⟩⟩

end Dashboard

end Taymna.Web
