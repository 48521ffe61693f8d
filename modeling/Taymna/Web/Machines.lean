import Mathlib.Data.List.Induction
import Taymna.Api.Usage
import Taymna.Api.Protocol

/-!
# The dashboard's list of machines (`web/src/lib/use-machines.ts`, `web/src/lib/use-realtime.ts`)

React Query holds the list under one key. A completed fetch replaces it, and each event and each result
of a mutation is worked into what is there, without a look at how old it is. An entry therefore shows
the session that was delivered last about its machine, unless there are two of it
(`lastDelivered_of_entry`).
-/

namespace Taymna.Web

open Api (Platform SessionStateDto ServerToOperatorMessage)

/-- What `JSON.parse` makes of the API's DTO; a date in it is its number of milliseconds. -/
abbrev SessionState := SessionStateDto

/-- A machine as the dashboard has it (`Machine` of `types.ts`). -/
structure Machine where
  id : String
  name : String
  platform : Platform
  online : Bool
  decommissioning : Bool
  lastSeenAt : Option ℤ
  agentVersion : Option String
  activeSession : Option SessionState
  createdAt : ℤ
  updatedAt : ℤ
deriving DecidableEq, Repr

/-- The data under `machinesQueryKey`; `none` is `undefined`. -/
abbrev Cache := Option (List Machine)

/-! ## The updaters -/

/-- `current?.map(...)`: what is there about one machine is changed. -/
def Cache.patch (current : Cache) (machineId : String) (f : Machine → Machine) : Cache :=
  current.map fun machines => machines.map fun m => if m.id = machineId then f m else m

/-- `current?.filter(...)`: what is there about one machine is dropped. -/
def Cache.drop (current : Cache) (machineId : String) : Cache :=
  current.map fun machines => machines.filter fun m => m.id ≠ machineId

/-- `onSuccess` of `useStartSession`, `useExtendSession` and `useEndSession`. -/
def patchMachineSession (machineId : String) (session : Option SessionState) (current : Cache) :
    Cache :=
  current.patch machineId fun m => { m with activeSession := session }

/-- `onSuccess` of `useRevokeCredential` and `useRenameMachine`. -/
def replaceMachine (machine : Machine) (current : Cache) : Cache :=
  current.patch machine.id fun _ => machine

/-- The outcome of a `RemoveMachineResult`. -/
inductive RemoveOutcome
  | removed
  | decommissioning
deriving DecidableEq, Repr

/-- `onSuccess` of `useDeleteMachine`. -/
def removeMachine (machineId : String) (outcome : RemoveOutcome) (current : Cache) : Cache :=
  match outcome with
  | .removed => current.drop machineId
  | .decommissioning => current.patch machineId fun m => { m with decommissioning := true }

/-- `onSuccess` of `useCreateMachine`. -/
def appendMachine (machine : Machine) (current : Cache) : Cache := some (current.getD [] ++ [machine])

/-- The handler of `useRealtime`. -/
def onmessage (machineId : String) (message : ServerToOperatorMessage) (current : Cache) : Cache :=
  match message with
  | .machineUpdated online lastSeenAt agentVersion =>
    current.patch machineId fun m =>
      { m with online := online, lastSeenAt := lastSeenAt, agentVersion := agentVersion }
  | .sessionUpdated session => current.patch machineId fun m => { m with activeSession := session }
  | .machineDecommissioning => current.patch machineId fun m => { m with decommissioning := true }
  | .machineRemoved => current.drop machineId

/-- What arrives at the dashboard. -/
inductive Delivery
  /-- The response of `listMachines`. -/
  | list (machines : List Machine)
  | event (machineId : String) (message : ServerToOperatorMessage)
  /-- The response of `startSession`, `extendSession` or `endSession`. -/
  | result (machineId : String) (session : SessionState)
  /-- The response of `revokeCredential` or `renameMachine`. -/
  | replaced (machine : Machine)
  | removed (machineId : String) (outcome : RemoveOutcome)
  | created (machine : Machine)
deriving DecidableEq, Repr

/-- What an arrival does to the cache. -/
def Delivery.apply (current : Cache) : Delivery → Cache
  | .list machines => some machines
  | .event machineId message => onmessage machineId message current
  | .result machineId session => patchMachineSession machineId (some session) current
  | .replaced machine => replaceMachine machine current
  | .removed machineId outcome => removeMachine machineId outcome current
  | .created machine => appendMachine machine current

/-- The cache after all that has arrived, in order. -/
def cacheOf (ds : List Delivery) : Cache := ds.foldl Delivery.apply none

theorem cacheOf_concat (ds : List Delivery) (d : Delivery) :
    cacheOf (ds ++ [d]) = d.apply (cacheOf ds) := by
  rw [cacheOf, List.foldl_append]
  rfl

/-! ## What is delivered about one machine -/

/-- The session that a delivery has for a machine, if it is about it. -/
def Delivery.sessionOf (id : String) : Delivery → Option (Option SessionState)
  | .list machines => (machines.find? fun m => m.id = id).map Machine.activeSession
  | .event machineId (.sessionUpdated session) => if machineId = id then some session else none
  | .event _ _ | .removed _ _ => none
  | .result machineId session => if machineId = id then some (some session) else none
  | .replaced machine | .created machine =>
    if machine.id = id then some machine.activeSession else none

/-- The session that has been delivered last for a machine. -/
def lastDelivered (id : String) (ds : List Delivery) : Option (Option SessionState) :=
  (ds.filterMap (Delivery.sessionOf id)).getLast?

theorem lastDelivered_concat (id : String) (ds : List Delivery) (d : Delivery) :
    lastDelivered id (ds ++ [d]) = (d.sessionOf id).or (lastDelivered id ds) := by
  unfold lastDelivered
  cases h : d.sessionOf id <;> simp [h]

/-- The entries of one machine. -/
def entries (id : String) (current : Cache) : List Machine :=
  (current.getD []).filter fun m => m.id = id

theorem mem_entries {current : Cache} {id : String} {m : Machine} :
    m ∈ entries id current ↔ m ∈ current.getD [] ∧ m.id = id := by
  simp [entries]

@[simp] theorem entries_none (id : String) : entries id none = [] := rfl

/-- A change of one machine's entries. -/
theorem entries_patch (current : Cache) (machineId id : String) {f : Machine → Machine}
    (hf : ∀ m, m.id = machineId → (f m).id = machineId) :
    entries id (current.patch machineId f) =
      if machineId = id then (entries id current).map f else entries id current := by
  cases current with
  | none => simp [Cache.patch]
  | some machines =>
    have hid : ∀ m : Machine, (if m.id = machineId then f m else m).id = m.id := by
      intro m
      split_ifs with h
      · exact (hf m h).trans h.symm
      · rfl
    simp only [entries, Cache.patch, Option.map_some, Option.getD_some, List.filter_map,
      Function.comp_def, hid]
    split_ifs with h
    · refine List.map_congr_left fun m hm => if_pos ?_
      rw [h]
      simpa using (List.mem_filter.1 hm).2
    · refine (List.map_congr_left fun m hm => if_neg ?_).trans (List.map_id _)
      rintro rfl
      exact h (by simpa using (List.mem_filter.1 hm).2)

theorem length_entries_patchMachineSession (machineId id : String) (session : Option SessionState)
    (current : Cache) :
    (entries id (patchMachineSession machineId session current)).length =
      (entries id current).length := by
  have hentries := entries_patch current machineId id
    (f := fun m => { m with activeSession := session }) fun _ hm => hm
  rw [patchMachineSession, hentries]
  split_ifs
  · exact List.length_map _
  · rfl

theorem entries_drop (current : Cache) (machineId id : String) :
    entries id (current.drop machineId) = if machineId = id then [] else entries id current := by
  cases current with
  | none => simp [Cache.drop]
  | some machines =>
    simp only [entries, Cache.drop, Option.map_some, Option.getD_some, List.filter_filter]
    split_ifs with h
    · subst h
      simp
    · refine List.filter_congr fun m _ => ?_
      by_cases hm : m.id = id
      · simp [hm, Ne.symm h]
      · simp [hm]

theorem entries_appendMachine (machine : Machine) (current : Cache) (id : String) :
    entries id (appendMachine machine current) =
      entries id current ++ if machine.id = id then [machine] else [] := by
  simp only [entries, appendMachine, Option.getD_some, List.filter_append]
  split_ifs with h <;> simp [h]

/-- A delivery that changes some other field. -/
theorem entry_of_patch {current : Cache} {machineId id : String} {f : Machine → Machine} {m : Machine}
    (h : entries id (current.patch machineId f) = [m]) (hf : ∀ m, (f m).id = m.id)
    (hsession : ∀ m, (f m).activeSession = m.activeSession) :
    ∃ m', entries id current = [m'] ∧ m'.activeSession = m.activeSession := by
  rw [entries_patch current _ id fun m hm => (hf m).trans hm] at h
  split_ifs at h
  · obtain ⟨m', hm', rfl⟩ := List.map_eq_singleton_iff.1 h
    exact ⟨m', hm', (hsession m').symm⟩
  · exact ⟨m, h, rfl⟩

/-- A delivery of a session. -/
theorem entry_of_patch_session {current : Cache} {machineId id : String} {f : Machine → Machine}
    {session : Option SessionState} {m : Machine} (h : entries id (current.patch machineId f) = [m])
    (hf : ∀ m, m.id = machineId → (f m).id = machineId)
    (hsession : ∀ m, (f m).activeSession = session) :
    (if machineId = id then some session else none) = some m.activeSession ∨
      (if machineId = id then some session else none) = none ∧
        ∃ m', entries id current = [m'] ∧ m'.activeSession = m.activeSession := by
  rw [entries_patch current _ id hf] at h
  split_ifs at h ⊢
  · obtain ⟨m', -, rfl⟩ := List.map_eq_singleton_iff.1 h
    exact Or.inl (congrArg some (hsession m').symm)
  · exact Or.inr ⟨rfl, m, h, rfl⟩

theorem entry_of_drop {current : Cache} {machineId id : String} {m : Machine}
    (h : entries id (current.drop machineId) = [m]) : entries id current = [m] := by
  rw [entries_drop] at h
  split_ifs at h
  exact h

/-- A delivery leaves the only entry of a machine with the session that it has for the machine, or it
has none and leaves the session as it was. -/
theorem entry_of_apply {current : Cache} {d : Delivery} {id : String} {m : Machine}
    (h : entries id (d.apply current) = [m]) :
    d.sessionOf id = some m.activeSession ∨
      d.sessionOf id = none ∧ ∃ m', entries id current = [m'] ∧ m'.activeSession = m.activeSession := by
  cases d with
  | list machines =>
    refine Or.inl ?_
    have hfilter : machines.filter (fun m => m.id = id) = [m] := h
    rw [Delivery.sessionOf, ← List.head?_filter, hfilter]
    rfl
  | event machineId message =>
    cases message with
    | machineUpdated | machineDecommissioning =>
      exact Or.inr ⟨rfl, entry_of_patch h (fun _ => rfl) fun _ => rfl⟩
    | sessionUpdated session => exact entry_of_patch_session h (fun _ hm => hm) fun _ => rfl
    | machineRemoved => exact Or.inr ⟨rfl, m, entry_of_drop h, rfl⟩
  | result machineId session => exact entry_of_patch_session h (fun _ hm => hm) fun _ => rfl
  | replaced machine => exact entry_of_patch_session h (fun _ _ => rfl) fun _ => rfl
  | removed machineId outcome =>
    cases outcome with
    | removed => exact Or.inr ⟨rfl, m, entry_of_drop h, rfl⟩
    | decommissioning => exact Or.inr ⟨rfl, entry_of_patch h (fun _ => rfl) fun _ => rfl⟩
  | created machine =>
    have happend := entries_appendMachine machine current id
    rw [show entries id (appendMachine machine current) = [m] from h] at happend
    simp only [Delivery.sessionOf]
    split_ifs at happend ⊢ with hid
    · rcases List.append_eq_singleton_iff.1 happend.symm with ⟨-, hm⟩ | ⟨-, hm⟩
      · obtain rfl := List.singleton_inj.1 hm
        exact Or.inl rfl
      · cases hm
    · rw [List.append_nil] at happend
      exact Or.inr ⟨rfl, m, happend.symm, rfl⟩

/-- A machine that has one entry is shown with the session that was delivered last. -/
theorem lastDelivered_of_entry {ds : List Delivery} {id : String} {m : Machine}
    (h : entries id (cacheOf ds) = [m]) : lastDelivered id ds = some m.activeSession := by
  induction ds using List.reverseRecOn generalizing m with
  | nil => cases h
  | append_singleton ds d ih =>
    rw [cacheOf_concat] at h
    rw [lastDelivered_concat]
    rcases entry_of_apply h with hd | ⟨hd, m', hm', hsame⟩
    · rw [hd]
      rfl
    · rw [hd, ← hsame]
      exact ih hm'

end Taymna.Web
