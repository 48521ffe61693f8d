import Mathlib.Data.List.Nodup
import Taymna.Web.Machines

/-!
# Whether a session is running (`web/src/components/machine-card.tsx`)

The agent and the card decide it about the same value, the last session that the API has delivered. The
card compares its deadline with the time and leaves its status aside, so that they differ on a session
that is no longer `ACTIVE` while its deadline lies ahead.
-/

namespace Taymna.Web

open Api (SessionStateDto nanos nanos_lt_nanos_iff)

namespace MachineCard

/-- `isExpired`: the deadline has been reached. -/
def isExpired (machine : Machine) (now : ℤ) : Bool :=
  match machine.activeSession with
  | some session => session.expiresAt ≤ now
  | none => false

/-- `hasActiveSession`: the status is not looked at. -/
def hasActiveSession (machine : Machine) (now : ℤ) : Bool :=
  machine.activeSession.isSome && !isExpired machine now

theorem hasActiveSession_iff (machine : Machine) (now : ℤ) :
    hasActiveSession machine now = true ↔
      ∃ session, machine.activeSession = some session ∧ now < session.expiresAt := by
  unfold hasActiveSession isExpired
  cases machine.activeSession <;> simp

/-- What the agent makes of a session that it has been sent. -/
theorem allowed_iff (session : Option SessionState) (now : ℤ) :
    (Agent.advance (session.map SessionStateDto.read) (nanos now)).2 = .allowed ↔
      ∃ s, session = some s ∧ s.status = .active ∧ now < s.expiresAt := by
  rw [Agent.advance_allowed_iff]
  cases session with
  | none => simp
  | some s => simp [SessionStateDto.read, nanos_lt_nanos_iff]

end MachineCard

/-- A list of machines, in which the primary key lets each occur once, or the session of a machine. -/
def Delivery.OfSessions : Delivery → Prop
  | .list machines => (machines.map Machine.id).Nodup
  | .event _ (.sessionUpdated _) | .result _ _ => True
  | _ => False

theorem length_entries_le {ds : List Delivery} (hds : ∀ d ∈ ds, d.OfSessions) (id : String) :
    (entries id (cacheOf ds)).length ≤ 1 := by
  induction ds using List.reverseRecOn with
  | nil => exact Nat.zero_le 1
  | append_singleton ds d ih =>
    have hd := hds d (by simp)
    have hlen := ih fun d hd => hds d (List.mem_append_left _ hd)
    rw [cacheOf_concat]
    cases d with
    | list machines =>
      have hcount := List.nodup_iff_count_le_one.1 hd id
      rwa [List.count, List.countP_map, List.countP_eq_length_filter] at hcount
    | event machineId message =>
      cases message with
      | sessionUpdated session =>
        exact (length_entries_patchMachineSession machineId id session _).trans_le hlen
      | machineUpdated | machineDecommissioning | machineRemoved => cases hd
    | result machineId session =>
      exact (length_entries_patchMachineSession machineId id (some session) _).trans_le hlen
    | replaced | removed | created => cases hd

namespace MachineCard

/-- The card of a machine agrees with the agent on the last session that has been delivered, exactly
when there is none, or it is `ACTIVE`, or its deadline has passed. -/
theorem card_agrees_iff {ds : List Delivery} (hds : ∀ d ∈ ds, d.OfSessions) {machines : List Machine}
    (hcache : cacheOf ds = some machines) {m : Machine} (hm : m ∈ machines) (now : ℤ) :
    ∃ session, lastDelivered m.id ds = some session ∧
      ((hasActiveSession m now = true ↔
          (Agent.advance (session.map SessionStateDto.read) (nanos now)).2 = .allowed) ↔
        ∀ s, session = some s → s.status = .active ∨ s.expiresAt ≤ now) := by
  have hmem : m ∈ entries m.id (cacheOf ds) := mem_entries.2 ⟨by rwa [hcache], rfl⟩
  have hone : entries m.id (cacheOf ds) = [m] := by
    rcases hentries : entries m.id (cacheOf ds) with _ | ⟨m', _ | ⟨m'', rest⟩⟩
    · rw [hentries] at hmem
      cases hmem
    · rw [hentries] at hmem
      rw [List.mem_singleton.1 hmem]
    · have hlen := length_entries_le hds m.id
      simp [hentries] at hlen
  refine ⟨m.activeSession, lastDelivered_of_entry hone, ?_⟩
  rw [hasActiveSession_iff, allowed_iff]
  cases m.activeSession with
  | none => simp
  | some s =>
    simp only [Option.some.injEq, exists_eq_left', forall_eq']
    rw [← not_lt]
    tauto

/-- A session of an hour. -/
def hour (status : Agent.SessionStatus) : SessionState :=
  { id := "s1", startedAt := 0, expiresAt := 3600000, status := status, updatedAt := 0 }

/-- A machine on which it runs. -/
def frontDesk (status : Agent.SessionStatus) : Machine :=
  { id := "m1", name := "Front desk", platform := .windows, online := true, decommissioning := false,
    lastSeenAt := none, agentVersion := none, activeSession := some (hour status), createdAt := 0,
    updatedAt := 0 }

theorem card_agrees_active :
    ∃ session, lastDelivered (frontDesk .active).id [.list [frontDesk .active]] = some session ∧
      ((hasActiveSession (frontDesk .active) 60000 = true ↔
          (Agent.advance (session.map SessionStateDto.read) (nanos 60000)).2 = .allowed) ↔
        ∀ s, session = some s → s.status = .active ∨ s.expiresAt ≤ 60000) :=
  card_agrees_iff (by simp [Delivery.OfSessions]) rfl List.mem_cons_self 60000

/-- The session is ended by the operator after less than a minute, and the card goes on to show it. -/
theorem ended_session_shown :
    (∀ d ∈ [Delivery.list [frontDesk .active], .result "m1" (hour .ended)], d.OfSessions) ∧
      cacheOf [.list [frontDesk .active], .result "m1" (hour .ended)] = some [frontDesk .ended] ∧
      hasActiveSession (frontDesk .ended) 60000 = true ∧
      lastDelivered "m1" [.list [frontDesk .active], .result "m1" (hour .ended)] =
        some (some (hour .ended)) ∧
      (Agent.advance (some (hour .ended).read) (nanos 60000)).2 = .blocked :=
  ⟨by simp [Delivery.OfSessions], by decide, by decide, by decide, by decide⟩

end MachineCard

end Taymna.Web
