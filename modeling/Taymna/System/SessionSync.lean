import Taymna.Api.Server
import Taymna.System.Copies

/-!
# Agent and server agree on the session

One socket of a managed machine is being authenticated while sessions are started, extended and
ended. Every write stamps its row before it commits, the connect push of there being no session is
stamped when it is sent, and the agent goes by these stamps. As long as they do not contradict the
order of the commits, the agent ends up with the machine's `ACTIVE` row.
-/

namespace Taymna

open Automata Agent Api

namespace Api

variable {Hash : Type*}

/-- The row that a call has written or read, and is about to push. -/
def Call.unsent : Call Hash → Option Session
  | .authenticate _ (.session (.found session)) => session
  | .start (.created session) => session
  | .edit (.updated session) => session
  | _ => none

/-- What a call has read off the clock, to stamp a row with or to hold deadlines against. -/
def Call.reading : Call Hash → Option ℤ
  | .authenticate _ (.session (.expire now)) => some now
  | .start (.expire _ now) => some now
  | .start (.stamped _ _ updatedAt) => some updatedAt
  | .edit (.stamped _ _ updatedAt) => some updatedAt
  | _ => none

/-- The stamp of the row that a call is creating. -/
def Call.creating : Call Hash → Option ℤ
  | .start (.stamped _ _ updatedAt) => some updatedAt
  | _ => none

/-- The id of the row that a call is updating, and its new stamp. -/
def Call.updating : Call Hash → Option (String × ℤ)
  | .edit (.stamped id _ updatedAt) => some (id, updatedAt)
  | _ => none

/-- The call is about to tell the agent that there is no session. -/
def Call.absent : Call Hash → Bool
  | .authenticate _ (.session (.found none)) => true
  | _ => false

/-- The agent has been handed the session state, or is about to be handed a session. -/
def Call.briefed : Call Hash → Bool
  | .authenticate _ (.session (.found session)) => session.isSome
  | .authenticate _ .pushed => true
  | _ => false

/-- The credential is good, and no removal has been requested. -/
def Machine.Admits [Argon2 Hash] (m : Machine Hash) (secret : String) : Prop :=
  m.credentialRevokedAt = none ∧ verifySecret m.credentialHash secret = true ∧ m.isPending = false

/-- Where `authenticateAgent` can be for an agent that is admitted. -/
def Authenticate.Proceeds [Argon2 Hash] (k : ℕ) (secret : String) (agentSocket : Option ℕ) :
    Authenticate Hash → Prop
  | .find presented => presented = secret
  | .found presented machine => presented = secret ∧ ∃ m, machine = some m ∧ m.Admits secret
  | .verifying presented hash => verifySecret hash presented = true
  | .verified ok => ok = true
  | .heartbeat (.update _ _) | .pending | .session _ | .pushed => agentSocket = some k
  | .heartbeat (.updated machine) => agentSocket = some k ∧ machine.isSome = true
  | .pendingFound machine => agentSocket = some k ∧ machine.any Machine.isPending = false
  | .rejected | .told | .failed => False

/-- A call about the machine's sessions, or the authentication of socket `k`. -/
def Call.Proceeds [Argon2 Hash] (k : ℕ) (secret : String) (agentSocket : Option ℕ) :
    Call Hash → Prop
  | .authenticate client pc => client = k ∧ pc.Proceeds k secret agentSocket
  | .start _ | .edit _ => True
  | _ => False

end Api

namespace SessionSync

open SessionsService (findActive findUnique)

variable {Hash : Type*}

/-- What calls are about to push. -/
def pending (calls : List (Call Hash)) : List Held := calls.filterMap fun c => c.unsent.map copy

/-- The copy that the agent starts with, those that have been put on socket `k`, and those that are
about to be pushed. -/
def copies (a : Held) (k : ℕ) (p : Pool (World Hash) (Call Hash)) : List Held :=
  a :: ((p.world.sockets k).sent.filterMap carried ++ pending p.calls)

/-- A row stamped `updatedAt` is newer than all that the agent has been told, or is about to be. -/
def Newest (a : Held) (k : ℕ) (p : Pool (World Hash) (Call Hash)) (updatedAt : ℤ) : Prop :=
  ∀ x ∈ copies a k p, x.stamp < nanos updatedAt

instance (a : Held) (k : ℕ) (p : Pool (World Hash) (Call Hash)) (updatedAt : ℤ) :
    Decidable (Newest a k p updatedAt) := inferInstanceAs (Decidable (∀ x ∈ _, _))

/-- The row that becomes the `ACTIVE` one, or is it, is written with a stamp newer than all before
it; another row is written with a stamp older than that of the `ACTIVE` row; and the agent is told
that there is no session only while there is none. -/
def CallInOrder (a : Held) (k : ℕ) (p : Pool (World Hash) (Call Hash)) (c : Call Hash) : Prop :=
  (∀ updatedAt ∈ c.creating, findActive p.world.sessions = none → Newest a k p updatedAt) ∧
    (∀ e ∈ c.updating, ∀ row ∈ findUnique p.world.sessions e.1,
      if row.status = .active then Newest a k p e.2
      else ∀ active ∈ findActive p.world.sessions, e.2 < active.updatedAt) ∧
    (c.absent = true → findActive p.world.sessions = none)

instance (a : Held) (k : ℕ) (p : Pool (World Hash) (Call Hash)) (c : Call Hash) :
    Decidable (CallInOrder a k p c) := inferInstanceAs (Decidable (_ ∧ _ ∧ _))

/-- No step puts a row or a message in place whose stamp is at odds with the order of the commits. -/
def InOrder (a : Held) (k : ℕ) (p : Pool (World Hash) (Call Hash)) : Pool.Label Event Input → Prop
  | .call j _ => ∀ c ∈ p.calls[j]?, CallInOrder a k p c
  | .env _ => True

instance (a : Held) (k : ℕ) (p : Pool (World Hash) (Call Hash)) :
    ∀ label, Decidable (InOrder a k p label)
  | .call _ _ => inferInstanceAs (Decidable (∀ c ∈ _, _))
  | .env _ => instDecidableTrue

/-- Requests about the machine's sessions, and calls that go on, reading a later time off the clock
each time. -/
def Traffic : Pool.Label Event Input → Prop
  | .env (.request (.start _) _) | .env (.request (.edit _ _) _) => True
  | .env _ => False
  | .call _ input => 0 < input.wait ∧ 0 < input.again

instance : ∀ label, Decidable (Traffic label)
  | .env (.request (.start _) _) | .env (.request (.edit _ _) _) => instDecidableTrue
  | .env (.request .requestDecommission _) | .env (.request .issueEnrollmentToken _)
  | .env (.request (.enroll _ _) _) | .env (.request .revokeCredential _) | .env (.connect _ _)
  | .env (.receive _ _ _) | .env (.hangUp _) | .env (.disconnect _) => instDecidableFalse
  | .call _ _ => inferInstanceAs (Decidable (_ ∧ _))

/-- No deadline has passed. -/
def InTime (w : World Hash) : Prop :=
  ∀ row ∈ w.sessions, row.status = .active → w.clock ≤ row.expiresAt

instance (w : World Hash) : Decidable (InTime w) := inferInstanceAs (Decidable (∀ row ∈ _, _))

/-! ## What a call about sessions can do -/

/-- The steps of `start`, `extend` and `end`. -/
inductive Move (w : World Hash) (input : Input) : Call Hash → World Hash → Call Hash → Prop
  | quiet {c clock c'} : w.clock ≤ clock → c.unsent = none → c'.unsent = none →
      (∀ t ∈ c'.reading, t ≤ clock) → Move w input c { w with clock := clock } c'
  | create {startedAt expiresAt updatedAt rows row} :
      SessionsService.create w.sessions input.id startedAt expiresAt updatedAt = some (rows, row) →
      (∀ r ∈ w.sessions, r.id ≠ input.id) →
      Move w input (.start (.stamped startedAt expiresAt updatedAt)) { w with sessions := rows }
        (.start (.created (some row)))
  | update {id edit updatedAt rows row} :
      SessionsService.update w.sessions id edit updatedAt = some (rows, row) →
      Move w input (.edit (.stamped id edit updatedAt)) { w with sessions := rows }
        (.edit (.updated (some row)))
  | push {c row c'} : c.unsent = some row → c'.unsent = none → c'.reading = none →
      Move w input c (pushSessionUpdate w row input.wait) c'

theorem move_of_start {w w' : World Hash} {input : Input} {pc pc' : StartSession}
    (hwait : 0 < input.wait) (htime : InTime w)
    (hread : ∀ t ∈ (Call.start pc : Call Hash).reading, t ≤ w.clock)
    (h : pc.step w input = some (w', pc')) : Move w input (.start pc) w' (.start pc') := by
  have hle : w.clock ≤ w.clock + input.wait := by omega
  cases StartSession.step_cases h with
  | find | unknown | orphan | taken | conflict => exact .quiet le_rfl rfl rfl (by simp [Call.reading])
  | found | expired | create => exact .quiet hle rfl rfl (by simp [Call.reading])
  | @expire duration now =>
    have hnow : now ≤ w.clock := hread now rfl
    have hrows : SessionsService.expireStale now (w.clock + input.wait) w.sessions = w.sessions :=
      SessionsService.expireStale_eq fun r hr hs => hnow.trans (htime r hr hs)
    rw [hrows]
    exact .quiet hle rfl rfl (by simp [Call.reading])
  | created hid hcreate => exact .create hcreate hid
  | push => exact .push rfl rfl rfl

theorem move_of_edit {w w' : World Hash} {input : Input} {pc pc' : EditSession}
    (hwait : 0 < input.wait) (hagain : 0 < input.again) (h : pc.step w input = some (w', pc')) :
    Move w input (.edit pc) w' (.edit pc') := by
  have hle : w.clock ≤ w.clock + input.wait := by omega
  cases EditSession.step_cases h with
  | find | unknown | inactive | missing | failed => exact .quiet le_rfl rfl rfl (by simp [Call.reading])
  | expired | stamp => exact .quiet hle rfl rfl (by simp [Call.reading])
  | allowed =>
    exact .quiet (hle.trans (le_add_of_nonneg_right hagain.le)) rfl rfl (by simp [Call.reading])
  | update hupdate => exact .update hupdate
  | push => exact .push rfl rfl rfl

/-! ## The copies after a step -/

variable {a : Held} {k j : ℕ} {secret : String} {input : Input} {w w' : World Hash}
  {calls : List (Call Hash)} {c c' : Call Hash} {p : Pool (World Hash) (Call Hash)} {x : Held}

theorem mem_pending : x ∈ pending calls ↔ ∃ c ∈ calls, c.unsent.map copy = some x :=
  List.mem_filterMap

theorem mem_copies : x ∈ copies a k p ↔
    x = a ∨ x ∈ (p.world.sockets k).sent.filterMap carried ∨ x ∈ pending p.calls := by
  simp [copies]

theorem pending_set (h : x ∈ pending (calls.set j c')) :
    x ∈ pending calls ∨ c'.unsent.map copy = some x := by
  obtain ⟨d, hd, hx⟩ := mem_pending.1 h
  rcases Pool.mem_set_cases hd with rfl | hd
  · exact Or.inr hx
  · exact Or.inl (mem_pending.2 ⟨d, hd, hx⟩)

theorem pending_of_set (c' : Call Hash) (hc : calls[j]? = some c) (h : x ∈ pending calls) :
    x ∈ pending (calls.set j c') ∨ c.unsent.map copy = some x := by
  by_cases hx : c.unsent.map copy = some x
  · exact Or.inr hx
  · exact Or.inl (mem_pending.2 (Pool.exists_mem_set hc (fun h => absurd h hx) (mem_pending.1 h)))

theorem pending_set_self (hc : calls[j]? = some c) (h : c'.unsent.map copy = some x) :
    x ∈ pending (calls.set j c') :=
  mem_pending.2 ⟨c', List.mem_set (List.getElem?_eq_some_iff.1 hc).1 c', h⟩

/-- A step of one call puts `frames` on the socket, and comes to push, or no longer has to push,
what `unsent` says. -/
theorem copies_subset {frames : List Frame} {new : List Held}
    (hsent : (w'.sockets k).sent = (p.world.sockets k).sent ++ frames)
    (hnew : ∀ x, x ∈ frames.filterMap carried ∨ c'.unsent.map copy = some x →
      x ∈ new ∨ x ∈ pending p.calls) :
    copies a k ⟨w', p.calls.set j c'⟩ ⊆ new ++ copies a k p := by
  have hadd : ∀ x, x ∈ frames.filterMap carried ∨ c'.unsent.map copy = some x →
      x ∈ new ++ copies a k p := fun x hx =>
    List.mem_append.2 ((hnew x hx).imp_right fun hp => mem_copies.2 (Or.inr (Or.inr hp)))
  have hold : ∀ x ∈ copies a k p, x ∈ new ++ copies a k p := fun x hx =>
    List.mem_append.2 (Or.inr hx)
  intro x hx
  rcases mem_copies.1 hx with rfl | hx | hx
  · exact hold x (mem_copies.2 (Or.inl rfl))
  · rw [hsent, List.filterMap_append] at hx
    rcases List.mem_append.1 hx with hx | hx
    · exact hold x (mem_copies.2 (Or.inr (Or.inl hx)))
    · exact hadd x (Or.inl hx)
  · rcases pending_set hx with hx | hx
    · exact hold x (mem_copies.2 (Or.inr (Or.inr hx)))
    · exact hadd x (Or.inr hx)

theorem subset_copies (hc : p.calls[j]? = some c) {frames : List Frame} {new : List Held}
    (hsent : (w'.sockets k).sent = (p.world.sockets k).sent ++ frames)
    (hkeep : ∀ x, x ∈ new ∨ c.unsent.map copy = some x →
      x ∈ frames.filterMap carried ∨ c'.unsent.map copy = some x) :
    new ++ copies a k p ⊆ copies a k ⟨w', p.calls.set j c'⟩ := by
  have hadd : ∀ x, x ∈ new ∨ c.unsent.map copy = some x →
      x ∈ copies a k ⟨w', p.calls.set j c'⟩ := by
    intro x hx
    refine mem_copies.2 (Or.inr ((hkeep x hx).imp (fun hf => ?_) (pending_set_self hc)))
    rw [hsent, List.filterMap_append]
    exact List.mem_append_right _ hf
  intro x hx
  rcases List.mem_append.1 hx with hx | hx
  · exact hadd x (Or.inl hx)
  · rcases mem_copies.1 hx with rfl | hx | hx
    · exact mem_copies.2 (Or.inl rfl)
    · refine mem_copies.2 (Or.inr (Or.inl ?_))
      rw [hsent, List.filterMap_append]
      exact List.mem_append_left _ hx
    · rcases pending_of_set c' hc hx with hx | hx
      · exact mem_copies.2 (Or.inr (Or.inr hx))
      · exact hadd x (Or.inr hx)

/-- A push reaches socket `k` when it is the one that is registered. -/
theorem sockets_pushSessionUpdate (w : World Hash) (row : Session) (wait : ℤ) (k : ℕ) :
    (pushSessionUpdate w row wait).sockets k =
      if w.agentSocket = some k then
        (w.sockets k).send (SessionsService.sessionState (some row) (w.clock + wait))
      else w.sockets k := by
  simp only [pushSessionUpdate, World.broadcastToOperators_sockets, World.sendToMachine,
    World.read_agentSocket]
  split
  · rename_i k' hk'
    rcases eq_or_ne k' k with rfl | hne
    · rw [if_pos hk']
      simp [World.onSocket, World.read]
    · rw [if_neg (by simp [hk', hne])]
      simp [World.onSocket, Function.update_of_ne hne.symm]
  · rename_i hnone
    rw [if_neg (by simp [hnone])]
    rfl

theorem pushSessionUpdate_eq (w : World Hash) (row : Session) (wait : ℤ) :
    ∃ sockets operators, pushSessionUpdate w row wait =
      { w with clock := w.clock + wait, sockets := sockets, operators := operators } := by
  simp only [pushSessionUpdate, World.sendToMachine, World.read_agentSocket]
  split <;> exact ⟨_, _, rfl⟩

/-! ## The invariant -/

/-- The machine is managed, its agent's socket is open and carries session states only, and its rows
have been stamped in the past. -/
structure Serves [Argon2 Hash] (k : ℕ) (secret : String) (w : World Hash) : Prop where
  machine : ∃ m, w.machine = some m ∧ m.Admits secret
  opened : (w.sockets k).readyState = .opened
  sent : ∀ f ∈ (w.sockets k).sent, (carried f).isSome = true
  rows : SessionsService.Constrained w.sessions
  stamps : ∀ row ∈ w.sessions, row.updatedAt ≤ w.clock

structure Synced [Argon2 Hash] (a : Held) (k : ℕ) (secret : String)
    (p : Pool (World Hash) (Call Hash)) : Prop where
  world : Serves k secret p.world
  calls : ∀ c ∈ p.calls, c.Proceeds k secret p.world.agentSocket
  readings : ∀ c ∈ p.calls, ∀ t ∈ c.reading, t ≤ p.world.clock
  told : ∀ x ∈ copies a k p, x.stamp ≤ nanos p.world.clock
  current : Current (findActive p.world.sessions) (copies a k p) (∃ c ∈ p.calls, c.briefed = true)

variable [Argon2 Hash]

theorem Serves.wait (h : Serves k secret w) {clock : ℤ} (hle : w.clock ≤ clock) :
    Serves k secret { w with clock := clock } :=
  ⟨h.machine, h.opened, h.sent, h.rows, fun row hrow => (h.stamps row hrow).trans hle⟩

/-- A session state is sent on socket `k`. -/
theorem Serves.push (h : Serves k secret w) (session : Option Session) (serverTime : ℤ) :
    Serves k secret
      (w.onSocket k fun s => s.send (SessionsService.sessionState session serverTime)) where
  machine := h.machine
  opened := by simp [World.onSocket, Socket.send, h.opened]
  sent f hf := by
    simp only [World.onSocket, Function.update_self, Socket.send, if_pos h.opened] at hf
    rcases List.mem_append.1 hf with hf | hf
    · exact h.sent f hf
    · rw [List.mem_singleton.1 hf]
      rfl
  rows := h.rows
  stamps := h.stamps

theorem proceeds_of_registered {agentSocket agentSocket' : Option ℕ}
    (h : c.Proceeds k secret agentSocket)
    (hreg : agentSocket = some k → agentSocket' = some k) : c.Proceeds k secret agentSocket' := by
  cases c with
  | authenticate client pc =>
    refine ⟨h.1, ?_⟩
    replace h := h.2
    cases pc with
    | heartbeat query =>
      cases query with
      | update => exact hreg h
      | updated => exact ⟨hreg h.1, h.2⟩
    | pendingFound => exact ⟨hreg h.1, h.2⟩
    | pending | session | pushed => exact hreg h
    | find | found | verifying | verified | rejected | told | failed => exact h
  | start | edit => trivial
  | _ => exact h

/-- An agent is briefed on the socket that is registered. -/
theorem registered_of_briefed {agentSocket : Option ℕ} (h : c.Proceeds k secret agentSocket)
    (hb : c.briefed = true) : agentSocket = some k := by
  cases c with
  | authenticate client pc =>
    cases pc with
    | session | pushed => exact h.2
    | _ => cases hb
  | _ => cases hb

theorem Synced.moved (hs : Synced a k secret p) (hc : p.calls[j]? = some c) (frames : List Frame)
    (new : List Held) (hworld : Serves k secret w') (hclock : p.world.clock ≤ w'.clock)
    (hreg : p.world.agentSocket = some k → w'.agentSocket = some k)
    (hproceeds : c'.Proceeds k secret w'.agentSocket) (hread : ∀ t ∈ c'.reading, t ≤ w'.clock)
    (hsent : (w'.sockets k).sent = (p.world.sockets k).sent ++ frames)
    (hnew : ∀ x, x ∈ frames.filterMap carried ∨ c'.unsent.map copy = some x →
      x ∈ new ∨ x ∈ pending p.calls)
    (hkeep : p.world.agentSocket = some k → ∀ x, x ∈ new ∨ c.unsent.map copy = some x →
      x ∈ frames.filterMap carried ∨ c'.unsent.map copy = some x)
    (hdated : ∀ x ∈ new, x.stamp ≤ nanos w'.clock)
    (hb : c'.briefed = true → p.world.agentSocket = some k)
    (hcurrent : Current (findActive w'.sessions) (new ++ copies a k p)
      (c'.briefed = true ∨ ∃ c ∈ p.calls, c.briefed = true)) :
    Synced a k secret ⟨w', p.calls.set j c'⟩ := by
  have hbriefed : (∃ d ∈ p.calls.set j c', d.briefed = true) →
      c'.briefed = true ∨ ∃ d ∈ p.calls, d.briefed = true := by
    rintro ⟨d, hd, hbd⟩
    rcases Pool.mem_set_cases hd with rfl | hd
    · exact Or.inl hbd
    · exact Or.inr ⟨d, hd, hbd⟩
  refine ⟨hworld, fun d hd => ?_, fun d hd t ht => ?_, fun x hx => ?_, ?_⟩
  · rcases Pool.mem_set_cases hd with rfl | hd
    · exact hproceeds
    · exact proceeds_of_registered (hs.calls d hd) hreg
  · rcases Pool.mem_set_cases hd with rfl | hd
    · exact hread t ht
    · exact (hs.readings d hd t ht).trans hclock
  · rcases List.mem_append.1 (copies_subset hsent hnew hx) with hx | hx
    · exact hdated x hx
    · exact (hs.told x hx).trans (nanos_le_nanos_iff.2 hclock)
  · refine hcurrent.of_subset (copies_subset hsent hnew) (fun h => ?_) hbriefed
    refine subset_copies hc hsent (hkeep ?_)
    rcases h with h | ⟨d, hd, hbd⟩
    · exact hb h
    · exact registered_of_briefed (hs.calls d hd) hbd

/-! ## The steps -/

/-- A step that neither writes, reads nor pushes a row. -/
theorem Synced.quiet (hs : Synced a k secret p) (hc : p.calls[j]? = some c)
    (hworld : Serves k secret w') (hclock : p.world.clock ≤ w'.clock)
    (hrows : w'.sessions = p.world.sessions)
    (hsent : (w'.sockets k).sent = (p.world.sockets k).sent)
    (hreg : p.world.agentSocket = some k → w'.agentSocket = some k)
    (hproceeds : c'.Proceeds k secret w'.agentSocket) (hread : ∀ t ∈ c'.reading, t ≤ w'.clock)
    (hunsent : c.unsent = none) (hunsent' : c'.unsent = none) (hb : c'.briefed = false) :
    Synced a k secret ⟨w', p.calls.set j c'⟩ := by
  refine hs.moved hc [] [] hworld hclock hreg hproceeds hread (by simpa using hsent)
    (by simp [hunsent']) (by simp [hunsent]) (by simp) (by simp [hb]) ?_
  rw [hrows]
  exact hs.current.of_subset (fun _ => id) (fun _ _ => id) (by simp [hb])

theorem Serves.pushSessionUpdate (h : Serves k secret w) (row : Session) {wait : ℤ} (hwait : 0 < wait) :
    Serves k secret (pushSessionUpdate w row wait) := by
  have hk := sockets_pushSessionUpdate w row wait k
  have hpush := h.push (some row) (w.clock + wait)
  obtain ⟨sockets, operators, he⟩ := pushSessionUpdate_eq w row wait
  rw [he] at hk ⊢
  refine ⟨h.machine, ?_, ?_, h.rows, fun r hr => (h.stamps r hr).trans (by dsimp only; omega)⟩
  · dsimp only at hk ⊢
    rw [hk]
    split_ifs
    · simpa [World.onSocket] using hpush.opened
    · exact h.opened
  · dsimp only at hk ⊢
    rw [hk]
    split_ifs
    · simpa [World.onSocket] using hpush.sent
    · exact h.sent

theorem Synced.moved_session (hs : Synced a k secret p) (hc : p.calls[j]? = some c)
    (hproceeds : ∀ agentSocket, c'.Proceeds k secret agentSocket) (hb : c'.briefed = false)
    (hwait : 0 < input.wait) (horder : InOrder a k p (.call j input))
    (h : Move p.world input c w' c') : Synced a k secret ⟨w', p.calls.set j c'⟩ := by
  have hreading := hs.readings c (List.mem_of_getElem? hc)
  cases h with
  | quiet hle hunsent hunsent' hread =>
    exact hs.quiet hc (hs.world.wait hle) hle rfl rfl id (hproceeds _) hread hunsent hunsent' hb
  | @create startedAt expiresAt updatedAt rows row hcreate hid =>
    obtain ⟨hnone, rfl, hrow, hstatus, rfl⟩ := SessionsService.create_eq_some hcreate
    have hdated : row.updatedAt ≤ p.world.clock := hreading _ rfl
    have hrows := hs.world.rows.append hnone fun r hr => hrow ▸ hid r hr
    have hactive := hrows.findActive_eq (List.mem_append_right _ (List.mem_singleton_self row)) hstatus
    replace horder := (horder _ hc).1 row.updatedAt rfl
    refine hs.moved hc [] [copy row]
      ⟨hs.world.machine, hs.world.opened, hs.world.sent, hrows, fun r hr => ?_⟩ le_rfl id
      (hproceeds _) (by simp [Call.reading]) (by simp) (by simp [Call.unsent]) (by simp [Call.unsent])
      ?_ (by simp [hb]) ?_
    · rcases List.mem_append.1 hr with hr | hr
      · exact hs.world.stamps r hr
      · rw [List.mem_singleton.1 hr]
        exact hdated
    · simpa using nanos_le_nanos_iff.2 hdated
    · rw [hactive]
      exact Current.write_active hstatus (horder hnone)
  | @update sessionId edit updatedAt rows r hupdate =>
    obtain ⟨row, hrow, rfl, -⟩ := SessionsService.update_eq_some hupdate
    have hdated : updatedAt ≤ p.world.clock := hreading _ rfl
    replace horder := (horder _ hc).2.1 (sessionId, updatedAt) rfl row hrow
    refine hs.moved hc [] [copy (edit.apply updatedAt row)]
      ⟨hs.world.machine, hs.world.opened, hs.world.sent, hs.world.rows.update hupdate, fun r hr => ?_⟩
      le_rfl id (hproceeds _) (by simp [Call.reading]) (by simp) (by simp [Call.unsent])
      (by simp [Call.unsent]) ?_ (by simp [hb]) ?_
    · rcases hs.world.rows.mem_update hupdate hrow hr with rfl | ⟨hr, -⟩
      · simpa using hdated
      · exact hs.world.stamps r hr
    · simpa using nanos_le_nanos_iff.2 hdated
    · dsimp only
      split_ifs at horder with hstatus
      · rw [hs.world.rows.findActive_update hupdate hrow hstatus]
        exact Current.write (by simpa [Newest] using horder)
      · rw [hs.world.rows.findActive_update_other hupdate hrow hstatus]
        refine (hs.current.of_subset (fun _ => id) (fun _ _ => id) ?_).write_other
          (fun h => hstatus (SessionsService.Edit.active_of_apply h))
          fun r hr => by simpa using horder r hr
        simp [hb]
  | @push _ row _ hunsent hunsent' hread =>
    obtain ⟨sockets, operators, he⟩ := pushSessionUpdate_eq p.world row input.wait
    have hworld := hs.world.pushSessionUpdate row hwait
    have hk := sockets_pushSessionUpdate p.world row input.wait k
    have hmem : copy row ∈ pending p.calls :=
      mem_pending.2 ⟨c, List.mem_of_getElem? hc, by rw [hunsent]; rfl⟩
    rw [he] at hworld hk ⊢
    refine hs.moved hc (if p.world.agentSocket = some k then
        [.message (SessionsService.sessionState (some row) (p.world.clock + input.wait))] else [])
      [] hworld (by dsimp only; omega) id (hproceeds _) (by simp [hread]) ?_ (fun x hx => Or.inr ?_)
      (fun hreg x hx => Or.inl ?_) (by simp) (by simp [hb]) ?_
    · rw [hk]
      split_ifs
      · simp [Socket.send, hs.world.opened]
      · simp
    · rw [hunsent'] at hx
      replace hx := hx.resolve_right (by simp)
      split_ifs at hx
      · rw [List.filterMap_cons_some (carried_row row _)] at hx
        obtain rfl := List.mem_singleton.1 hx
        exact hmem
      · cases hx
    · rw [hunsent] at hx
      obtain rfl := Option.some.inj (hx.resolve_left (by simp))
      rw [if_pos hreg, List.filterMap_cons_some (carried_row row _)]
      exact List.mem_singleton_self _
    · exact hs.current.of_subset (fun _ => id) (fun _ _ => id) (by simp [hb])

omit [Argon2 Hash] in
theorem accept_eq (w : World Hash) (k : ℕ) (input : Input) :
    ∃ sockets : ℕ → Socket, (Authenticate.accept w k input).1 =
        { w with clock := w.clock + input.wait, agentSocket := some k, sockets := sockets } ∧
      sockets k = { w.sockets k with agent := true, listening := true } := by
  simp only [Authenticate.accept, World.registerAgent, World.onSocket_agentSocket]
  split
  · rename_i k' hk'
    split_ifs with hne
    · refine ⟨_, rfl, ?_⟩
      simp [World.onSocket, Function.update_of_ne (Ne.symm hne)]
    · refine ⟨_, rfl, ?_⟩
      simp [World.onSocket]
  · refine ⟨_, rfl, ?_⟩
    simp [World.onSocket]

/-- A query of `getActiveSession` for a connection. -/
theorem Synced.moved_query {query query' : GetActiveSession} (hs : Synced a k secret p)
    (hc : p.calls[j]? = some (.authenticate k (.session query))) (hwait : 0 < input.wait)
    (htime : InTime p.world) (hp : p.world.agentSocket = some k)
    (hq : query.step p.world input = some (w', query')) :
    Synced a k secret ⟨w', p.calls.set j (.authenticate k (.session query'))⟩ := by
  have hreading := hs.readings _ (List.mem_of_getElem? hc)
  have hle : p.world.clock ≤ p.world.clock + input.wait := by omega
  cases query with
  | expire now =>
    obtain ⟨rfl, rfl⟩ := Prod.mk.inj (Option.some.inj hq)
    have hnow : now ≤ p.world.clock := hreading now rfl
    have hrows : SessionsService.expireStale now (p.world.clock + input.wait) p.world.sessions =
        p.world.sessions :=
      SessionsService.expireStale_eq fun r hr hstatus => hnow.trans (htime r hr hstatus)
    simp only [World.read, hrows]
    exact hs.quiet hc (hs.world.wait hle) hle rfl rfl id ⟨rfl, hp⟩ (by simp [Call.reading]) rfl rfl rfl
  | expired =>
    obtain ⟨rfl, rfl⟩ := Prod.mk.inj (Option.some.inj hq)
    exact hs.quiet hc hs.world le_rfl rfl rfl id ⟨rfl, hp⟩ (by simp [Call.reading]) rfl rfl rfl
  | find =>
    obtain ⟨rfl, rfl⟩ := Prod.mk.inj (Option.some.inj hq)
    cases hactive : findActive p.world.sessions with
    | none =>
      exact hs.quiet hc hs.world le_rfl rfl rfl id ⟨rfl, hp⟩ (by simp [Call.reading]) rfl rfl rfl
    | some row =>
      obtain ⟨hmem, hstatus⟩ := SessionsService.findActive_some hactive
      refine hs.moved hc [] [copy row] hs.world le_rfl id ⟨rfl, hp⟩
        (by simp [Call.reading]) (by simp) (by simp [Call.unsent]) (by simp [Call.unsent]) ?_
        (fun _ => hp) ?_
      · simpa using nanos_le_nanos_iff.2 (hs.world.stamps row hmem)
      · have hcurrent := hs.current
        rw [hactive] at hcurrent ⊢
        exact hcurrent.read hstatus
  | found => cases hq

/-- The session state is handed to a connection. -/
theorem Synced.moved_push {active : Option Session} (hs : Synced a k secret p)
    (hc : p.calls[j]? = some (.authenticate k (.session (.found active)))) (hwait : 0 < input.wait)
    (hp : p.world.agentSocket = some k) (horder : InOrder a k p (.call j input)) :
    Synced a k secret
      ⟨(p.world.read input.wait).onSocket k fun s =>
          s.send (SessionsService.sessionState active (p.world.clock + input.wait)),
        p.calls.set j (.authenticate k .pushed)⟩ := by
  have hle : p.world.clock ≤ p.world.clock + input.wait := by omega
  have hworld := (hs.world.wait hle).push active (p.world.clock + input.wait)
  have hsent : (((p.world.read input.wait).onSocket k fun s =>
      s.send (SessionsService.sessionState active (p.world.clock + input.wait))).sockets k).sent =
        (p.world.sockets k).sent ++
          [.message (SessionsService.sessionState active (p.world.clock + input.wait))] := by
    simp [World.onSocket, World.read, Socket.send, hs.world.opened]
  cases active with
  | some row =>
    have hmem : copy row ∈ pending p.calls :=
      mem_pending.2 ⟨_, List.mem_of_getElem? hc, rfl⟩
    refine hs.moved hc _ [] hworld hle id ⟨rfl, hp⟩ (by simp [Call.reading]) hsent ?_ ?_
      (by simp) (fun _ => hp) ?_
    · simpa [carried_row, Call.unsent] using hmem
    · simp [carried_row, Call.unsent]
    · exact hs.current.of_subset (fun _ => id) (fun _ _ => id)
        fun _ => ⟨_, List.mem_of_getElem? hc, rfl⟩
  | none =>
    replace horder := (horder _ hc).2.2 rfl
    refine hs.moved hc _ [⟨none, nanos (p.world.clock + input.wait)⟩] hworld hle id ⟨rfl, hp⟩
      (by simp [Call.reading]) hsent ?_ ?_ ?_ (fun _ => hp) ?_
    · simp [carried_null, Call.unsent]
    · simp [carried_null, Call.unsent]
    · simp [World.onSocket, World.read]
    · simp only [World.onSocket, World.read, horder]
      refine Current.absent rfl fun x hx => (hs.told x hx).trans_lt ?_
      exact nanos_lt_nanos_iff.2 (by omega)

theorem Synced.moved_authenticate {pc pc' : Authenticate Hash} (hs : Synced a k secret p)
    (hc : p.calls[j]? = some (.authenticate k pc)) (hwait : 0 < input.wait) (htime : InTime p.world)
    (horder : InOrder a k p (.call j input)) (h : Authenticate.Step p.world k input pc w' pc') :
    Synced a k secret ⟨w', p.calls.set j (.authenticate k pc')⟩ := by
  have hp : pc.Proceeds k secret p.world.agentSocket := (hs.calls _ (List.mem_of_getElem? hc)).2
  have hle : p.world.clock ≤ p.world.clock + input.wait := by omega
  obtain ⟨m, hm, hadmits⟩ := hs.world.machine
  cases h with
  | find =>
    exact hs.quiet hc hs.world le_rfl rfl rfl id ⟨rfl, hp, hs.world.machine⟩ (by simp [Call.reading])
      rfl rfl rfl
  | unknown =>
    obtain ⟨-, m, hm, -⟩ := hp
    cases hm
  | revoked hrevoked =>
    obtain ⟨-, m, hm, hadmits⟩ := hp
    obtain rfl := Option.some.inj hm
    simp [hadmits.1] at hrevoked
  | found =>
    obtain ⟨rfl, m, hm, hadmits⟩ := hp
    obtain rfl := Option.some.inj hm
    exact hs.quiet hc hs.world le_rfl rfl rfl id ⟨rfl, hadmits.2.1⟩ (by simp [Call.reading]) rfl rfl rfl
  | verifying =>
    exact hs.quiet hc hs.world le_rfl rfl rfl id ⟨rfl, hp⟩ (by simp [Call.reading]) rfl rfl rfl
  | reject => cases hp
  | accept =>
    obtain ⟨sockets, he, hk⟩ := accept_eq p.world k input
    rw [he]
    refine hs.quiet hc
      ⟨hs.world.machine, ?_, ?_, hs.world.rows, fun r hr => (hs.world.stamps r hr).trans hle⟩ hle rfl ?_
      (fun _ => rfl) ⟨rfl, rfl⟩ (by simp [Authenticate.accept, Call.reading]) rfl rfl rfl
    · simp [hk, hs.world.opened]
    · simpa [hk] using hs.world.sent
    · simp [hk]
  | @heartbeat now agentVersion =>
    refine hs.quiet hc ⟨⟨m.heartbeat now agentVersion, ?_, hadmits⟩, hs.world.opened, hs.world.sent,
      hs.world.rows, hs.world.stamps⟩ le_rfl rfl rfl id ⟨rfl, hp, ?_⟩ (by simp [Call.reading]) rfl rfl rfl
    · simp [World.updateMachine, hm]
    · simp [hm]
  | failed => exact absurd hp.2 (by simp)
  | beaten =>
    exact hs.quiet hc ⟨⟨m, hm, hadmits⟩, hs.world.opened, hs.world.sent, hs.world.rows, hs.world.stamps⟩
      le_rfl rfl rfl id ⟨rfl, hp.1⟩ (by simp [Call.reading]) rfl rfl rfl
  | pending =>
    exact hs.quiet hc hs.world le_rfl rfl rfl id ⟨rfl, hp, by simp [hm, hadmits.2.2]⟩
      (by simp [Call.reading]) rfl rfl rfl
  | tell htell => exact absurd htell (by simp [hp.2])
  | managed =>
    exact hs.quiet hc (hs.world.wait hle) hle rfl rfl id ⟨rfl, hp.1⟩
      (by simp [Call.reading, World.read]) rfl rfl rfl
  | query hq => exact hs.moved_query hc hwait htime hp hq
  | push => exact hs.moved_push hc hwait hp horder

/-- A call is made. -/
theorem Synced.requested (hs : Synced a k secret p)
    (hproceeds : ∀ agentSocket, c.Proceeds k secret agentSocket) (hread : c.reading = none)
    (hunsent : c.unsent = none) (hb : c.briefed = false) :
    Synced a k secret ⟨p.world, p.calls ++ [c]⟩ := by
  have hcopies : copies a k ⟨p.world, p.calls ++ [c]⟩ = copies a k p := by
    simp [copies, pending, hunsent]
  refine ⟨hs.world, fun d hd => ?_, fun d hd t ht => ?_, hcopies ▸ hs.told, ?_⟩
  · rcases List.mem_append.1 hd with hd | hd
    · exact hs.calls d hd
    · rw [List.mem_singleton.1 hd]
      exact hproceeds _
  · rcases List.mem_append.1 hd with hd | hd
    · exact hs.readings d hd t ht
    · rw [List.mem_singleton.1 hd, hread] at ht
      cases ht
  · rw [hcopies]
    refine hs.current.of_subset (fun _ => id) (fun _ _ => id) ?_
    rintro ⟨d, hd, hbd⟩
    rcases List.mem_append.1 hd with hd | hd
    · exact ⟨d, hd, hbd⟩
    · rw [List.mem_singleton.1 hd, hb] at hbd
      cases hbd

theorem Synced.step {p' : Pool (World Hash) (Call Hash)} {label : Pool.Label Event Input}
    (hs : Synced a k secret p) (htraffic : Traffic label) (htime : InTime p.world)
    (horder : InOrder a k p label) (h : Server.next p label = some p') : Synced a k secret p' := by
  cases Pool.next_iff.1 h with
  | @env event world started he =>
    cases event with
    | request request wait =>
      obtain ⟨rfl, rfl⟩ := Prod.mk.inj (Option.some.inj he)
      cases request with
      | start | edit => exact hs.requested (fun _ => trivial) rfl rfl rfl
      | _ => exact htraffic.elim
    | _ => exact htraffic.elim
  | @call j input c w' c' hc hstep =>
    obtain ⟨hwait, hagain⟩ := htraffic
    have hproceeds := hs.calls c (List.mem_of_getElem? hc)
    cases c with
    | authenticate client pc =>
      obtain ⟨rfl, -⟩ := hproceeds
      cases Server.step_cases hstep with
      | authenticate hauth => exact hs.moved_authenticate hc hwait htime horder hauth
    | start pc =>
      cases Server.step_cases hstep with
      | start hstart =>
        exact hs.moved_session hc (fun _ => trivial) rfl hwait horder
          (move_of_start hwait htime (hs.readings _ (List.mem_of_getElem? hc)) hstart)
    | edit pc =>
      cases Server.step_cases hstep with
      | edit hedit =>
        exact hs.moved_session hc (fun _ => trivial) rfl hwait horder (move_of_edit hwait hagain hedit)
    | _ => exact hproceeds.elim

/-! ## The agreement -/

/-- The agent that holds `a` has just connected, with its secret, on socket `k`; calls about the
machine's sessions may be under way. -/
structure Connecting (a : Held) (k : ℕ) (secret : String) (p : Pool (World Hash) (Call Hash)) : Prop where
  authenticate : .authenticate k (.find secret) ∈ p.calls
  calls : ∀ c ∈ p.calls, c = .authenticate k (.find secret) ∨ (∃ pc, c = .start pc) ∨ ∃ pc, c = .edit pc
  machine : ∃ m, p.world.machine = some m ∧ m.Admits secret
  opened : (p.world.sockets k).readyState = .opened
  sent : (p.world.sockets k).sent = []
  rows : SessionsService.Constrained p.world.sessions
  stamps : ∀ row ∈ p.world.sessions, row.updatedAt ≤ p.world.clock
  readings : ∀ c ∈ p.calls, ∀ t ∈ c.reading, t ≤ p.world.clock
  told : ∀ x ∈ copies a k p, x.stamp ≤ nanos p.world.clock

/-- What the agent holds, and what is about to be pushed, is older than the `ACTIVE` row, if it
disagrees with it. -/
def Fresh (a : Held) (k : ℕ) (p : Pool (World Hash) (Call Hash)) : Prop :=
  ∀ row ∈ findActive p.world.sessions,
    Copy.Below (Agree (some row)) (nanos row.updatedAt) (copies a k p)

theorem Connecting.synced (h : Connecting a k secret p) (hfresh : Fresh a k p) :
    Synced a k secret p := by
  have hbriefed : ∀ c ∈ p.calls, c.briefed = false := by
    intro c hc
    rcases h.calls c hc with rfl | ⟨pc, rfl⟩ | ⟨pc, rfl⟩ <;> rfl
  refine ⟨⟨h.machine, h.opened, by simp [h.sent], h.rows, h.stamps⟩, fun c hc => ?_, h.readings, h.told,
    fun row hrow => hrow ▸ hfresh row hrow, ?_⟩
  · rcases h.calls c hc with rfl | ⟨pc, rfl⟩ | ⟨pc, rfl⟩
    · exact ⟨rfl, rfl⟩
    · trivial
    · trivial
  · rintro ⟨c, hc, hb⟩
    simp [hbriefed c hc] at hb

/-- An authentication of socket `k` is under way, or has come to its end. -/
theorem authenticate_mem_of_step {p' : Pool (World Hash) (Call Hash)} {label : Pool.Label Event Input}
    (h : Server.next p label = some p') (hp : ∃ pc, .authenticate k pc ∈ p.calls) :
    ∃ pc, .authenticate k pc ∈ p'.calls := by
  cases Pool.next_iff.1 h with
  | env => exact hp.imp fun pc hpc => List.mem_append_left _ hpc
  | @call j input c w' c' hc hstep =>
    obtain ⟨pc, hpc⟩ := hp
    have hset : ∃ d ∈ p.calls.set j c', ∃ pc, d = .authenticate k pc := by
      refine Pool.exists_mem_set hc ?_ ⟨_, hpc, pc, rfl⟩
      rintro ⟨pc, rfl⟩
      cases Server.step_cases hstep
      exact ⟨_, rfl⟩
    obtain ⟨d, hd, pc', rfl⟩ := hset
    exact ⟨pc', hd⟩

omit [Argon2 Hash] in
/-- A call that has returned has pushed what it had to push. -/
theorem unsent_of_returned (h : c.returned = true) : c.unsent = none := by
  cases c with
  | authenticate client pc =>
    cases pc with
    | session => cases h
    | _ => rfl
  | start pc =>
    cases pc with
    | created => cases h
    | _ => rfl
  | edit pc =>
    cases pc with
    | updated => cases h
    | _ => rfl
  | _ => rfl

/-- However the connect push and any number of starts, extensions and ends interleave: once all
calls have returned, an agent that has handled all that was sent to it, in that order, agrees with
the server. -/
theorem agreed_at_quiescence {es : List (Pool.Label Event Input)} {p' : Pool (World Hash) (Call Hash)}
    (hp : Connecting a k secret p) (hfresh : Fresh a k p) (h : run Server.next p es = some p')
    (htraffic : Along Server.next (fun p label => Traffic label ∧ InTime p.world) p es)
    (horder : Along Server.next (InOrder a k) p es) (hq : ∀ c ∈ p'.calls, c.returned = true) :
    Agree (findActive p'.world.sessions) ((p'.world.sockets k).sent.foldl handle a).view := by
  obtain ⟨hs, pc, hpc⟩ : Synced a k secret p' ∧ ∃ pc, .authenticate k pc ∈ p'.calls := by
    refine run_invariant_along (I := fun p => Synced a k secret p ∧ ∃ pc, .authenticate k pc ∈ p.calls)
      (fun p label p' hs hP ht => ⟨hs.1.step hP.1.1 hP.1.2 hP.2 ht, authenticate_mem_of_step ht hs.2⟩)
      ⟨hp.synced hfresh, _, hp.authenticate⟩ (htraffic.and horder) h
  have hpushed : pc = .pushed := by
    have hproceeds := (hs.calls _ hpc).2
    have hreturned := hq _ hpc
    cases pc with
    | pushed => rfl
    | rejected | told | failed => exact hproceeds.elim
    | _ => cases hreturned
  subst hpushed
  have hnone : pending p'.calls = [] := by
    refine List.filterMap_eq_nil_iff.2 fun c hc => ?_
    rw [unsent_of_returned (hq c hc)]
    rfl
  have hcurrent := hs.current
  rw [copies, hnone, List.append_nil] at hcurrent
  rw [foldl_handle hs.world.sent]
  exact hcurrent.agree ⟨_, hpc, rfl⟩

/-! ## Two connects -/

section

/-- An agent without a session has just connected on socket `0`. -/
def connecting : Pool (World PlainHash) (Call PlainHash) :=
  let machine : Machine PlainHash := Machine.created.enrolled ⟨"secret"⟩
  let (world, calls) :=
    Server.connect { World.created 0 with machine := some machine } 0 (some "secret")
  ⟨world, calls⟩

/-- What it holds. -/
def empty : Held := ⟨none, 0⟩

/-- The next `n` steps of call `j`, each a millisecond after the last reading of the clock. -/
def steps (j n : ℕ) : List (Pool.Label Event Input) :=
  List.replicate n (.call j ⟨1, 1, "", "session", 0⟩)

/-- A start of a session of one hour. -/
def started : List (Pool.Label Event Input) := .env (.request (.start 60) 0) :: steps 1 7

theorem connecting_connecting : Connecting empty 0 "secret" connecting where
  authenticate := List.mem_singleton_self _
  calls c hc := Or.inl (List.mem_singleton.1 hc)
  machine := ⟨_, rfl, rfl, rfl, rfl⟩
  opened := rfl
  sent := rfl
  rows := ⟨List.nodup_nil, fun r hr => by cases hr⟩
  stamps r hr := by cases hr
  readings c hc t ht := by
    obtain rfl := List.mem_singleton.1 hc
    cases ht
  told x hx := by
    obtain rfl := List.mem_singleton.1 hx
    exact le_rfl

/-- The session is started once the agent has been told that there is none. -/
def told : Pool (World PlainHash) (Call PlainHash) :=
  (run Server.next connecting (steps 0 12 ++ started)).getD connecting

theorem agreed_at_quiescence_started :
    Agree (findActive told.world.sessions) ((told.world.sockets 0).sent.foldl handle empty).view := by
  have hrun : run Server.next connecting (steps 0 12 ++ started) = some told := rfl
  exact agreed_at_quiescence connecting_connecting (fun _ hrow => by cases hrow) hrun (by decide)
    (by decide) (by decide)

/-- The session is started after the connect has looked for one, and before it tells the agent that
there is none. -/
def overtaken : Pool (World PlainHash) (Call PlainHash) :=
  (run Server.next connecting (steps 0 11 ++ started ++ steps 0 1)).getD connecting

/-- The agent blocks a machine whose session is running. -/
theorem start_overwritten :
    Connecting empty 0 "secret" connecting ∧ Fresh empty 0 connecting ∧
      run Server.next connecting (steps 0 11 ++ started ++ steps 0 1) = some overtaken ∧
      Along Server.next (fun p label => Traffic label ∧ InTime p.world) connecting
        (steps 0 11 ++ started ++ steps 0 1) ∧
      (∀ c ∈ overtaken.calls, c.returned = true) ∧
      ¬ Agree (findActive overtaken.world.sessions)
        ((overtaken.world.sockets 0).sent.foldl handle empty).view := by
  refine ⟨connecting_connecting, fun _ hrow => (by cases hrow), rfl, by decide, by decide, ?_⟩
  rintro ⟨s, hs, -⟩
  cases hs

end

end SessionSync

end Taymna
