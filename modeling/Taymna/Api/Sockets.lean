import Taymna.Api.MachineRow

/-!
# What happens to the agents' sockets

A socket keeps the secret it presented, never comes back once it is gone, and never loses its
listener. A `decommission` is put on one only by a call that has seen the removal requested.
-/

namespace Taymna.Api

variable {Hash : Type*}

/-- What a socket may become, when only messages that satisfy `P` are put on it. -/
structure Socket.Evolves (P : ServerToAgentMessage → Prop) (s s' : Socket) : Prop where
  known : s.readyState ≠ .connecting → s'.readyState ≠ .connecting
  secret : s.readyState ≠ .connecting → s'.secret = s.secret
  closed : s.readyState = .closed → s'.readyState = .closed
  listening : s.listening = true → s'.listening = true
  sent : ∀ m, .message m ∈ s'.sent → .message m ∈ s.sent ∨ P m

namespace Socket

variable {P : ServerToAgentMessage → Prop}

theorem Evolves.refl (s : Socket) : s.Evolves P s := ⟨id, fun _ => rfl, id, id, fun _ => Or.inl⟩

theorem Evolves.trans {s s' s'' : Socket} (h : s.Evolves P s') (h' : s'.Evolves P s'') :
    s.Evolves P s'' where
  known hs := h'.known (h.known hs)
  secret hs := (h'.secret (h.known hs)).trans (h.secret hs)
  closed hs := h'.closed (h.closed hs)
  listening hs := h'.listening (h.listening hs)
  sent m hm := (h'.sent m hm).elim (h.sent m) Or.inr

theorem Evolves.mono {Q : ServerToAgentMessage → Prop} (hPQ : ∀ m, P m → Q m) {s s' : Socket}
    (h : s.Evolves P s') : s.Evolves Q s' :=
  ⟨h.known, h.secret, h.closed, h.listening, fun m hm => (h.sent m hm).imp_right (hPQ m)⟩

theorem evolves_send (s : Socket) {m : ServerToAgentMessage} (hm : P m) : s.Evolves P (s.send m) := by
  unfold send
  split_ifs
  · refine ⟨id, fun _ => rfl, id, id, fun m' hm' => ?_⟩
    rcases List.mem_append.1 hm' with hm' | hm'
    · exact Or.inl hm'
    · obtain rfl := Frame.message.inj (List.mem_singleton.1 hm')
      exact Or.inr hm
  · exact .refl s

theorem evolves_close (s : Socket) (code : ℕ) (reason : String) : s.Evolves P (s.close code reason) := by
  unfold close
  split_ifs with hs
  · refine ⟨by simp, fun _ => rfl, by simp [hs], id, fun m hm => ?_⟩
    exact Or.inl (by simpa using hm)
  · exact .refl s

end Socket

/-- A socket that was not there yet may become anything that nothing has been said on. -/
theorem Socket.Evolves.of_connecting {P : ServerToAgentMessage → Prop} {s s' : Socket}
    (hs : s.readyState = .connecting) (hl : s'.listening = s.listening)
    (hsent : ∀ m, .message m ∈ s'.sent → .message m ∈ s.sent) : s.Evolves P s' :=
  ⟨fun h => absurd hs h, fun h => absurd hs h, by simp [hs], hl ▸ id, fun m hm => Or.inl (hsent m hm)⟩

/-- Every socket may become what it is in `w'`. -/
def World.Evolves (P : ServerToAgentMessage → Prop) (w w' : World Hash) : Prop :=
  ∀ k, (w.sockets k).Evolves P (w'.sockets k)

namespace World

variable {P : ServerToAgentMessage → Prop}

theorem Evolves.refl (w : World Hash) : w.Evolves P w := fun _ => .refl _

theorem Evolves.of_sockets_eq {w w' : World Hash} (h : w'.sockets = w.sockets) : w.Evolves P w' := by
  intro k
  rw [h]
  exact .refl _

theorem Evolves.trans {w w' w'' : World Hash} (h : w.Evolves P w') (h' : w'.Evolves P w'') :
    w.Evolves P w'' := fun k => (h k).trans (h' k)

theorem evolves_onSocket (w : World Hash) {k : ℕ} {f : Socket → Socket}
    (hf : (w.sockets k).Evolves P (f (w.sockets k))) : w.Evolves P (w.onSocket k f) := by
  intro k'
  rcases eq_or_ne k' k with rfl | hne
  · simpa [onSocket] using hf
  · simpa [onSocket, Function.update_of_ne hne] using Socket.Evolves.refl (P := P) (w.sockets k')

theorem evolves_registerAgent (w : World Hash) (k : ℕ) : w.Evolves P (w.registerAgent k) := by
  unfold registerAgent
  split
  · split_ifs
    · exact w.evolves_onSocket (Socket.evolves_close _ _ _)
    · exact .refl w
  · exact .refl w

theorem evolves_sendToMachine (w : World Hash) {m : ServerToAgentMessage} (hm : P m) :
    w.Evolves P (w.sendToMachine m) := by
  unfold sendToMachine
  split
  · exact w.evolves_onSocket (Socket.evolves_send _ hm)
  · exact .refl w

theorem evolves_disconnectMachine (w : World Hash) (code : ℕ) (reason : String) :
    w.Evolves P (w.disconnectMachine code reason) := by
  unfold disconnectMachine
  split
  · exact w.evolves_onSocket (Socket.evolves_close _ _ _)
  · exact .refl w

end World

/-- The call has seen that the removal is requested, and may go on to tell the agent. -/
def Call.sawPending : Call Hash → Bool
  | .authenticate _ (.pendingFound machine) => machine.any Machine.isPending
  | .requestDecommission (.found (some m)) => m.isPending
  | .requestDecommission (.marked (some _)) => true
  | _ => false

/-- The call may put this message on a socket. -/
def Call.MaySend (c : Call Hash) (m : ServerToAgentMessage) : Prop :=
  ∀ serverTime, m = .decommission serverTime → c.sawPending = true

theorem SessionStep.evolves {P : ServerToAgentMessage → Prop} {w w' : World Hash} (h : SessionStep w w')
    (hP : ∀ session serverTime, P (.sessionState session serverTime)) : w.Evolves P w' := by
  cases h with
  | rows => exact .of_sockets_eq rfl
  | push session wait => exact World.evolves_sendToMachine (w.read wait) (hP _ _)

theorem GetActiveSession.step_sockets {w w' : World Hash} {input : Input} {pc pc' : GetActiveSession}
    (h : pc.step w input = some (w', pc')) : w'.sockets = w.sockets := by
  obtain ⟨clock, sessions, rfl⟩ := step_world h
  rfl

namespace RequestDecommission

theorem evolves_deliver {P : ServerToAgentMessage → Prop} (w : World Hash) (m : Machine Hash)
    (input : Input) (hP : ∀ serverTime, P (.decommission serverTime)) :
    w.Evolves P (deliver w m input).1 :=
  (w.read input.wait).evolves_sendToMachine (hP _)

end RequestDecommission

theorem Authenticate.evolves_accept {P : ServerToAgentMessage → Prop} (w : World Hash) (k : ℕ)
    (input : Input) : w.Evolves P (accept w k input).1 := by
  have hagent : w.Evolves P (w.onSocket k fun s => { s with agent := true }) :=
    w.evolves_onSocket ⟨id, fun _ => rfl, id, id, fun _ => Or.inl⟩
  have hlisten : ∀ v : World Hash, v.Evolves P (v.onSocket k fun s => { s with listening := true }) :=
    fun v => v.evolves_onSocket ⟨id, fun _ => rfl, id, fun _ => rfl, fun _ => Or.inl⟩
  have hregister := (hagent.trans (World.evolves_registerAgent _ k)).trans (hlisten _)
  exact hregister.trans (.of_sockets_eq rfl)

/-- The sockets after a step of a call. -/
theorem evolves_of_step [Argon2 Hash] {w w' : World Hash} {c c' : Call Hash} {input : Input}
    (h : Server.Step w input c w' c') : w.Evolves c.MaySend w' := by
  have hsession : ∀ session serverTime, c.MaySend (.sessionState session serverTime) := by
    intro session serverTime time ht
    cases ht
  cases h with
  | authenticate h =>
    cases h with
    | reject => exact w.evolves_onSocket (Socket.evolves_close _ _ _)
    | accept => exact Authenticate.evolves_accept _ _ _
    | tell hp => exact World.evolves_onSocket _ (Socket.evolves_send _ fun _ _ => hp)
    | push => exact World.evolves_onSocket _ (Socket.evolves_send _ (hsession _ _))
    | query hq => exact .of_sockets_eq (GetActiveSession.step_sockets hq)
    | find | unknown | revoked | found | verifying | heartbeat | failed | beaten | pending | managed =>
      exact .of_sockets_eq rfl
  | message h =>
    cases h with
    | beaten => exact World.evolves_onSocket _ (Socket.evolves_send _ fun time ht => by cases ht)
    | deleted =>
      unfold World.finalized
      split_ifs
      · exact .refl w
      · exact w.evolves_disconnectMachine _ _
    | heartbeat | failed | delete | deleteNone => exact .of_sockets_eq rfl
  | requestDecommission h =>
    cases h with
    | remove => exact w.evolves_disconnectMachine _ _
    | redeliver hu hp => exact RequestDecommission.evolves_deliver _ _ _ fun _ _ _ => hp
    | @marked m =>
      have hmarked : ∀ {message}, Call.MaySend (.requestDecommission (.marked (some m))) message :=
        fun _ _ => rfl
      have hdeliver := RequestDecommission.evolves_deliver
        (w.broadcastToOperators .machineDecommissioning) m input fun _ => hmarked
      exact (World.Evolves.of_sockets_eq rfl).trans hdeliver
    | query hq => exact .of_sockets_eq (GetActiveSession.step_sockets hq)
    | find | notFound | request | delete | deleteFailed | removed | deleteRejected | mark
    | markRejected | done => exact .of_sockets_eq rfl
  | issueEnrollmentToken h =>
    obtain ⟨clock, tokens, rfl | ⟨-, rfl⟩⟩ := IssueEnrollmentToken.step_world h <;>
      exact .of_sockets_eq rfl
  | enroll h => cases h <;> exact .of_sockets_eq rfl
  | revokeCredential h =>
    cases h with
    | updated => exact w.evolves_disconnectMachine _ _
    | query hq => exact .of_sockets_eq (GetActiveSession.step_sockets hq)
    | update | rejected | done => exact .of_sockets_eq rfl
  | start h => exact (StartSession.sessionStep h).evolves hsession
  | edit h => exact (EditSession.sessionStep h).evolves hsession

/-- What an event does to a socket. -/
inductive SocketEvent (s : Socket) : Socket → Prop
  | same : SocketEvent s s
  | connect {s' : Socket} (hs : s.readyState = .connecting) (hl : s'.listening = s.listening)
      (hsent : ∀ m, .message m ∈ s'.sent → .message m ∈ s.sent) : SocketEvent s s'
  | hangUp (hs : s.readyState = .opened) : SocketEvent s { s with readyState := .closing }
  | disconnect {agent : Bool} : SocketEvent s { s with readyState := .closed, agent := agent }

theorem SocketEvent.onSocket {w : World Hash} {k : ℕ} {f : Socket → Socket}
    (hf : SocketEvent (w.sockets k) (f (w.sockets k))) (k' : ℕ) :
    SocketEvent (w.sockets k') ((w.onSocket k f).sockets k') := by
  rcases eq_or_ne k' k with rfl | hne
  · simpa [World.onSocket] using hf
  · simpa [World.onSocket, Function.update_of_ne hne] using SocketEvent.same

theorem socket_of_event {w w' : World Hash} {e : Event} {cs : List (Call Hash)}
    (h : Server.EventStep w e w' cs) (k : ℕ) : SocketEvent (w.sockets k) (w'.sockets k) := by
  cases h with
  | @connect k' secret hs =>
    cases secret with
    | some secret =>
      simp only [Server.connect]
      refine SocketEvent.onSocket ?_ k
      exact .connect hs rfl fun _ => id
    | none =>
      simp only [Server.connect]
      refine SocketEvent.onSocket ?_ k
      exact .connect hs rfl fun m hm => by simpa [Socket.close] using hm
  | @receive k' frame wait => cases frame <;> exact .same
  | drop => exact .same
  | hangUp hs => exact SocketEvent.onSocket (.hangUp hs) k
  | @disconnect k' =>
    unfold Server.disconnect World.unregisterAgent
    split_ifs
    · exact SocketEvent.onSocket (w := { w with agentSocket := none }) .disconnect k
    · exact SocketEvent.onSocket .disconnect k
    · exact SocketEvent.onSocket .disconnect k
  | @request r wait => cases r <;> exact .same

/-- The registry after an event: only the end of the registered socket changes it. -/
theorem agentSocket_cases_of_event {w w' : World Hash} {e : Event} {cs : List (Call Hash)}
    (h : Server.EventStep w e w' cs) : w'.agentSocket = w.agentSocket ∨
      ∃ k, w.agentSocket = some k ∧ w'.agentSocket = none ∧ (w'.sockets k).readyState = .closed := by
  cases h with
  | @connect k secret => cases secret <;> exact Or.inl rfl
  | @receive k frame wait => cases frame <;> exact Or.inl rfl
  | drop | hangUp => exact Or.inl rfl
  | @disconnect k =>
    have hclosed := Server.disconnect_readyState w k
    unfold Server.disconnect World.unregisterAgent at hclosed ⊢
    split_ifs at hclosed ⊢ with hagent hk
    · exact Or.inr ⟨k, hk, rfl, hclosed⟩
    · exact Or.inl rfl
    · exact Or.inl rfl
  | @request r wait => cases r <;> exact Or.inl rfl

/-- The sockets after an event. -/
theorem evolves_of_event {P : ServerToAgentMessage → Prop} {w w' : World Hash} {e : Event}
    {cs : List (Call Hash)} (h : Server.EventStep w e w' cs) : w.Evolves P w' := by
  intro k
  have hs := socket_of_event h k
  generalize w'.sockets k = s at hs
  cases hs with
  | same => exact .refl _
  | connect hs hl hsent => exact .of_connecting hs hl hsent
  | hangUp hs => exact ⟨by simp, fun _ => rfl, by simp [hs], id, fun _ => Or.inl⟩
  | disconnect => exact ⟨by simp, fun _ => rfl, fun _ => rfl, id, fun _ => Or.inl⟩

end Taymna.Api
