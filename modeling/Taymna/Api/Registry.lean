import Taymna.Api.Sockets

/-!
# What happens to the registry

Which socket is the machine's entry in `agentSockets`, and which sockets are open, changes only
where the code registers a socket, closes one or drops the entry. Every invariant about the entry is
proved from this list. -/

namespace Taymna.Api

open Automata

variable {Hash : Type*}

/-! ## One socket at a time -/

namespace Socket

variable (s : Socket) (m : ServerToAgentMessage) (code : ℕ) (reason : String)

@[simp] theorem send_readyState : (s.send m).readyState = s.readyState := by
  unfold send
  split_ifs <;> rfl

@[simp] theorem send_agent : (s.send m).agent = s.agent := by
  unfold send
  split_ifs <;> rfl

@[simp] theorem send_listening : (s.send m).listening = s.listening := by
  unfold send
  split_ifs <;> rfl

@[simp] theorem close_agent : (s.close code reason).agent = s.agent := by
  unfold close
  split_ifs <;> rfl

@[simp] theorem close_listening : (s.close code reason).listening = s.listening := by
  unfold close
  split_ifs <;> rfl

theorem close_readyState_ne : (s.close code reason).readyState ≠ .opened := by
  unfold close
  split_ifs with h
  · simp
  · exact h

theorem sent_prefix_send : s.sent <+: (s.send m).sent := by
  unfold send
  split_ifs
  · exact List.prefix_append _ _
  · exact List.prefix_refl _

theorem sent_prefix_close : s.sent <+: (s.close code reason).sent := by
  unfold close
  split_ifs
  · exact List.prefix_append _ _
  · exact List.prefix_refl _

end Socket

namespace World

variable (w : World Hash)

theorem onSocket_sockets (k : ℕ) (f : Socket → Socket) (k' : ℕ) :
    (w.onSocket k f).sockets k' = if k' = k then f (w.sockets k) else w.sockets k' := by
  unfold onSocket
  simp only [Function.update_apply]

@[simp] theorem registerAgent_agentSocket (k : ℕ) : (w.registerAgent k).agentSocket = some k := rfl

/-- Registering a socket closes the one that was registered. -/
theorem registerAgent_sockets (k k' : ℕ) :
    (w.registerAgent k).sockets k' = if w.agentSocket = some k' ∧ k' ≠ k then
      (w.sockets k').close 4000 "Replaced by newer connection" else w.sockets k' := by
  unfold registerAgent
  cases h : w.agentSocket with
  | none => simp
  | some existing =>
    by_cases hne : existing = k
    · subst hne
      simp only [ne_eq, not_true_eq_false, if_false, Option.some.injEq]
      rw [if_neg fun h => h.2 h.1.symm]
    · simp only [ne_eq, hne, not_false_eq_true, if_true, Option.some.injEq]
      rw [onSocket_sockets]
      by_cases hk : k' = existing
      · subst hk
        simp [hne]
      · simp [hk, Ne.symm hk]

@[simp] theorem disconnectMachine_agentSocket (code : ℕ) (reason : String) :
    (w.disconnectMachine code reason).agentSocket = none := by
  unfold disconnectMachine
  cases h : w.agentSocket with
  | none => exact h
  | some k => rfl

theorem disconnectMachine_sockets (code : ℕ) (reason : String) (k' : ℕ) :
    (w.disconnectMachine code reason).sockets k' = if w.agentSocket = some k' then
      (w.sockets k').close code reason else w.sockets k' := by
  unfold disconnectMachine
  cases h : w.agentSocket with
  | none => simp
  | some k =>
    simp only [onSocket_sockets, Option.some.injEq]
    by_cases hk : k' = k
    · subst hk
      simp
    · simp [hk, Ne.symm hk]

@[simp] theorem sendToMachine_agentSocket (m : ServerToAgentMessage) :
    (w.sendToMachine m).agentSocket = w.agentSocket := by
  unfold sendToMachine
  split <;> rfl

theorem sendToMachine_sockets (m : ServerToAgentMessage) (k' : ℕ) :
    (w.sendToMachine m).sockets k' = if w.agentSocket = some k' then (w.sockets k').send m
      else w.sockets k' := by
  unfold sendToMachine
  cases h : w.agentSocket with
  | none => simp
  | some k =>
    simp only [onSocket_sockets, Option.some.injEq]
    by_cases hk : k' = k
    · subst hk
      simp
    · simp [hk, Ne.symm hk]

end World

namespace Authenticate

variable (w : World Hash) (k : ℕ) (input : Input)

@[simp] theorem accept_agentSocket : (accept w k input).1.agentSocket = some k := rfl

/-- The socket is registered and listened to, and the one that was registered is closed. -/
theorem accept_sockets (k' : ℕ) :
    (accept w k input).1.sockets k' =
      if k' = k then { w.sockets k with agent := true, listening := true }
      else if w.agentSocket = some k' then
        (w.sockets k').close 4000 "Replaced by newer connection" else w.sockets k' := by
  simp only [accept, World.read_sockets, World.onSocket_sockets, World.registerAgent_sockets,
    World.onSocket_agentSocket]
  by_cases hk : k' = k
  · subst hk
    simp
  · simp [hk]

end Authenticate

/-! ## What a step does -/

/-- The socket that the step of the call accepts. -/
def Call.accepts : Call Hash → Option ℕ
  | .authenticate k (.verified true) => some k
  | _ => none

theorem Call.accepts_eq_some {c : Call Hash} {k : ℕ} :
    c.accepts = some k ↔ c = .authenticate k (.verified true) := by
  constructor
  · intro h
    cases c with
    | authenticate client pc =>
      cases pc with
      | verified ok =>
        cases ok with
        | true => rw [Option.some.inj h]
        | false => cases h
      | _ => cases h
    | _ => cases h
  · rintro rfl
    rfl

/-- What a step of a call does to the entry and the sockets. -/
inductive RegistryStep (w : World Hash) : Call Hash → World Hash → Prop
  | keep {c w'} : w'.agentSocket = w.agentSocket → w'.sockets = w.sockets → RegistryStep w c w'
  | send {c w'} (k : ℕ) (m : ServerToAgentMessage) : w'.agentSocket = w.agentSocket →
      (∀ k', w'.sockets k' = if k' = k then (w.sockets k').send m else w.sockets k') →
      RegistryStep w c w'
  | reject {k w'} : w'.agentSocket = w.agentSocket →
      (∀ k', w'.sockets k' = if k' = k then
        (w.sockets k').close 4001 "Invalid machine credential" else w.sockets k') →
      RegistryStep w (.authenticate k (.verified false)) w'
  | accept {k w'} : w'.agentSocket = some k →
      (∀ k', w'.sockets k' =
        if k' = k then { w.sockets k with agent := true, listening := true }
        else if w.agentSocket = some k' then
          (w.sockets k').close 4000 "Replaced by newer connection" else w.sockets k') →
      RegistryStep w (.authenticate k (.verified true)) w'
  | drop {c w'} (code : ℕ) (reason : String) : code ≠ 4000 → w'.agentSocket = none →
      (∀ k', w'.sockets k' = if w.agentSocket = some k' then (w.sockets k').close code reason
        else w.sockets k') →
      RegistryStep w c w'

theorem registryStep_onSocket (w : World Hash) {c : Call Hash} (k : ℕ) (m : ServerToAgentMessage) :
    RegistryStep w c (w.onSocket k fun s => s.send m) := by
  refine .send k m rfl fun k' => ?_
  rw [World.onSocket_sockets]
  split_ifs with h
  · rw [h]
  · rfl

theorem registryStep_sendToMachine (w : World Hash) {c : Call Hash} (m : ServerToAgentMessage) :
    RegistryStep w c (w.sendToMachine m) := by
  cases h : w.agentSocket with
  | none =>
    refine .keep (by simp) (funext fun k => ?_)
    simp [World.sendToMachine_sockets, h]
  | some k =>
    refine .send k m (by simp) fun k' => ?_
    simp only [World.sendToMachine_sockets, h, Option.some.injEq, eq_comm (a := k)]

theorem registryStep_disconnectMachine (w : World Hash) {c : Call Hash} {code : ℕ} (reason : String)
    (hcode : code ≠ 4000) : RegistryStep w c (w.disconnectMachine code reason) :=
  .drop code reason hcode (by simp) (w.disconnectMachine_sockets code reason)

/-- What else a step changes does not matter. -/
theorem RegistryStep.congr {w w' v v' : World Hash} {c : Call Hash} (h : RegistryStep v c v')
    (hw : w.agentSocket = v.agentSocket) (hsockets : w.sockets = v.sockets)
    (hw' : w'.agentSocket = v'.agentSocket) (hsockets' : w'.sockets = v'.sockets) :
    RegistryStep w c w' := by
  cases h with
  | keep ha hs => exact .keep (by rw [hw', ha, hw]) (by rw [hsockets', hs, hsockets])
  | send k m ha hs => exact .send k m (by rw [hw', ha, hw]) (by rw [hsockets', hsockets]; exact hs)
  | reject ha hs => exact .reject (by rw [hw', ha, hw]) (by rw [hsockets', hsockets]; exact hs)
  | accept ha hs => exact .accept (by rw [hw', ha]) (by rw [hsockets', hsockets, hw]; exact hs)
  | drop code reason hcode ha hs =>
    exact .drop code reason hcode (by rw [hw', ha]) (by rw [hsockets', hsockets, hw]; exact hs)

theorem SessionStep.registryStep {w w' : World Hash} {c : Call Hash} (h : SessionStep w w') :
    RegistryStep w c w' := by
  cases h with
  | rows => exact .keep rfl rfl
  | push session wait =>
    exact (registryStep_sendToMachine (w.read wait) _).congr rfl rfl rfl rfl

theorem GetActiveSession.step_registry {w w' : World Hash} {c : Call Hash} {input : Input}
    {pc pc' : GetActiveSession} (h : pc.step w input = some (w', pc')) : RegistryStep w c w' := by
  obtain ⟨clock, sessions, rfl⟩ := step_world h
  exact .keep rfl rfl

theorem RequestDecommission.registryStep_deliver (w : World Hash) {c : Call Hash} (m : Machine Hash)
    (input : Input) : RegistryStep w c (deliver w m input).1 :=
  (registryStep_sendToMachine (w.read input.wait) _).congr rfl rfl rfl rfl

/-- Every step of a call is one of these for the registry. -/
theorem registryStep_of_step [Argon2 Hash] {w w' : World Hash} {c c' : Call Hash} {input : Input}
    (h : Server.Step w input c w' c') : RegistryStep w c w' := by
  cases h with
  | authenticate h =>
    cases h with
    | reject =>
      refine .reject rfl fun k' => ?_
      rw [World.onSocket_sockets]
      split_ifs with hk
      · rw [hk]
      · rfl
    | accept => exact .accept rfl (Authenticate.accept_sockets _ _ _)
    | tell | push => exact (registryStep_onSocket (w.read _) _ _).congr rfl rfl rfl rfl
    | query hq => exact GetActiveSession.step_registry hq
    | find | unknown | revoked | found | verifying | heartbeat | failed | beaten | pending | managed =>
      exact .keep rfl rfl
  | message h =>
    cases h with
    | beaten => exact (registryStep_onSocket _ _ _).congr rfl rfl rfl rfl
    | deleted =>
      unfold World.finalized
      split_ifs
      · exact .keep rfl rfl
      · exact (registryStep_disconnectMachine w _ (by decide)).congr rfl rfl rfl rfl
    | heartbeat | failed | delete | deleteNone => exact .keep rfl rfl
  | requestDecommission h =>
    cases h with
    | remove => exact registryStep_disconnectMachine w _ (by decide)
    | redeliver => exact RequestDecommission.registryStep_deliver w _ _
    | marked =>
      exact (RequestDecommission.registryStep_deliver (w.broadcastToOperators _) _ _).congr rfl rfl
        rfl rfl
    | query hq => exact GetActiveSession.step_registry hq
    | find | notFound | request | delete | deleteFailed | removed | deleteRejected | mark
    | markRejected | done => exact .keep rfl rfl
  | issueEnrollmentToken h =>
    obtain ⟨clock, tokens, rfl | ⟨-, rfl⟩⟩ := IssueEnrollmentToken.step_world h <;> exact .keep rfl rfl
  | enroll h => cases h <;> exact .keep rfl rfl
  | revokeCredential h =>
    cases h with
    | updated => exact (registryStep_disconnectMachine w _ (by decide)).congr rfl rfl rfl rfl
    | query hq => exact GetActiveSession.step_registry hq
    | update | rejected | done => exact .keep rfl rfl
  | start h => exact (StartSession.sessionStep h).registryStep
  | edit h => exact (EditSession.sessionStep h).registryStep

/-! ## What no step takes back -/

/-- What holds of a socket across the steps of the calls: nothing that has been put on it
disappears, it is not forgotten, and it is opened by its connection and closed by its disconnect
alone. -/
structure Socket.Kept (s s' : Socket) : Prop where
  sent : s.sent <+: s'.sent
  opened : s'.readyState = .opened → s.readyState = .opened
  closed : s'.readyState = .closed → s.readyState = .closed
  agent : s.agent = true → s'.agent = true

theorem Socket.Kept.refl (s : Socket) : s.Kept s := ⟨List.prefix_refl _, id, id, id⟩

theorem Socket.kept_send (s : Socket) (m : ServerToAgentMessage) : s.Kept (s.send m) :=
  ⟨s.sent_prefix_send m, by simp, by simp, by simp⟩

theorem Socket.kept_close (s : Socket) (code : ℕ) (reason : String) : s.Kept (s.close code reason) where
  sent := s.sent_prefix_close code reason
  opened h := absurd h (s.close_readyState_ne code reason)
  closed h := by
    unfold close at h
    split_ifs at h
    exact h
  agent h := by simpa using h

theorem RegistryStep.kept {w w' : World Hash} {c : Call Hash} (h : RegistryStep w c w') (k : ℕ) :
    (w.sockets k).Kept (w'.sockets k) := by
  cases h with
  | keep _ hs =>
    rw [hs]
    exact .refl _
  | send k' m _ hs =>
    rw [hs]
    split_ifs
    · exact Socket.kept_send _ _
    · exact .refl _
  | reject _ hs =>
    rw [hs]
    split_ifs
    · exact Socket.kept_close _ _ _
    · exact .refl _
  | accept _ hs =>
    rw [hs]
    split_ifs with hk
    · rw [hk]
      exact ⟨List.prefix_refl _, id, id, fun _ => rfl⟩
    · exact Socket.kept_close _ _ _
    · exact .refl _
  | drop code reason _ _ hs =>
    rw [hs]
    split_ifs
    · exact Socket.kept_close _ _ _
    · exact .refl _

/-- The entry is a socket that was registered, or that has just been accepted. -/
theorem Server.agentSocket_of_step [Argon2 Hash] {w w' : World Hash} {c c' : Call Hash} {input : Input}
    {k : ℕ} (h : Server.Step w input c w' c') (hk : w'.agentSocket = some k) :
    w.agentSocket = some k ∨ c = .authenticate k (.verified true) := by
  cases registryStep_of_step h with
  | keep ha => exact Or.inl (ha ▸ hk)
  | send _ _ ha => exact Or.inl (ha ▸ hk)
  | reject ha => exact Or.inl (ha ▸ hk)
  | accept ha =>
    obtain rfl := Option.some.inj (ha.symm.trans hk)
    exact Or.inr rfl
  | drop _ _ _ ha => cases ha.symm.trans hk

/-! ## What an event does -/

theorem World.unregisterAgent_sockets (w : World Hash) (k : ℕ) :
    (w.unregisterAgent k).sockets = w.sockets := by
  unfold unregisterAgent
  split_ifs <;> rfl

theorem Server.disconnect_sockets_of_ne (w : World Hash) {k k' : ℕ} (h : k' ≠ k) :
    (Server.disconnect w k).sockets k' = w.sockets k' := by
  unfold Server.disconnect
  split_ifs <;> simp [World.onSocket_sockets, h, World.unregisterAgent_sockets]

/-- No event registers a socket. -/
theorem agentSocket_of_event {w w' : World Hash} {e : Event} {cs : List (Call Hash)}
    (h : Server.EventStep w e w' cs) {k : ℕ} (hk : w'.agentSocket = some k) :
    w.agentSocket = some k := by
  rcases agentSocket_cases_of_event h with hsame | ⟨k', -, hnone, -⟩
  · rwa [← hsame]
  · rw [hnone] at hk
    cases hk

/-- A socket that is there and stays open is left alone by every event. -/
theorem socket_eq_of_event {w w' : World Hash} {e : Event} {cs : List (Call Hash)}
    (h : Server.EventStep w e w' cs) {k : ℕ} (hk : (w.sockets k).readyState ≠ .connecting)
    (ho : (w'.sockets k).readyState = .opened) : w'.sockets k = w.sockets k := by
  have hs := socket_of_event h k
  generalize w'.sockets k = s at hs ho ⊢
  cases hs with
  | same => rfl
  | connect hconnecting => exact absurd hconnecting hk
  | hangUp | disconnect => cases ho

/-- A run of `authenticateAgent` starts when its socket is opened. -/
theorem authenticate_of_event {w w' : World Hash} {e : Event} {cs : List (Call Hash)}
    (h : Server.EventStep w e w' cs) {k : ℕ} {pc : Authenticate Hash} (hc : .authenticate k pc ∈ cs) :
    ∃ secret, e = .connect k (some secret) ∧ pc = .find secret ∧
      (w.sockets k).readyState = .connecting ∧ (w'.sockets k).readyState = .opened := by
  cases h with
  | @connect k' secret hk =>
    cases secret with
    | none => cases hc
    | some secret =>
      obtain ⟨rfl, rfl⟩ := Call.authenticate.inj (List.mem_singleton.1 hc)
      exact ⟨secret, rfl, rfl, hk, by simp [Server.connect, World.onSocket_sockets]⟩
  | receive => cases List.mem_singleton.1 hc
  | drop | hangUp | disconnect => cases hc
  | @request r wait => cases r <;> cases List.mem_singleton.1 hc

namespace Server

/-- The sockets that the calls and the registry refer to are there. -/
structure Opened (p : Pool (World Hash) (Call Hash)) : Prop where
  authenticating : ∀ k pc, .authenticate k pc ∈ p.calls → (p.world.sockets k).readyState ≠ .connecting
  registered : ∀ k, p.world.agentSocket = some k → (p.world.sockets k).readyState ≠ .connecting

theorem opened_of_agentSocket_eq_none {w : World Hash} (hw : w.agentSocket = none) :
    Opened (⟨w, []⟩ : Pool (World Hash) (Call Hash)) := ⟨by simp, by simp [hw]⟩

theorem Opened.event {p : Pool (World Hash) (Call Hash)} (hp : Opened p) {e : Event} {w : World Hash}
    {cs : List (Call Hash)} (h : EventStep p.world e w cs) : Opened ⟨w, p.calls ++ cs⟩ where
  authenticating k pc hc := by
    rcases List.mem_append.1 hc with hold | hnew
    · exact (evolves_of_event (P := fun _ => True) h k).known (hp.authenticating k pc hold)
    · obtain ⟨_, _, _, _, hopened⟩ := authenticate_of_event h hnew
      simp [hopened]
  registered k hk :=
    (evolves_of_event (P := fun _ => True) h k).known (hp.registered k (agentSocket_of_event h hk))

theorem Opened.call [Argon2 Hash] {p : Pool (World Hash) (Call Hash)} (hp : Opened p) {j : ℕ}
    {input : Input} {c c' : Call Hash} {w : World Hash} (hc : p.calls[j]? = some c)
    (h : Step p.world input c w c') : Opened ⟨w, p.calls.set j c'⟩ where
  authenticating k pc hd := by
    refine (evolves_of_step h k).known ?_
    rcases Pool.mem_set_cases hd with rfl | hd
    · cases h with
      | authenticate => exact hp.authenticating k _ (List.mem_of_getElem? hc)
    · exact hp.authenticating k pc hd
  registered k hk := by
    refine (evolves_of_step h k).known ?_
    rcases agentSocket_of_step h hk with hk | rfl
    · exact hp.registered k hk
    · exact hp.authenticating k _ (List.mem_of_getElem? hc)

end Server

end Taymna.Api
