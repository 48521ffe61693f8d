import Mathlib.Logic.Relation
import Taymna.Api.HubRuns
import Taymna.Api.Registry

/-!
# The hub is one world for each machine

`World` has the registry and the sockets of one machine. Seen from a machine (`Shows`), every step of
the hub is one of the steps that `World` has for it, or none at all: what concerns another machine, or
an operator, cannot be noticed (`one_machine`).
-/

namespace Taymna.Api

open Automata

variable {Hash : Type*}

/-- A frame, as the one-machine model has it. -/
def HubFrame.toFrame : HubFrame → Option Frame
  | .toAgent _ message => some (.message message)
  | .toOperator _ _ => none
  | .close code reason => some (.close code reason)

/-- What a socket is to a machine: nothing, unless it presents that machine's id. -/
def Connection.view (machineId : List Char) (c : Connection) : Socket :=
  match c.presented with
  | some (id, secret) =>
    if id = machineId then
      { readyState := c.readyState
        secret := some (String.ofList secret)
        agent := c.agentId.isSome
        listening := c.listening.isSome
        sent := c.sent.filterMap HubFrame.toFrame }
    else .unused
  | none => .unused

namespace Connection

variable {machineId : List Char} {c : Connection}

/-- The socket presents the id of the machine. -/
def Of (machineId : List Char) (c : Connection) : Prop := ∃ secret, c.presented = some (machineId, secret)

instance : Decidable (c.Of machineId) :=
  decidable_of_iff (c.presented.map Prod.fst = some machineId) (by simp [Of])

theorem view_of_not (h : ¬c.Of machineId) : c.view machineId = .unused := by
  unfold view
  split
  · rename_i id secret hpresented
    rw [if_neg]
    rintro rfl
    exact h ⟨secret, hpresented⟩
  · rfl

theorem view_of {secret : List Char} (h : c.presented = some (machineId, secret)) :
    c.view machineId =
      { readyState := c.readyState
        secret := some (String.ofList secret)
        agent := c.agentId.isSome
        listening := c.listening.isSome
        sent := c.sent.filterMap HubFrame.toFrame } := by
  simp [view, h]

theorem Of.unique {id : List Char} (h : c.Of machineId) (h' : c.Of id) : machineId = id := by
  obtain ⟨secret, hpresented⟩ := h
  obtain ⟨secret', hpresented'⟩ := h'
  rw [hpresented] at hpresented'
  exact (Prod.mk.inj (Option.some.inj hpresented')).1

/-- Only what a machine's socket presents, is sent and is taken for shows. -/
theorem view_congr {c' : Connection} (hstate : c'.readyState = c.readyState)
    (hpresented : c'.presented = c.presented) (hagent : c'.agentId = c.agentId)
    (hlistening : c'.listening = c.listening) (hsent : c'.sent = c.sent) :
    c'.view machineId = c.view machineId := by
  unfold view
  rw [hstate, hpresented, hagent, hlistening, hsent]

theorem view_send (h : c.Of machineId) (id : List Char) (message : ServerToAgentMessage) :
    (c.send (.toAgent id message)).view machineId = (c.view machineId).send message := by
  obtain ⟨secret, hpresented⟩ := h
  rw [view_of hpresented, view_of (by rwa [send_presented])]
  unfold send Socket.send
  dsimp only
  split_ifs
  · simp [HubFrame.toFrame]
  · rfl

theorem of_send_iff (frame : HubFrame) : (c.send frame).Of machineId ↔ c.Of machineId := by
  unfold Of
  rw [send_presented]

theorem of_close_iff (code : ℕ) (reason : String) : (c.close code reason).Of machineId ↔ c.Of machineId := by
  unfold Of
  rw [close_presented]

theorem view_send_of_not (h : ¬c.Of machineId) (frame : HubFrame) :
    (c.send frame).view machineId = c.view machineId := by
  rw [view_of_not h, view_of_not]
  rwa [of_send_iff]

theorem view_close (code : ℕ) (reason : String) :
    (c.close code reason).view machineId = (c.view machineId).close code reason := by
  by_cases h : c.Of machineId
  · obtain ⟨secret, hpresented⟩ := h
    rw [view_of hpresented, view_of (by rwa [close_presented])]
    unfold close Socket.close
    dsimp only
    split_ifs
    · simp [HubFrame.toFrame]
    · rfl
  · rw [view_of_not h, view_of_not]
    · rfl
    · rwa [of_close_iff]

theorem view_close_of_not (h : ¬c.Of machineId) (code : ℕ) (reason : String) :
    (c.close code reason).view machineId = c.view machineId := by
  rw [view_close, view_of_not h]
  rfl

end Connection

namespace Hub

variable {verify : List Char → Bool} {es : List Event} {h h' : Hub} {machineId : List Char} {k : ℕ}
  {w w' : World Hash}

/-- The registry, the sockets and the broadcasts of `w` are what the hub has of the machine. -/
structure Shows (machineId : List Char) (h : Hub) (w : World Hash) : Prop where
  agentSocket : w.agentSocket = h.agentSockets machineId
  sockets : ∀ k, w.sockets k = (h.sockets k).view machineId
  operators : w.operators = h.broadcasts.filterMap fun b => if b.1 = machineId then some b.2 else none

/-- The steps that the one-machine model has for the gateway and the registry. -/
inductive OneMachine [Argon2 Hash] (w : World Hash) : World Hash → Prop
  | event {e calls w'} : Server.event w e = some (w', calls) → OneMachine w w'
  | verified (ok : Bool) (input : Input) {k w' pc} : (w.sockets k).secret.isSome →
      Authenticate.step w k input (.verified ok) = some (w', pc) → OneMachine w w'
  | reply {k : ℕ} (message : ServerToAgentMessage) : (w.sockets k).listening = true →
      OneMachine w (w.onSocket k fun s => s.send message)
  | sendToMachine (message) : OneMachine w (w.sendToMachine message)
  | broadcast (message) : OneMachine w (w.broadcastToOperators message)
  | disconnectMachine (code reason) : OneMachine w (w.disconnectMachine code reason)

/-- After the step too, the machine has its world: the one it had, or the next one. -/
def Follows [Argon2 Hash] (machineId : List Char) (w : World Hash) (h' : Hub) : Prop :=
  ∃ w', (w' = w ∨ OneMachine w w') ∧ Shows machineId h' w'

/-! ## What a machine does not see -/

theorem Coherent.of_listening (hi : Coherent verify es h) {id : List Char}
    (hid : (h.sockets k).listening = some id) : (h.sockets k).Of id := ((hi.sockets k).listening id hid).2

theorem Coherent.of_registered (hi : Coherent verify es h) {id : List Char}
    (hk : h.agentSockets id = some k) : (h.sockets k).Of id := hi.of_listening (hi.registry id k hk)

theorem Coherent.not_of_registered (hi : Coherent verify es h) {id : List Char}
    (hk : h.agentSockets id = some k) (hne : id ≠ machineId) : ¬(h.sockets k).Of machineId :=
  fun hof => hne (hi.of_registered hk |>.unique hof)

theorem Shows.unseen [Argon2 Hash] (hw : Shows machineId h w)
    (hagent : h'.agentSockets machineId = h.agentSockets machineId)
    (hsockets : ∀ k, (h'.sockets k).view machineId = (h.sockets k).view machineId)
    (hbroadcasts : h'.broadcasts = h.broadcasts) : Follows machineId w h' := by
  refine ⟨w, Or.inl rfl, ?_, fun k => ?_, ?_⟩
  · rw [hw.agentSocket, hagent]
  · rw [hw.sockets, hsockets]
  · rw [hw.operators, hbroadcasts]

theorem view_onSocket (h : Hub) (k k' : ℕ) (f : Connection → Connection) (machineId : List Char) :
    ((h.onSocket k f).sockets k').view machineId =
      if k' = k then (f (h.sockets k)).view machineId else (h.sockets k').view machineId := by
  rw [onSocket_sockets]
  split_ifs <;> rfl

/-- A machine does not see what is done to the socket of another. -/
theorem Shows.unseen_onSocket [Argon2 Hash] (hw : Shows machineId h w) {f : Connection → Connection}
    (hnot : ¬(h.sockets k).Of machineId) (hnot' : ¬(f (h.sockets k)).Of machineId) :
    Follows machineId w (h.onSocket k f) := by
  refine hw.unseen rfl (fun k' => ?_) rfl
  rw [view_onSocket]
  split_ifs with hk
  · rw [hk, Connection.view_of_not hnot, Connection.view_of_not hnot']
  · rfl

/-! ## One step -/

/-- What a machine's registry needs of the socket that a step is about. -/
theorem Shows.onSocket (hw : Shows machineId h w) {f : Connection → Connection} {g : Socket → Socket}
    (hview : (f (h.sockets k)).view machineId = g ((h.sockets k).view machineId)) :
    Shows machineId (h.onSocket k f) (w.onSocket k g) where
  agentSocket := hw.agentSocket
  sockets := by
    intro k'
    rw [view_onSocket, World.onSocket_sockets]
    split_ifs
    · rw [hview, hw.sockets]
    · exact hw.sockets k'
  operators := hw.operators

theorem view_authenticated (h : Hub) (k k' : ℕ) (id : List Char) (machineId : List Char) :
    ((h.authenticated k id true).sockets k').view machineId =
      if k' = k then { h.sockets k with
        awaiting := false, agentId := some id, listening := some id }.view machineId
      else if h.agentSockets id = some k' then
        ((h.sockets k').view machineId).close 4000 "Replaced by newer connection"
      else (h.sockets k').view machineId := by
  rw [authenticated_sockets]
  split_ifs
  · rfl
  · exact Connection.view_close _ _
  · rfl

theorem view_refused (h : Hub) (k k' : ℕ) (id : List Char) (machineId : List Char) :
    ((h.authenticated k id false).sockets k').view machineId =
      if k' = k then ((h.sockets k).view machineId).close 4001 "Invalid machine credential"
      else (h.sockets k').view machineId := by
  have hclosed : (h.authenticated k id false).sockets k' = if k' = k then
      { h.sockets k with awaiting := false }.close 4001 "Invalid machine credential" else h.sockets k' := by
    unfold Hub.authenticated
    simp only [Bool.false_eq_true, if_false, onSocket_sockets, if_true]
    split_ifs <;> rfl
  rw [hclosed]
  split_ifs
  · rw [Connection.view_close]
    exact congrArg (fun s => s.close 4001 "Invalid machine credential")
      (Connection.view_congr rfl rfl rfl rfl rfl)
  · rfl

theorem accept_operators (w : World Hash) (k : ℕ) (input : Input) :
    (Authenticate.accept w k input).1.operators = w.operators := by
  change (World.registerAgent _ k).operators = w.operators
  unfold World.registerAgent
  dsimp only
  split
  · split_ifs <;> rfl
  · rfl

theorem Shows.authenticated [Argon2 Hash] (hi : Coherent verify es h) (hw : Shows machineId h w)
    {id secret : List Char} (hpresented : (h.sockets k).presented = some (id, secret)) (ok : Bool) :
    Follows machineId w (h.authenticated k id ok) := by
  have hbroadcasts : (h.authenticated k id ok).broadcasts = h.broadcasts := by
    unfold Hub.authenticated
    cases ok <;> simp
  by_cases hid : id = machineId
  · subst hid
    have hview := Connection.view_of hpresented
    have hsecret : (w.sockets k).secret.isSome := by
      rw [hw.sockets, hview]
      rfl
    cases ok with
    | false =>
      have hstep : OneMachine w (w.onSocket k fun s => s.close 4001 "Invalid machine credential") :=
        .verified false ⟨0, 0, "", "", 0⟩ hsecret rfl
      refine ⟨_, Or.inr hstep, hw.agentSocket, fun k' => ?_, hw.operators.trans (by rw [hbroadcasts])⟩
      rw [World.onSocket_sockets, view_refused]
      split_ifs
      · rw [hw.sockets]
      · rw [hw.sockets]
    | true =>
      have hstep : OneMachine w (Authenticate.accept w k ⟨0, 0, "", "", 0⟩).1 :=
        .verified true ⟨0, 0, "", "", 0⟩ hsecret rfl
      refine ⟨_, Or.inr hstep, ?_, fun k' => ?_, ?_⟩
      · rw [Authenticate.accept_agentSocket, authenticated_agentSockets, Function.update_self]
      · rw [Authenticate.accept_sockets, view_authenticated, hw.agentSocket]
        split_ifs with hk
        · rw [hw.sockets, hview]
          exact (Connection.view_of (c := { h.sockets k with
            awaiting := false, agentId := some id, listening := some id }) hpresented).symm
        · rw [hw.sockets]
        · rw [hw.sockets]
      · rw [accept_operators, hbroadcasts, hw.operators]
  · have hnot : ¬(h.sockets k).Of machineId := fun hof => hid (hof.unique ⟨secret, hpresented⟩).symm
    cases ok with
    | false =>
      refine hw.unseen rfl (fun k' => ?_) hbroadcasts
      rw [view_refused]
      split_ifs with hk
      · rw [hk, Connection.view_of_not hnot]
        rfl
      · rfl
    | true =>
      refine hw.unseen ?_ (fun k' => ?_) hbroadcasts
      · rw [authenticated_agentSockets, Function.update_of_ne (Ne.symm hid)]
      · rw [view_authenticated]
        split_ifs with hk hreplaced
        · rw [hk, Connection.view_of_not hnot, Connection.view_of_not]
          exact hnot
        · rw [Connection.view_of_not (hi.not_of_registered hreplaced hid)]
          rfl
        · rfl

theorem Shows.sendToMachine [Argon2 Hash] (hi : Coherent verify es h) (hw : Shows machineId h w)
    (id : List Char) (message : ServerToAgentMessage) : Follows machineId w (h.sendToMachine id message) := by
  have hagents : (h.sendToMachine id message).agentSockets = h.agentSockets := by
    unfold Hub.sendToMachine
    split <;> rfl
  have hbroadcasts : (h.sendToMachine id message).broadcasts = h.broadcasts := by
    unfold Hub.sendToMachine
    split <;> rfl
  by_cases hid : id = machineId
  · subst hid
    refine ⟨_, Or.inr (.sendToMachine message), ?_, fun k => ?_, ?_⟩
    · rw [World.sendToMachine_agentSocket, hagents, hw.agentSocket]
    · rw [World.sendToMachine_sockets, sendToMachine_sockets, hw.agentSocket, hw.sockets]
      split_ifs with hk
      · exact (Connection.view_send (hi.of_registered hk) id message).symm
      · rfl
    · have hsame : (w.sendToMachine message).operators = w.operators := by
        unfold World.sendToMachine
        split <;> rfl
      rw [hsame, hbroadcasts, hw.operators]
  · refine hw.unseen (by rw [hagents]) (fun k => ?_) hbroadcasts
    rw [sendToMachine_sockets]
    split_ifs with hk
    · exact Connection.view_send_of_not (hi.not_of_registered hk hid) _
    · rfl

theorem Shows.disconnectMachine [Argon2 Hash] (hi : Coherent verify es h) (hw : Shows machineId h w)
    (id : List Char) (code : ℕ) (reason : String) :
    Follows machineId w (h.disconnectMachine id code reason) := by
  have hbroadcasts : (h.disconnectMachine id code reason).broadcasts = h.broadcasts := by
    unfold Hub.disconnectMachine
    split <;> rfl
  by_cases hid : id = machineId
  · subst hid
    refine ⟨_, Or.inr (.disconnectMachine code reason), ?_, fun k => ?_, ?_⟩
    · rw [World.disconnectMachine_agentSocket, disconnectMachine_agentSockets, Function.update_self]
    · rw [World.disconnectMachine_sockets, disconnectMachine_sockets, hw.agentSocket, hw.sockets]
      split_ifs
      · exact (Connection.view_close code reason).symm
      · rfl
    · have hsame : (w.disconnectMachine code reason).operators = w.operators := by
        unfold World.disconnectMachine
        split <;> rfl
      rw [hsame, hbroadcasts, hw.operators]
  · refine hw.unseen ?_ (fun k => ?_) hbroadcasts
    · rw [disconnectMachine_agentSockets, Function.update_of_ne (Ne.symm hid)]
    · rw [disconnectMachine_sockets]
      split_ifs with hk
      · exact Connection.view_close_of_not (hi.not_of_registered hk hid) _ _
      · rfl

theorem Shows.broadcast [Argon2 Hash] (hi : Coherent verify es h) (hw : Shows machineId h w)
    (id : List Char) (message : ServerToOperatorMessage) :
    Follows machineId w (h.broadcastToOperators id message) := by
  obtain ⟨hagents, -, hbroadcasts⟩ := broadcastToOperators_fields h id message
  have hsockets : ∀ k, ((h.broadcastToOperators id message).sockets k).view machineId =
      (h.sockets k).view machineId := by
    intro k
    rw [broadcastToOperators_sockets h hi.nodup]
    split_ifs with hk
    · refine Connection.view_send_of_not ?_ _
      rintro ⟨secret, hpresented⟩
      rw [((hi.sockets k).operator (hi.operators k hk)).2] at hpresented
      cases hpresented
    · rfl
  by_cases hid : id = machineId
  · refine ⟨_, Or.inr (.broadcast message), ?_, fun k => ?_, ?_⟩
    · rw [World.broadcastToOperators_agentSocket, hagents, hw.agentSocket]
    · rw [World.broadcastToOperators_sockets, hsockets, hw.sockets]
    · rw [hbroadcasts, List.filterMap_append, ← hw.operators]
      simp [World.broadcastToOperators, hid]
  · refine ⟨w, Or.inl rfl, ?_, fun k => ?_, ?_⟩
    · rw [hagents, hw.agentSocket]
    · rw [hsockets, hw.sockets]
    · rw [hbroadcasts, List.filterMap_append, ← hw.operators]
      simp [hid]

theorem unregisterAgent_agentSockets (h : Hub) (id : List Char) (k : ℕ) (machineId : List Char) :
    (h.unregisterAgent id k).agentSockets machineId =
      if machineId = id ∧ h.agentSockets id = some k then none else h.agentSockets machineId := by
  unfold unregisterAgent
  by_cases hk : h.agentSockets id = some k
  · rw [if_pos hk]
    simp only [Function.update_apply, hk, and_true]
  · rw [if_neg hk, if_neg fun h => hk h.2]

/-- A socket that is gone takes its own entry along, and no other. -/
theorem handleDisconnect_agentSockets (h : Hub) (k : ℕ) (machineId : List Char) :
    (h.handleDisconnect k).agentSockets machineId =
      match (h.sockets k).agentId with
      | some id =>
        if machineId = id ∧ h.agentSockets id = some k then none else h.agentSockets machineId
      | none => h.agentSockets machineId := by
  have hclosed : ((h.onSocket k fun c => { c with readyState := .closed }).sockets k).agentId =
      (h.sockets k).agentId := by rw [onSocket_sockets, if_pos rfl]
  unfold handleDisconnect
  dsimp only
  rw [hclosed]
  cases (h.sockets k).agentId with
  | none => rfl
  | some id =>
    exact unregisterAgent_agentSockets (h.onSocket k fun c => { c with readyState := .closed }) id k machineId

theorem handleDisconnect_broadcasts (h : Hub) (k : ℕ) : (h.handleDisconnect k).broadcasts = h.broadcasts := by
  unfold handleDisconnect
  dsimp only
  split
  · unfold unregisterAgent
    split_ifs <;> rfl
  · rfl

theorem disconnect_sockets (w : World Hash) (k k' : ℕ) :
    (Server.disconnect w k).sockets k' =
      if k' = k then { w.sockets k with readyState := .closed, agent := false } else w.sockets k' := by
  unfold Server.disconnect
  cases ha : (w.sockets k).agent with
  | true =>
    rw [if_pos rfl, World.onSocket_sockets, World.unregisterAgent_sockets]
  | false =>
    rw [if_neg Bool.false_ne_true, World.onSocket_sockets, ← ha]

theorem disconnect_agentSocket (w : World Hash) (k : ℕ) :
    (Server.disconnect w k).agentSocket =
      if (w.sockets k).agent = true ∧ w.agentSocket = some k then none else w.agentSocket := by
  unfold Server.disconnect World.unregisterAgent
  by_cases ha : (w.sockets k).agent = true
  · simp only [ha, true_and, if_true]
    split_ifs <;> rfl
  · rw [if_neg ha, if_neg fun h => ha h.1]
    rfl

theorem disconnect_operators (w : World Hash) (k : ℕ) : (Server.disconnect w k).operators = w.operators := by
  unfold Server.disconnect World.unregisterAgent
  split_ifs <;> rfl

theorem Shows.disconnect [Argon2 Hash] (hi : Coherent verify es h) (hw : Shows machineId h w)
    (hk : (h.sockets k).readyState = .opened ∨ (h.sockets k).readyState = .closing) :
    Follows machineId w (h.handleDisconnect k) := by
  have hown : ∀ id, (h.sockets k).agentId = some id → (h.sockets k).Of id :=
    fun id hid => hi.of_listening ((hi.sockets k).agentId id hid)
  by_cases hof : (h.sockets k).Of machineId
  · obtain ⟨secret, hpresented⟩ := hof
    have hview := Connection.view_of hpresented
    have hevent : Server.event w (.disconnect k) = some (Server.disconnect w k, []) := by
      rcases hk with hk | hk <;> simp only [Server.event, hw.sockets, hview, hk]
    refine ⟨_, Or.inr (.event hevent), ?_, fun k' => ?_, ?_⟩
    · rw [disconnect_agentSocket, handleDisconnect_agentSockets, hw.agentSocket, hw.sockets, hview]
      cases hid : (h.sockets k).agentId with
      | none => simp
      | some id =>
        obtain rfl := (hown id hid).unique ⟨secret, hpresented⟩
        simp
    · rw [disconnect_sockets, handleDisconnect_sockets]
      split_ifs
      · rw [hw.sockets, hview]
        exact (Connection.view_of (c := { h.sockets k with readyState := .closed, agentId := none })
          hpresented).symm
      · exact hw.sockets k'
    · rw [disconnect_operators, handleDisconnect_broadcasts, hw.operators]
  · refine hw.unseen ?_ (fun k' => ?_) (handleDisconnect_broadcasts h k)
    · rw [handleDisconnect_agentSockets]
      cases hid : (h.sockets k).agentId with
      | none => rfl
      | some id =>
        have hne : machineId ≠ id := by
          rintro rfl
          exact hof (hown machineId hid)
        exact if_neg fun h => hne h.1
    · rw [handleDisconnect_sockets]
      split_ifs with hk'
      · rw [hk', Connection.view_of_not hof, Connection.view_of_not]
        exact hof
      · rfl

/-- After every step of the hub, each machine has its world: the one it had, or the next one. -/
theorem Shows.step [Argon2 Hash] (hi : Coherent verify es h) (hw : Shows machineId h w) {e : Event}
    (hs : Hub.step verify h e = some h') : Follows machineId w h' := by
  have hdeaf : ∀ {k}, (h.sockets k).readyState = .connecting → ¬(h.sockets k).Of machineId := by
    rintro k hnew ⟨secret, hpresented⟩
    rw [hi.fresh hnew] at hpresented
    cases hpresented
  cases step_cases hs with
  | @agent i authorization token credential presented hnew hroute hsplit =>
    obtain ⟨id, secret⟩ := presented
    by_cases hid : id = machineId
    · subst hid
      have hview : (h.sockets i).view id = .unused := Connection.view_of_not (hdeaf hnew)
      have hevent : Server.event w (.connect i (some (String.ofList secret))) = some
          (Server.connect w i (some (String.ofList secret))) := by
        simp only [Server.event, hw.sockets, hview, Socket.unused]
      refine ⟨_, Or.inr (.event hevent), hw.onSocket ?_⟩
      rw [hview, hi.fresh hnew]
      exact Connection.view_of rfl
    · refine hw.unseen_onSocket (hdeaf hnew) ?_
      rintro ⟨secret', hpresented⟩
      exact hid (Prod.mk.inj (Option.some.inj hpresented)).1
  | @operator i authorization token jwt hnew =>
    obtain ⟨hagents, hsockets, hbroadcasts⟩ := registerOperator_fields
      (h.onSocket i fun c => { c with readyState := .opened, operator := true }) i
    refine hw.unseen (by rw [hagents]; rfl) (fun k => ?_) hbroadcasts
    rw [hsockets, view_onSocket]
    split_ifs with hk
    · rw [hk, Connection.view_of_not (hdeaf hnew), Connection.view_of_not]
      exact hdeaf hnew
    · rfl
  | @turnedAway i _ _ _ hnew =>
    refine hw.unseen_onSocket (hdeaf hnew) ?_
    rw [Connection.of_close_iff]
    exact hdeaf hnew
  | admitted _ hpresented => exact hw.authenticated hi hpresented true
  | refused _ hpresented => exact hw.authenticated hi hpresented false
  | @reply i id message hlistening =>
    have hof := hi.of_listening hlistening
    by_cases hid : id = machineId
    · subst hid
      have hl : (w.sockets i).listening = true := by
        obtain ⟨secret, hpresented⟩ := hof
        rw [hw.sockets, Connection.view_of hpresented]
        simp [hlistening]
      exact ⟨_, Or.inr (.reply message hl), hw.onSocket (Connection.view_send hof id message)⟩
    · have hnot : ¬(h.sockets i).Of machineId := fun hof' => hid (hof.unique hof')
      refine hw.unseen_onSocket hnot ?_
      rwa [Connection.of_send_iff]
  | sendToMachine => exact hw.sendToMachine hi _ _
  | broadcast => exact hw.broadcast hi _ _
  | disconnectMachine => exact hw.disconnectMachine hi _ _ _
  | @hangUp i hopen =>
    by_cases hof : (h.sockets i).Of machineId
    · obtain ⟨secret, hpresented⟩ := hof
      have hview := Connection.view_of hpresented
      have hevent : Server.event w (.hangUp i) =
          some (w.onSocket i fun s => { s with readyState := .closing }, []) := by
        simp only [Server.event, hw.sockets, hview, hopen]
      refine ⟨_, Or.inr (.event hevent), hw.onSocket ?_⟩
      rw [hview]
      exact Connection.view_of hpresented
    · exact hw.unseen_onSocket hof hof
  | disconnect hk => exact hw.disconnect hi hk

/-- The hub is one world for each machine: in every run, whatever the others do, what the hub has of a
machine comes about by the steps that the one-machine model has. -/
theorem one_machine [Argon2 Hash] (hrun : run (Hub.step verify) empty es = some h) (machineId : List Char)
    (clock : ℤ) :
    ∃ w : World Hash, Relation.ReflTransGen OneMachine (World.created clock) w ∧ Shows machineId h w := by
  have hall : Coherent verify es h ∧ ∃ w : World Hash,
      Relation.ReflTransGen OneMachine (World.created clock) w ∧ Shows machineId h w := by
    refine run_history_invariant (I := fun es h => Coherent verify es h ∧ ∃ w : World Hash,
      Relation.ReflTransGen OneMachine (World.created clock) w ∧ Shows machineId h w)
      ⟨coherent_empty verify, World.created clock, .refl, rfl, fun _ => rfl, rfl⟩ ?_ hrun
    rintro es s e t ⟨hi, w, hreach, hw⟩ hs
    obtain ⟨w', hstep, hw'⟩ := hw.step hi hs
    refine ⟨hi.step hs, w', ?_, hw'⟩
    rcases hstep with rfl | hstep
    · exact hreach
    · exact hreach.tail hstep
  exact hall.2

theorem one_machine_desk :
    ∃ w : World PlainHash, Relation.ReflTransGen OneMachine (World.created 0) w ∧
      w.agentSocket = some 0 ∧ w.operators = [.machineRemoved] := by
  have hrun : run (Hub.step fun _ => true) empty [.connect 0 (some "Machine a.s".toList) none,
      .connect 1 none (some "t".toList), .verified 0 true, .broadcast "a".toList .machineRemoved,
      .broadcast "b".toList .machineDecommissioning] = some _ := (Option.some_get (by decide)).symm
  have hworld : ∃ w : World PlainHash, Relation.ReflTransGen OneMachine (World.created 0) w ∧
      Shows "a".toList _ w := one_machine hrun "a".toList 0
  obtain ⟨w, hreach, hw⟩ := hworld
  exact ⟨w, hreach, hw.agentSocket, hw.operators⟩

end Hub

end Taymna.Api
