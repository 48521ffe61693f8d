import Mathlib.Data.List.Nodup
import Taymna.Api.Hub

/-!
# What the registry does to each socket

Each operation of the registry, read off at one socket: which sockets it puts a frame on or closes, and
that it leaves all others and the rest of the hub alone.
-/

namespace Taymna.Api

namespace Connection

variable (c : Connection) (frame : HubFrame) (code : ℕ) (reason : String)

@[simp] theorem send_readyState : (c.send frame).readyState = c.readyState := by
  unfold send
  split_ifs <;> rfl

@[simp] theorem send_presented : (c.send frame).presented = c.presented := by
  unfold send
  split_ifs <;> rfl

@[simp] theorem send_awaiting : (c.send frame).awaiting = c.awaiting := by
  unfold send
  split_ifs <;> rfl

@[simp] theorem send_agentId : (c.send frame).agentId = c.agentId := by
  unfold send
  split_ifs <;> rfl

@[simp] theorem send_listening : (c.send frame).listening = c.listening := by
  unfold send
  split_ifs <;> rfl

@[simp] theorem send_operator : (c.send frame).operator = c.operator := by
  unfold send
  split_ifs <;> rfl

@[simp] theorem close_presented : (c.close code reason).presented = c.presented := by
  unfold close
  split_ifs <;> rfl

@[simp] theorem close_awaiting : (c.close code reason).awaiting = c.awaiting := by
  unfold close
  split_ifs <;> rfl

@[simp] theorem close_agentId : (c.close code reason).agentId = c.agentId := by
  unfold close
  split_ifs <;> rfl

@[simp] theorem close_listening : (c.close code reason).listening = c.listening := by
  unfold close
  split_ifs <;> rfl

@[simp] theorem close_operator : (c.close code reason).operator = c.operator := by
  unfold close
  split_ifs <;> rfl

theorem close_readyState_ne : (c.close code reason).readyState ≠ .opened := by
  unfold close
  split_ifs with h
  · simp
  · exact h

theorem close_readyState_connecting_iff :
    (c.close code reason).readyState = .connecting ↔ c.readyState = .connecting := by
  unfold close
  split_ifs with h
  · simp [h]
  · exact Iff.rfl

theorem mem_send {c : Connection} {frame f : HubFrame} (h : f ∈ (c.send frame).sent) :
    f ∈ c.sent ∨ f = frame ∧ c.readyState = .opened := by
  unfold send at h
  split_ifs at h with ho
  · rcases List.mem_append.1 h with hm | hm
    · exact Or.inl hm
    · exact Or.inr ⟨List.mem_singleton.1 hm, ho⟩
  · exact Or.inl h

theorem mem_close {c : Connection} {code : ℕ} {reason : String} {f : HubFrame}
    (h : f ∈ (c.close code reason).sent) : f ∈ c.sent ∨ f = .close code reason := by
  unfold close at h
  split_ifs at h
  · exact (List.mem_append.1 h).imp_right List.mem_singleton.1
  · exact Or.inl h

end Connection

namespace Hub

variable {h : Hub} {machineId : List Char} {k k' : ℕ}

theorem onSocket_sockets (h : Hub) (k k' : ℕ) (f : Connection → Connection) :
    (h.onSocket k f).sockets k' = if k' = k then f (h.sockets k) else h.sockets k' := by
  unfold onSocket
  simp only [Function.update_apply]

@[simp] theorem onSocket_agentSockets (f : Connection → Connection) :
    (h.onSocket k f).agentSockets = h.agentSockets := rfl

@[simp] theorem onSocket_operatorSockets (f : Connection → Connection) :
    (h.onSocket k f).operatorSockets = h.operatorSockets := rfl

@[simp] theorem onSocket_broadcasts (f : Connection → Connection) :
    (h.onSocket k f).broadcasts = h.broadcasts := rfl

theorem registerAgent_agentSockets (h : Hub) (machineId : List Char) (k : ℕ) :
    (h.registerAgent machineId k).agentSockets =
      Function.update h.agentSockets machineId (some k) := by
  unfold registerAgent
  dsimp only
  split
  · split_ifs <;> rfl
  · rfl

@[simp] theorem registerAgent_operatorSockets :
    (h.registerAgent machineId k).operatorSockets = h.operatorSockets := by
  unfold registerAgent
  dsimp only
  split
  · split_ifs <;> rfl
  · rfl

@[simp] theorem registerAgent_broadcasts :
    (h.registerAgent machineId k).broadcasts = h.broadcasts := by
  unfold registerAgent
  dsimp only
  split
  · split_ifs <;> rfl
  · rfl

theorem registerAgent_sockets (h : Hub) (machineId : List Char) (k k' : ℕ) :
    (h.registerAgent machineId k).sockets k' = if h.agentSockets machineId = some k' ∧ k' ≠ k then
      (h.sockets k').close 4000 "Replaced by newer connection" else h.sockets k' := by
  unfold registerAgent
  cases hold : h.agentSockets machineId with
  | none => simp
  | some existing =>
    by_cases hne : existing = k
    · subst hne
      simp only [ne_eq, not_true_eq_false, if_false, Option.some.injEq]
      rw [if_neg fun h => h.2 h.1.symm]
    · simp only [ne_eq, hne, not_false_eq_true, if_true, Option.some.injEq]
      rw [onSocket_sockets]
      by_cases hk : k' = existing
      · subst hk
        simp [hne]
      · simp [hk, Ne.symm hk]

theorem sendToMachine_sockets (h : Hub) (machineId : List Char) (message : ServerToAgentMessage)
    (k' : ℕ) :
    (h.sendToMachine machineId message).sockets k' = if h.agentSockets machineId = some k' then
      (h.sockets k').send (.toAgent machineId message) else h.sockets k' := by
  unfold sendToMachine
  cases hold : h.agentSockets machineId with
  | none => simp
  | some k =>
    simp only [onSocket_sockets, Option.some.injEq]
    by_cases hk : k' = k
    · subst hk
      simp
    · simp [hk, Ne.symm hk]

theorem disconnectMachine_sockets (h : Hub) (machineId : List Char) (code : ℕ) (reason : String)
    (k' : ℕ) :
    (h.disconnectMachine machineId code reason).sockets k' =
      if h.agentSockets machineId = some k' then (h.sockets k').close code reason
      else h.sockets k' := by
  unfold disconnectMachine
  cases hold : h.agentSockets machineId with
  | none => simp
  | some k =>
    simp only [onSocket_sockets, Option.some.injEq]
    by_cases hk : k' = k
    · subst hk
      simp
    · simp [hk, Ne.symm hk]

theorem disconnectMachine_agentSockets (h : Hub) (machineId : List Char) (code : ℕ) (reason : String) :
    (h.disconnectMachine machineId code reason).agentSockets =
      Function.update h.agentSockets machineId none := by
  unfold disconnectMachine
  cases hold : h.agentSockets machineId with
  | none =>
    have hsame := Function.update_eq_self machineId h.agentSockets
    rw [hold] at hsame
    exact hsame.symm
  | some k => rfl

/-- The loop of a broadcast sends once to each socket of the set. -/
theorem broadcastToOperators_sockets (h : Hub) (hnodup : h.operatorSockets.Nodup)
    (machineId : List Char) (message : ServerToOperatorMessage) (k' : ℕ) :
    (h.broadcastToOperators machineId message).sockets k' = if k' ∈ h.operatorSockets then
      (h.sockets k').send (.toOperator machineId message) else h.sockets k' := by
  have hloop : ∀ (ks : List ℕ), ks.Nodup → ∀ h : Hub,
      (ks.foldl (fun h k => h.onSocket k fun c => c.send (.toOperator machineId message)) h).sockets k' =
        if k' ∈ ks then (h.sockets k').send (.toOperator machineId message) else h.sockets k' := by
    intro ks
    induction ks with
    | nil => exact fun _ _ => rfl
    | cons k ks ih =>
      intro hks h
      obtain ⟨hk, hks⟩ := List.nodup_cons.1 hks
      rw [List.foldl_cons, ih hks, onSocket_sockets]
      by_cases hkk : k' = k
      · subst hkk
        simp [hk]
      · simp [hkk]
  exact hloop h.operatorSockets hnodup h

theorem broadcastToOperators_fields (h : Hub) (machineId : List Char)
    (message : ServerToOperatorMessage) :
    (h.broadcastToOperators machineId message).agentSockets = h.agentSockets ∧
      (h.broadcastToOperators machineId message).operatorSockets = h.operatorSockets ∧
      (h.broadcastToOperators machineId message).broadcasts =
        h.broadcasts ++ [(machineId, message)] := by
  have hloop : ∀ (ks : List ℕ) (h : Hub),
      (ks.foldl (fun h k => h.onSocket k fun c => c.send (.toOperator machineId message)) h).agentSockets
        = h.agentSockets ∧
      (ks.foldl (fun h k => h.onSocket k fun c => c.send (.toOperator machineId message)) h).operatorSockets
        = h.operatorSockets ∧
      (ks.foldl (fun h k => h.onSocket k fun c => c.send (.toOperator machineId message)) h).broadcasts
        = h.broadcasts := by
    intro ks
    induction ks with
    | nil => exact fun _ => ⟨rfl, rfl, rfl⟩
    | cons k ks ih => exact fun h => ih (h.onSocket k _)
  obtain ⟨hagents, hoperators, hbroadcasts⟩ := hloop h.operatorSockets h
  exact ⟨hagents, hoperators, congrArg (· ++ [(machineId, message)]) hbroadcasts⟩

theorem registerOperator_fields (h : Hub) (k : ℕ) :
    (h.registerOperator k).agentSockets = h.agentSockets ∧
      (h.registerOperator k).sockets = h.sockets ∧
      (h.registerOperator k).broadcasts = h.broadcasts := by
  unfold registerOperator
  split_ifs <;> exact ⟨rfl, rfl, rfl⟩

theorem mem_registerOperator_iff :
    k' ∈ (h.registerOperator k).operatorSockets ↔ k' ∈ h.operatorSockets ∨ k' = k := by
  unfold registerOperator
  split_ifs with hmem
  · exact ⟨Or.inl, fun hk => hk.elim id fun hk => hk ▸ hmem⟩
  · rw [List.mem_append, List.mem_singleton]

theorem nodup_registerOperator (hnodup : h.operatorSockets.Nodup) :
    (h.registerOperator k).operatorSockets.Nodup := by
  unfold registerOperator
  split_ifs with hmem
  · exact hnodup
  · exact List.nodup_append.2 ⟨hnodup, List.nodup_singleton k, fun a ha b hb => by
      rintro rfl
      exact hmem (List.mem_singleton.1 hb ▸ ha)⟩

end Hub

end Taymna.Api
