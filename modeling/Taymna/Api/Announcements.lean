import Taymna.Api.Server

/-!
# What the operators are told of a removal

Three places in the code broadcast `machine_decommissioning` or `machine_removed`, each in the step
after the query that it reports. `Call.announcement` is what a call is about to broadcast of this
kind. -/

namespace Taymna.Api

variable {Hash : Type*}

/-- The message is about the removal of the machine. -/
def ServerToOperatorMessage.aboutRemoval : ServerToOperatorMessage → Bool
  | .machineDecommissioning | .machineRemoved => true
  | .machineUpdated _ _ _ | .sessionUpdated _ => false

/-- What the next step of the call broadcasts of the removal. -/
def Call.announcement : Call Hash → Option ServerToOperatorMessage
  | .requestDecommission (.marked (some _)) => some .machineDecommissioning
  | .requestDecommission (.deleted true) => some .machineRemoved
  | .message _ (.deleted count) => if count = 0 then none else some .machineRemoved
  | _ => none

theorem Call.announcement_of_returned {c : Call Hash} (hc : c.returned = true) :
    c.announcement = none := by
  cases c with
  | requestDecommission pc => cases pc <;> first | rfl | cases hc
  | message k pc => cases pc <;> first | rfl | cases hc
  | authenticate | issueEnrollmentToken | enroll | revokeCredential | start | edit => rfl

namespace World

variable (w : World Hash)

@[simp] theorem read_operators (wait : ℤ) : (w.read wait).operators = w.operators := rfl

@[simp] theorem onSocket_operators (k : ℕ) (f : Socket → Socket) :
    (w.onSocket k f).operators = w.operators := rfl

@[simp] theorem broadcastToOperators_operators (message : ServerToOperatorMessage) :
    (w.broadcastToOperators message).operators = w.operators ++ [message] := rfl

@[simp] theorem registerAgent_operators (k : ℕ) : (w.registerAgent k).operators = w.operators := by
  unfold registerAgent
  split
  · split_ifs <;> rfl
  · rfl

@[simp] theorem sendToMachine_operators (message : ServerToAgentMessage) :
    (w.sendToMachine message).operators = w.operators := by
  unfold sendToMachine
  split <;> rfl

@[simp] theorem disconnectMachine_operators (code : ℕ) (reason : String) :
    (w.disconnectMachine code reason).operators = w.operators := by
  unfold disconnectMachine
  split <;> rfl

end World

/-- From `w` to `w'`, the operators are told `ms` of the removal, and anything else. -/
def Tells (ms : List ServerToOperatorMessage) (w w' : World Hash) : Prop :=
  ∃ told, w'.operators = w.operators ++ told ∧ told.filter ServerToOperatorMessage.aboutRemoval = ms

theorem Tells.nothing {w w' : World Hash} (h : w'.operators = w.operators) : Tells [] w w' :=
  ⟨[], by simpa using h, rfl⟩

theorem Tells.one {ms : List ServerToOperatorMessage} {w w' : World Hash}
    {m : ServerToOperatorMessage} (h : w'.operators = w.operators ++ [m])
    (hm : [m].filter ServerToOperatorMessage.aboutRemoval = ms) : Tells ms w w' := ⟨[m], h, hm⟩

/-- A message about the removal is broadcast as often as it is announced. -/
theorem Tells.count_eq {ms : List ServerToOperatorMessage} {w w' : World Hash} (h : Tells ms w w')
    {m : ServerToOperatorMessage} (hm : m.aboutRemoval = true) :
    w'.operators.count m = w.operators.count m + ms.count m := by
  obtain ⟨told, htold, rfl⟩ := h
  rw [htold, List.count_append, List.count_filter hm]

theorem SessionStep.tells {w w' : World Hash} (h : SessionStep w w') : Tells [] w w' := by
  cases h with
  | rows => exact .nothing rfl
  | push => exact .one (by simp [pushSessionUpdate]; rfl) rfl

/-- A step broadcasts what the call was about to broadcast. -/
theorem tells_of_step [Argon2 Hash] {w w' : World Hash} {c c' : Call Hash} {input : Input}
    (h : Server.Step w input c w' c') : Tells c.announcement.toList w w' := by
  cases h with
  | authenticate h =>
    cases h with
    | beaten => exact .one rfl rfl
    | query hq =>
      obtain ⟨clock, sessions, rfl⟩ := GetActiveSession.step_world hq
      exact .nothing rfl
    | accept => exact .nothing (by simp [Authenticate.accept])
    | find | unknown | revoked | found | verifying | reject | heartbeat | failed | pending | tell
    | managed | push => exact .nothing rfl
  | message h =>
    cases h with
    | beaten => exact .one rfl rfl
    | @deleted count =>
      by_cases hcount : count = 0
      · simpa [Call.announcement, World.finalized, hcount] using Tells.nothing (w := w) rfl
      · exact .one (m := .machineRemoved) (by simp [World.finalized, hcount])
          (by simp [Call.announcement, hcount, ServerToOperatorMessage.aboutRemoval])
    | heartbeat | failed | delete | deleteNone => exact .nothing rfl
  | requestDecommission h =>
    cases h with
    | removed => exact .one rfl rfl
    | marked => exact .one (by simp [RequestDecommission.deliver]; rfl) rfl
    | query hq =>
      obtain ⟨clock, sessions, rfl⟩ := GetActiveSession.step_world hq
      exact .nothing rfl
    | remove => exact .nothing (by simp)
    | redeliver => exact .nothing (by simp [RequestDecommission.deliver])
    | find | notFound | request | delete | deleteFailed | deleteRejected | mark | markRejected
    | done => exact .nothing rfl
  | issueEnrollmentToken h =>
    obtain ⟨clock, tokens, rfl | ⟨-, rfl⟩⟩ := IssueEnrollmentToken.step_world h <;>
      exact .nothing rfl
  | enroll h => cases h <;> exact .nothing rfl
  | revokeCredential h =>
    cases h with
    | query hq =>
      obtain ⟨clock, sessions, rfl⟩ := GetActiveSession.step_world hq
      exact .nothing rfl
    | updated => exact .nothing (by simp)
    | update | rejected | done => exact .nothing rfl
  | start h => exact (StartSession.sessionStep h).tells
  | edit h => exact (EditSession.sessionStep h).tells

/-- No event broadcasts anything. -/
theorem operators_of_event {w w' : World Hash} {e : Event} {cs : List (Call Hash)}
    (h : Server.EventStep w e w' cs) : w'.operators = w.operators := by
  obtain ⟨clock, agentSocket, sockets, rfl⟩ := h.world
  rfl

/-- No event starts a call with a broadcast. -/
theorem Server.Made.announcement {c : Call Hash} (h : Server.Made c) : c.announcement = none := by
  cases h <;> rfl

end Taymna.Api
