import Taymna.Api.Server

/-!
# What happens to the machine's row

Seven things can happen to the row of `machines` in one step of the API, and each comes from one
place in the code. Every invariant about the row is proved from this list.
-/

namespace Taymna.Api

variable {Hash : Type*}

/-- What a step of a call does to the row. -/
inductive RowStep : Call Hash → Option (Machine Hash) → Option (Machine Hash) → Prop
  | keep {c row} : RowStep c row row
  | heartbeat {c m} (now : ℤ) (agentVersion : Option String) :
      RowStep c (some m) (some (m.heartbeat now agentVersion))
  | mark {now m} : RowStep (.requestDecommission (.mark now)) (some m) (some (m.mark now))
  | enrolled {record machineSecret hash usedAt m} :
      RowStep (.enroll (.transaction record machineSecret hash usedAt)) (some m) (some (m.enrolled hash))
  | revoked {now m} : RowStep (.revokeCredential (.update now)) (some m) (some (m.revoked now))
  | deleted {m} : RowStep (.requestDecommission .delete) (some m) none
  | finalized {k m} : m.isPending = true → RowStep (.message k .finalize) (some m) none

/-- The token that the step of the call redeems. -/
def Call.redeems (w : World Hash) : Call Hash → Option (EnrollmentToken Hash)
  | .enroll (.transaction record _ _ _) => if Enroll.Commits w record then some record else none
  | _ => none

theorem Call.redeems_eq_some {w : World Hash} {c : Call Hash} {record : EnrollmentToken Hash} :
    c.redeems w = some record ↔ Enroll.Commits w record ∧
      ∃ machineSecret hash usedAt, c = .enroll (.transaction record machineSecret hash usedAt) := by
  constructor
  · intro h
    cases c with
    | enroll pc =>
      cases pc with
      | transaction record' machineSecret hash usedAt =>
        simp only [redeems, Option.ite_none_right_eq_some, Option.some.injEq] at h
        obtain ⟨hcommits, rfl⟩ := h
        exact ⟨hcommits, _, _, _, rfl⟩
      | _ => cases h
    | _ => cases h
  · rintro ⟨hcommits, _, _, _, rfl⟩
    exact if_pos hcommits

theorem SessionStep.machine {w w' : World Hash} (h : SessionStep w w') : w'.machine = w.machine := by
  cases h with
  | rows => rfl
  | push => simp [pushSessionUpdate]

theorem GetActiveSession.step_machine {w w' : World Hash} {input : Input} {pc pc' : GetActiveSession}
    (h : pc.step w input = some (w', pc')) : w'.machine = w.machine := by
  obtain ⟨clock, sessions, rfl⟩ := step_world h
  rfl

/-- Every step of a call is one of these for the row. -/
theorem rowStep_of_step [Argon2 Hash] {w w' : World Hash} {c c' : Call Hash} {input : Input}
    (h : Server.Step w input c w' c') : RowStep c w.machine w'.machine := by
  have keep : ∀ {c : Call Hash} {row : Option (Machine Hash)}, row = w.machine →
      RowStep c w.machine row := fun he => he ▸ .keep
  have beat : ∀ {c : Call Hash} {now : ℤ} {agentVersion : Option String},
      RowStep c w.machine (w.machine.map fun m => m.heartbeat now agentVersion) := by
    intro c now agentVersion
    cases w.machine with
    | none => exact .keep
    | some m => exact .heartbeat now agentVersion
  cases h with
  | authenticate h =>
    cases h with
    | heartbeat => exact beat
    | query hq => exact keep (GetActiveSession.step_machine hq)
    | accept => exact keep (by simp [Authenticate.accept])
    | find | unknown | revoked | found | verifying | reject | failed | beaten | pending | tell
    | managed | push => exact keep rfl
  | message h =>
    cases h with
    | heartbeat => exact beat
    | delete hm hp =>
      rw [hm]
      exact .finalized hp
    | deleted =>
      refine keep ?_
      unfold World.finalized
      split_ifs <;> simp
    | failed | beaten | deleteNone => exact keep rfl
  | requestDecommission h =>
    cases h with
    | mark =>
      cases hm : w.machine with
      | none =>
        simp only [World.updateMachine, hm, Option.map_none]
        exact .keep
      | some m =>
        simp only [World.updateMachine, hm, Option.map_some]
        exact .mark
    | delete hm =>
      rw [hm]
      exact .deleted
    | query hq => exact keep (GetActiveSession.step_machine hq)
    | remove => exact keep (by simp)
    | redeliver | marked => exact keep (by simp [RequestDecommission.deliver])
    | find | notFound | request | deleteFailed | removed | deleteRejected | markRejected | done =>
      exact keep rfl
  | issueEnrollmentToken h =>
    obtain ⟨clock, tokens, rfl | ⟨-, rfl⟩⟩ := IssueEnrollmentToken.step_world h <;> exact keep rfl
  | enroll h =>
    cases h with
    | commit hc =>
      obtain ⟨m, hm⟩ := Option.isSome_iff_exists.1 hc.2
      simp only [Enroll.commit, hm, Option.map_some]
      exact .enrolled
    | find | unknown | used | expired | found | verifying | wrong | verified | hashing | rollback
    | done | failed => exact keep rfl
  | revokeCredential h =>
    cases h with
    | update =>
      cases hm : w.machine with
      | none =>
        simp only [World.updateMachine, hm, Option.map_none]
        exact .keep
      | some m =>
        simp only [World.updateMachine, hm, Option.map_some]
        exact .revoked
    | query hq => exact keep (GetActiveSession.step_machine hq)
    | updated => exact keep (by simp)
    | rejected | done => exact keep rfl
  | start h => exact keep (StartSession.sessionStep h).machine
  | edit h => exact keep (EditSession.sessionStep h).machine

/-- No step brings a row back. -/
theorem machine_eq_none_of_step [Argon2 Hash] {w w' : World Hash} {c c' : Call Hash} {input : Input}
    (h : Server.Step w input c w' c') (hnone : w.machine = none) : w'.machine = none := by
  have hrow := rowStep_of_step h
  rw [hnone] at hrow
  generalize w'.machine = row at hrow
  cases hrow with
  | keep => rfl

/-- No event touches the row. -/
theorem event_machine {w w' : World Hash} {e : Event} {cs : List (Call Hash)}
    (h : Server.EventStep w e w' cs) : w'.machine = w.machine := by
  obtain ⟨clock, agentSocket, sockets, rfl⟩ := h.world
  rfl

end Taymna.Api
