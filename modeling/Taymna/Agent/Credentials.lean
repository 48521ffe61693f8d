import Taymna.Agent.Flags

/-!
# The credential of a computer

The run loop holds the credential that it was started with, and every save writes it back. So only
an enrolment changes the credential in `state.json`.
-/

namespace Taymna.Agent

/-- The credential that a start would read. -/
def StateFile.credentials : StateFile → Option Credentials
  | .readable state => state.credentials
  | _ => none

/-- A running loop holds the credential of the state file. -/
def Host.Agrees (h : Host) : Prop :=
  ∀ r, h.process = .running r → r.state.credentials = h.disk.stateJson.credentials

theorem RunLoop.onEvent_credentials (r : RunLoop) (event : ServerEvent) (instant : ℕ) :
    (r.onEvent event instant).state.credentials = r.state.credentials := by
  unfold RunLoop.onEvent
  split_ifs
  · rfl
  · cases event with
    | decommission => rfl
    | sessionState session messageTime =>
      dsimp only
      split_ifs <;> rfl
    | serverTime time => rfl

theorem RunLoop.onTick_credentials (r : RunLoop) (osNow : ℤ) (instants : Instants) :
    (r.onTick osNow instants).1.state.credentials = r.state.credentials := by
  unfold RunLoop.onTick
  split_ifs <;> rfl

namespace Host

theorem agrees_stopped (disk : Disk) : Agrees ⟨disk, .stopped⟩ := fun r hr => by cases hr

theorem Agrees.of_running {disk : Disk} {r : RunLoop}
    (h : r.state.credentials = disk.stateJson.credentials) : Agrees ⟨disk, .running r⟩ := fun r' hr => by
  obtain rfl := Process.running.inj hr
  exact h

theorem Agrees.running {disk : Disk} {r : RunLoop} (h : Agrees ⟨disk, .running r⟩) :
    r.state.credentials = disk.stateJson.credentials := h r rfl

/-- Only an enrolment changes the credential. -/
theorem Agrees.step {h h' : Host} {label : Label} {effects : List Effect} (ha : h.Agrees)
    (hs : h.Sound) (hl : ∀ credentials now, label ≠ .enroll credentials now)
    (hstep : Host.step h label = some (h', effects)) :
    h'.Agrees ∧ h'.disk.stateJson.credentials = h.disk.stateJson.credentials := by
  have renamed : ∀ {disk : Disk} {r : RunLoop} {next : AfterSave}, Agrees ⟨disk, .running r⟩ →
      r.Sound disk → r.pc = .rename next →
      (Store.rename disk).stateJson.credentials = r.state.credentials := by
    intro disk r next ha hr hpc
    rw [Store.rename_stateJson, hr.written _ hpc]
    rfl
  cases step_cases hstep with
  | start hb =>
    cases hb with
    | inert => exact ⟨fun r hr => (by cases hr), rfl⟩
    | running hd => exact ⟨.of_running (by rw [hd]; rfl), rfl⟩
  | crash => exact ⟨agrees_stopped _, by simp⟩
  | shutdownInert => exact ⟨agrees_stopped _, rfl⟩
  | enroll => exact absurd rfl (hl _ _)
  | event => exact ⟨.of_running ((RunLoop.onEvent_credentials _ _ _).trans ha.running), rfl⟩
  | tick => exact ⟨.of_running ((RunLoop.onTick_credentials _ _ _).trans ha.running), rfl⟩
  | shutdown | closed | warn | save | acceptWarn | acceptAck =>
    exact ⟨.of_running ha.running, rfl⟩
  | renameExit hpc => exact ⟨agrees_stopped _, (renamed ha (hs _ rfl) hpc).trans ha.running⟩
  | renameLoop hpc | renameAccept hpc =>
    have hdisk := renamed ha (hs _ rfl) hpc
    exact ⟨.of_running hdisk.symm, hdisk.trans ha.running⟩

end Host

/-- The same for a computer, whose connection task knows of no credential but the one it was given. -/
theorem Computer.agrees_of_step {Text : Type*} {fromStr : Text → Option ServerToAgent}
    {c c' : Computer} {label : Label Text} {outs : List Output} (ha : c.host.Agrees) (hs : c.Sound)
    (hl : ∀ credentials now, label ≠ .host (.enroll credentials now))
    (h : step fromStr c label = some (c', outs)) :
    c'.host.Agrees ∧ c'.host.disk.stateJson.credentials = c.host.disk.stateJson.credentials := by
  rcases step_cases h with ⟨l, host, effects, rfl, hh, -, rfl, -⟩ |
    ⟨l, r, link, frames, -, -, -, rfl, -⟩
  · exact ha.step hs.host (fun credentials now hl' => hl credentials now (by rw [hl'])) hh
  · exact ⟨ha, rfl⟩

end Taymna.Agent
