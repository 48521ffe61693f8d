import Taymna.Agent.Flags

/-!
# The connection task keeps trying

`client::run` returns on two close codes. The one for a rejected credential is guarded by the
task's own flag, which `Computer.Sound` ties to the state file. The one for a finalized decommission
is not guarded, so how far the guarantee goes is decided by when that code is received.
-/

namespace Taymna.Agent

open Automata

namespace Computer

variable {Text : Type*} {fromStr : Text → Option ServerToAgent}

/-- A socket is open, and the connection task reads from it. -/
def Reads (c : Computer) : Prop :=
  (∃ r, c.host.process = .running r) ∧ ∃ socket greeted, c.link.connection = .up socket greeted

/-- `client::run` returns in this step only if the decommission is on disk. -/
def ReturnsDurably (fromStr : Text → Option ServerToAgent) (c : Computer) (label : Label Text) :
    Prop :=
  ∀ c', silent (step fromStr) c label = some c' → c.link.connection ≠ .returned →
    c'.link.connection = .returned → c.host.Durable

/-- The connection task is connected or going to reconnect, unless the decommission is on disk. -/
def Reaching (c : Computer) : Prop := c.link.connection = .returned → c.host.Durable

/-- The close code of a finalized decommission is read only once the decommission is on disk. -/
def FinalizedInOrder (c : Computer) (label : Label Text) : Prop :=
  label = .link (.close (some decommissionFinalizedCode)) → c.Reads → c.host.Durable

/-- Reading the finalized code always makes the task return. -/
theorem step_finalized (fromStr : Text → Option ServerToAgent) {c : Computer} (hc : c.Reads) :
    ∃ l, silent (step fromStr) c (.link (.close (some decommissionFinalizedCode))) =
        some ⟨c.host, l⟩ ∧ c.link.connection ≠ .returned ∧ l.connection = .returned := by
  obtain ⟨⟨r, hr⟩, socket, greeted, hup⟩ := hc
  refine ⟨c.link.finish .finalized, ?_, by simp [hup], rfl⟩
  simp [silent, step, hr, Link.step, hup, Link.onClose]

/-- A step makes the task return only from a socket, on one of the two codes. -/
theorem returned_cases {c c' : Computer} {label : Label Text} {outs : List Output}
    (h : step fromStr c label = some (c', outs)) (hne : c.link.connection ≠ .returned)
    (hr : c'.link.connection = .returned) :
    c.Reads ∧ c'.host = c.host ∧ (label = .link (.close (some decommissionFinalizedCode)) ∨
      c.link.ackDecommission = true) := by
  rcases step_cases h with ⟨l, host, effects, -, -, -, rfl, -⟩ |
    ⟨l, r, link, frames, rfl, hrun, hl, rfl, -⟩
  · exfalso
    dsimp only [relink] at hr
    split at hr
    · split at hr
      · cases hr
      · exact hne hr
      · exact hne hr
    · cases hr
  · cases Link.step_cases hl with
    | connect => cases hr
    | text => cases hr
    | lost => cases hr
    | command => exact absurd hr hne
    | heartbeat => exact absurd hr hne
    | close hup =>
      refine ⟨⟨⟨r, hrun⟩, _, _, hup⟩, rfl, ?_⟩
      rcases (Link.onClose_eq_finalized_iff _ _).1
        ((Link.finish_connection_eq_returned_iff _ _).1 hr) with rfl | ⟨hack, -⟩
      · exact Or.inl rfl
      · exact Or.inr hack

/-- The task's own flag is set only once the decommission is on disk. -/
theorem Sound.durable_of_ack {c : Computer} (hs : c.Sound) {r : RunLoop}
    (hr : c.host.process = .running r)
    (hack : (c.link.ackDecommission || !c.link.commands.isEmpty) = true) : c.host.Durable :=
  hs.host.durable_of_decommissioned hr ((hs.link r hr).trans hack)

theorem Sound.returnsDurably {c : Computer} {label : Label Text} (hs : c.Sound)
    (hf : FinalizedInOrder c label) : ReturnsDurably fromStr c label := by
  intro c' hstep hne hret
  obtain ⟨outs, ho⟩ := silent_eq_some.1 hstep
  obtain ⟨hc, -, hcode⟩ := returned_cases ho hne hret
  rcases hcode with rfl | hack
  · exact hf rfl hc
  · obtain ⟨r, hr⟩ := hc.1
    exact hs.durable_of_ack hr (by rw [hack, Bool.true_or])

theorem Reaching.step {c c' : Computer} {label : Label Text} (hc : c.Reaching) (hs : c.Sound)
    (hd : ReturnsDurably fromStr c label) (h : silent (step fromStr) c label = some c') :
    c'.Reaching := by
  intro hret
  obtain ⟨outs, ho⟩ := silent_eq_some.1 h
  by_cases hne : c.link.connection = .returned
  · rcases step_cases ho with
      ⟨l, host, effects, -, hh, -, rfl, -⟩ | ⟨l, r, link, frames, -, -, hl, rfl, -⟩
    · refine (hc hne).step hs.host hh fun credentials now hl => ?_
      -- An enrolment finds the process stopped, and a stopped process has no connection task.
      subst hl
      obtain ⟨-, rfl⟩ := Host.step_enroll_cases hh
      cases hret
    · exact hc hne
  · have hhost := (returned_cases ho hne hret).2.1
    rw [Host.Durable, hhost]
    exact hd c' h hne hret

/-- `client::run` returns only after the decommission is on disk, and while it is not on disk the
task is connected or going to reconnect, in exactly the runs that read the finalized code in
order. -/
theorem client_keeps_trying_iff (fromStr : Text → Option ServerToAgent) (disk : Disk)
    (es : List (Label Text)) :
    (Along (silent (step fromStr)) (ReturnsDurably fromStr) (off disk) es ↔
        Along (silent (step fromStr)) FinalizedInOrder (off disk) es) ∧
      (Along (silent (step fromStr))
          (fun c label => ∀ c', silent (step fromStr) c label = some c' → c'.Reaching)
          (off disk) es ↔
        Along (silent (step fromStr)) FinalizedInOrder (off disk) es) := by
  have keep : ∀ c label c', c.Sound → silent (step fromStr) c label = some c' → c'.Sound :=
    fun c label c' hs h => (silent_eq_some.1 h).elim fun outs ho => hs.step ho
  refine ⟨⟨fun h => h.mono ?_, fun h => ?_⟩, ⟨fun h => h.mono ?_, fun h => ?_⟩⟩
  · rintro c label hd rfl hc
    obtain ⟨l, hl, hne, hret⟩ := step_finalized fromStr hc
    exact hd _ hl hne hret
  · exact along_of_invariant (fun c label c' hs _ hstep => keep c label c' hs hstep)
      (fun c label hs hf => hs.returnsDurably hf) (sound_off disk) h
  · rintro c label hd rfl hc
    obtain ⟨l, hl, -, hret⟩ := step_finalized fromStr hc
    have hreach : Reaching ⟨c.host, l⟩ := hd _ hl
    exact hreach hret
  · refine along_of_invariant (I := fun c => c.Sound ∧ c.Reaching)
      (fun c label c' hs hf hstep => ?_) (fun c label hs hf c' hstep => ?_)
      ⟨sound_off disk, fun hr => by cases hr⟩ h
    · exact ⟨keep c label c' hs.1 hstep, hs.2.step hs.1 (hs.1.returnsDurably hf) hstep⟩
    · exact hs.2.step hs.1 (hs.1.returnsDurably hf) hstep

/-- A managed machine whose socket is closed with the finalized code: the task returns, nothing is
on disk, and the machine goes on enforcing out of reach. -/
theorem client_abandons_managed_machine :
    ¬ Along (silent (step fun _ : String => none)) (ReturnsDurably fun _ => none)
        (off (Host.enrolled ⟨.absent, .absent⟩ ⟨"https://taymna.example.com", "m1", "s1"⟩ 0))
        [.host (.start 0 0), .link (.connect 0), .link (.close (some 4003))] := by
  intro h
  have hd := ((along_cons_iff.1 ((along_cons_iff.1 ((along_cons_iff.1 h).2 _ rfl)).2 _ rfl)).1)
    _ rfl (by decide) (by decide)
  exact absurd hd (by decide)

end Computer

end Taymna.Agent
