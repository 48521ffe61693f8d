import Taymna.Agent.Computer

/-!
# The decommissioned flag, in all its places

The flag exists five times: in `state.json`, in the state the run loop holds, in the loop's own
local, in the command channel and in the connection task. `Computer.Sound` says how they agree at
every point of an iteration, and is what every step preserves.
-/

namespace Taymna.Agent

open Automata

/-- The flag as a start would read it. -/
def StateFile.decommissioned : StateFile → Bool
  | .readable state => state.decommissioned
  | _ => false

/-- `accept_decommission` has set the flag in memory, and its save is not complete. -/
def Pc.accepting : Pc → Bool
  | .save .accept | .rename .accept => true
  | _ => false

/-- `accept_decommission` has saved, and has not yet returned. -/
def Pc.accepted : Pc → Bool
  | .acceptWarn | .acceptAck => true
  | _ => false

/-- The places in the loop that a decommissioned agent reaches. -/
def Pc.quiet : Pc → Bool
  | .select | .save .exit | .rename .exit => true
  | _ => false

/-! ## The flags agree -/

/-- The agreement of the flags in the loop's state, in its local and on disk. -/
structure RunLoop.Sound (disk : Disk) (r : RunLoop) : Prop where
  memory : r.state.decommissioned = (r.decommissioned || r.pc.accepting || r.pc.accepted)
  durable : disk.stateJson.decommissioned = (r.decommissioned || r.pc.accepted)
  quiet : r.decommissioned = true → r.pc.quiet = true
  written : ∀ next, r.pc = .rename next → disk.tmp = .readable r.state

def Host.Sound (h : Host) : Prop := ∀ r, h.process = .running r → r.Sound h.disk

/-- A step that moves none of the flags, to a place where nothing waits to be renamed. -/
theorem RunLoop.Sound.move {disk : Disk} {r r' : RunLoop} (hs : r.Sound disk)
    (hstate : r'.state.decommissioned = r.state.decommissioned)
    (hflag : r'.decommissioned = r.decommissioned) (haccepting : r'.pc.accepting = r.pc.accepting)
    (haccepted : r'.pc.accepted = r.pc.accepted)
    (hquiet : r.decommissioned = true → r'.pc.quiet = true)
    (hpc : ∀ next, r'.pc ≠ .rename next) : r'.Sound disk where
  memory := by rw [hstate, hflag, haccepting, haccepted, hs.memory]
  durable := by rw [hflag, haccepted, hs.durable]
  quiet := fun h => hquiet (hflag ▸ h)
  written := fun next h => absurd h (hpc next)

theorem RunLoop.sound_start {disk : Disk} {state : AgentState}
    (hd : disk.stateJson = .readable state) (instant : ℕ) :
    (RunLoop.start state instant).Sound disk where
  memory := by simp [RunLoop.start, Pc.accepting, Pc.accepted]
  durable := by simp [RunLoop.start, Pc.accepted, StateFile.decommissioned, hd]
  quiet := fun _ => rfl
  written := fun next h => by cases h

theorem RunLoop.Sound.onEvent {disk : Disk} {r : RunLoop} (hs : r.Sound disk) (hpc : r.pc = .select)
    (event : ServerEvent) (instant : ℕ) : (r.onEvent event instant).Sound disk := by
  rcases hd : r.decommissioned with _ | _
  · unfold RunLoop.onEvent
    rw [if_neg (by simp [hd])]
    cases event with
    | decommission =>
      exact {
        memory := by simp [Pc.accepting]
        durable := by simpa [hpc, Pc.accepted] using hs.durable
        quiet := fun h => absurd h (by simp [hd])
        written := fun next h => by cases h }
    | sessionState session messageTime =>
      dsimp only
      split_ifs
      · exact hs.move rfl rfl (by simp [hpc, Pc.accepting]) (by simp [hpc, Pc.accepted])
          (fun h => absurd h (by simp [hd])) (by simp)
      · exact hs.move rfl rfl rfl rfl (fun _ => by simp [hpc, Pc.quiet]) (by simp [hpc])
    | serverTime time =>
      exact hs.move rfl rfl rfl rfl (fun _ => by simp [RunLoop.resync, hpc, Pc.quiet])
        (by simp [RunLoop.resync, hpc])
  · rwa [RunLoop.onEvent_of_decommissioned hd]

theorem RunLoop.Sound.onTick {disk : Disk} {r : RunLoop} (hs : r.Sound disk) (hpc : r.pc = .select)
    (osNow : ℤ) (instants : Instants) : (r.onTick osNow instants).1.Sound disk := by
  rcases hd : r.decommissioned with _ | _
  · unfold RunLoop.onTick
    rw [if_neg (by simp [hd])]
    exact hs.move rfl rfl (by simp [hpc, Pc.accepting]) (by simp [hpc, Pc.accepted])
      (fun h => absurd h (by simp [hd])) (by simp)
  · rwa [RunLoop.onTick_of_decommissioned hd]

theorem Host.Sound.of_running {disk : Disk} {r : RunLoop} (h : r.Sound disk) :
    Host.Sound ⟨disk, .running r⟩ := fun r' hr => by
  obtain rfl := Process.running.inj hr
  exact h

theorem Host.sound_stopped (disk : Disk) : Host.Sound ⟨disk, .stopped⟩ := fun r hr => by cases hr

theorem Host.Sound.step {h h' : Host} {label : Host.Label} {effects : List Effect} (hs : h.Sound)
    (hstep : Host.step h label = some (h', effects)) : h'.Sound := by
  cases Host.step_cases hstep with
  | start hb =>
    cases hb with
    | inert => exact fun r hr => by cases hr
    | running hd => exact .of_running (RunLoop.sound_start hd _)
  | crash | shutdownInert | renameExit | enroll => exact Host.sound_stopped _
  | @shutdown disk r hpc =>
    have hr : r.Sound disk := hs r rfl
    exact .of_running (hr.move rfl rfl (by simp [hpc, Pc.accepting]) (by simp [hpc, Pc.accepted])
      (fun _ => rfl) (by simp))
  | event hpc => exact .of_running ((hs _ rfl).onEvent hpc _ _)
  | @closed disk r instant hpc =>
    have hr : r.Sound disk := hs r rfl
    exact .of_running (hr.move rfl rfl rfl rfl hr.quiet (by simp [hpc]))
  | tick hpc => exact .of_running ((hs _ rfl).onTick hpc _ _)
  | @warn disk r trustedNow hpc =>
    have hr : r.Sound disk := hs r rfl
    exact .of_running (hr.move rfl rfl (by simp [hpc, Pc.accepting]) (by simp [hpc, Pc.accepted])
      (fun hd => absurd (hr.quiet hd) (by simp [hpc, Pc.quiet])) (by simp))
  | @save disk r next hpc =>
    have hr : r.Sound disk := hs r rfl
    refine .of_running ⟨?_, ?_, ?_, fun _ _ => rfl⟩
    · rw [hr.memory, hpc]
      cases next <;> simp [Pc.accepting, Pc.accepted]
    · simpa [hpc, Pc.accepted] using hr.durable
    · intro hd
      have hq := hr.quiet hd
      rw [hpc] at hq
      cases next <;> simp_all [Pc.quiet]
  | @renameLoop disk r hpc =>
    have hr : r.Sound disk := hs r rfl
    refine .of_running ⟨?_, ?_, fun _ => rfl, by simp⟩
    · simpa [hpc, Pc.accepting, Pc.accepted] using hr.memory
    · rw [Store.rename_stateJson, hr.written _ hpc]
      simpa [StateFile.decommissioned, hpc, Pc.accepting, Pc.accepted] using hr.memory
  | @renameAccept disk r hpc =>
    have hr : r.Sound disk := hs r rfl
    have hd : r.decommissioned ≠ true := fun h => absurd (hr.quiet h) (by simp [hpc, Pc.quiet])
    refine .of_running ⟨?_, ?_, fun h => absurd h hd, by simp⟩
    · simpa [hpc, Pc.accepting, Pc.accepted] using hr.memory
    · rw [Store.rename_stateJson, hr.written _ hpc]
      simpa [StateFile.decommissioned, hpc, Pc.accepting, Pc.accepted] using hr.memory
  | @acceptWarn disk r hpc =>
    have hr : r.Sound disk := hs r rfl
    exact .of_running (hr.move rfl rfl (by simp [hpc, Pc.accepting]) (by simp [hpc, Pc.accepted])
      (fun hd => absurd (hr.quiet hd) (by simp [hpc, Pc.quiet])) (by simp))
  | @acceptAck disk r hpc =>
    have hr : r.Sound disk := hs r rfl
    refine .of_running ⟨?_, ?_, fun _ => rfl, by simp⟩
    · simpa [hpc, Pc.accepting, Pc.accepted] using hr.memory
    · simpa [hpc, Pc.accepted] using hr.durable

/-- `state.json` records the decommission. -/
def Host.Durable (h : Host) : Prop := h.disk.stateJson.decommissioned = true

instance (h : Host) : Decidable h.Durable := inferInstanceAs (Decidable (_ = true))

/-- Only an enrolment takes the record of a decommission away. -/
theorem Host.Durable.step {h h' : Host} {label : Host.Label} {effects : List Effect}
    (hd : h.Durable) (hs : h.Sound) (hstep : Host.step h label = some (h', effects))
    (hl : ∀ credentials now, label ≠ .enroll credentials now) : h'.Durable := by
  have renamed : ∀ {disk : Disk} {r : RunLoop} {next : AfterSave}, r.Sound disk →
      r.pc = .rename next → disk.stateJson.decommissioned = true →
      (Store.rename disk).stateJson.decommissioned = true := by
    intro disk r next hr hpc hd
    rw [Store.rename_stateJson, hr.written _ hpc]
    change r.state.decommissioned = true
    rw [hr.durable, hpc] at hd
    simpa [hpc, Pc.accepted] using hr.memory.trans (by simpa [hpc, Pc.accepted] using Or.inl hd)
  cases Host.step_cases hstep with
  | start | shutdownInert | shutdown | event | closed | tick | warn | save | acceptWarn | acceptAck =>
    exact hd
  | @crash _ torn =>
    unfold Host.Durable Host.crashed
    split
    · split
      · split_ifs
        · exact hd
        · exact hd
      · exact hd
    · exact hd
  | renameLoop hpc => exact renamed (hs _ rfl) hpc hd
  | renameAccept hpc => exact renamed (hs _ rfl) hpc hd
  | renameExit hpc => exact renamed (hs _ rfl) hpc hd
  | enroll => exact absurd rfl (hl _ _)

/-- A running loop's own flag is set only once the decommission is on disk. -/
theorem Host.Sound.durable_of_decommissioned {h : Host} (hs : h.Sound) {r : RunLoop}
    (hr : h.process = .running r) (hd : r.decommissioned = true) : h.Durable := by
  rw [Host.Durable, (hs r hr).durable, hd, Bool.true_or]

/-- The agreement of the flags of the host with those of the link. -/
structure Computer.Sound (c : Computer) : Prop where
  host : c.host.Sound
  link : ∀ r, c.host.process = .running r →
    r.decommissioned = (c.link.ackDecommission || !c.link.commands.isEmpty)
  idle : (∀ r, c.host.process ≠ .running r) → c.link = Link.new

namespace Computer

variable {Text : Type*} {fromStr : Text → Option ServerToAgent}

theorem acks_eq_nil {effects : List Effect} (h : .ackDecommission ∉ effects) : acks effects = [] := by
  refine List.filterMap_eq_nil_iff.2 fun e he => ?_
  cases e <;> first | rfl | exact absurd he h

theorem ackDecommission_not_mem_onTick (r : RunLoop) (osNow : ℤ) (instants : Instants) :
    .ackDecommission ∉ (r.onTick osNow instants).2 := by
  unfold RunLoop.onTick
  split_ifs
  · simp
  · dsimp only
    unfold RunLoop.enforce
    split <;> simp

@[simp] theorem onTick_decommissioned (r : RunLoop) (osNow : ℤ) (instants : Instants) :
    (r.onTick osNow instants).1.decommissioned = r.decommissioned := by
  unfold RunLoop.onTick
  split_ifs <;> rfl

/-- The link keeps its acknowledgement flags when the run loop goes on without allowing one. -/
theorem relink_flags {l : Link} {label : Host.Label} {r : RunLoop} {effects : List Effect}
    (hl : ∀ now instant, label ≠ .start now instant) (he : .ackDecommission ∉ effects) :
    (relink l label (.running r) effects).ackDecommission = l.ackDecommission ∧
      (relink l label (.running r) effects).commands = l.commands := by
  cases label with
  | start now instant => exact absurd rfl (hl now instant)
  | event event instant => cases event <;> simp [relink, acks_eq_nil he]
  | _ => simp [relink, acks_eq_nil he]

theorem Sound.relink_of_running {c : Computer} (hs : c.Sound) {label : Host.Label} {r r' : RunLoop}
    {effects : List Effect} (hr : c.host.process = .running r)
    (hflag : r'.decommissioned = r.decommissioned)
    (hl : ∀ now instant, label ≠ .start now instant) (he : .ackDecommission ∉ effects) :
    r'.decommissioned = ((relink c.link label (.running r') effects).ackDecommission ||
      !(relink c.link label (.running r') effects).commands.isEmpty) := by
  obtain ⟨hack, hcommands⟩ := relink_flags (l := c.link) (r := r') hl he
  rw [hack, hcommands, hflag, hs.link r hr]

theorem Sound.hostStep {c : Computer} (hs : c.Sound) {label : Host.Label} {host : Host}
    {effects : List Effect} (h : Host.step c.host label = some (host, effects)) :
    Sound ⟨host, relink c.link label host.process effects⟩ where
  host := hs.host.step h
  idle hidle := by
    unfold relink
    split
    · rename_i r hr
      exact absurd hr (hidle r)
    · rfl
  link r hr := by
    obtain ⟨⟨disk, process⟩, link⟩ := c
    dsimp only at hr h ⊢
    rw [hr]
    cases Host.step_cases h with
    | start hb =>
      cases hb with
      | inert => cases hr
      | @running state =>
        obtain rfl := Process.running.inj hr
        rcases hd : state.decommissioned with _ | _ <;> simp [relink, acks, RunLoop.start, hd, Link.new]
    | crash | shutdownInert | renameExit | enroll => cases hr
    | acceptAck =>
      obtain rfl := Process.running.inj hr
      simp [relink, acks]
    | event | closed =>
      obtain rfl := Process.running.inj hr
      exact hs.relink_of_running rfl (by simp) (by simp) (by simp)
    | tick =>
      obtain rfl := Process.running.inj hr
      exact hs.relink_of_running rfl (by simp) (by simp) (ackDecommission_not_mem_onTick _ _ _)
    | shutdown | warn | save | renameLoop | renameAccept | acceptWarn =>
      obtain rfl := Process.running.inj hr
      exact hs.relink_of_running rfl rfl (by simp) (by simp)

/-- A turn of the connection task never drops its permission to acknowledge, nor gains one. -/
theorem linkStep_flags {l l' : Link} {label : Link.Label Text} {frames : List AgentToServer}
    (h : Link.step fromStr l label = some (l', frames)) :
    (l'.ackDecommission || !l'.commands.isEmpty) = (l.ackDecommission || !l.commands.isEmpty) := by
  cases Link.step_cases h with
  | connect => simp
  | text => simp
  | close => simp
  | lost => simp
  | command hc hm => simp [hm]
  | heartbeat => rfl

theorem Sound.step {c c' : Computer} {label : Label Text} {outs : List Output} (hs : c.Sound)
    (h : step fromStr c label = some (c', outs)) : c'.Sound := by
  rcases step_cases h with ⟨l, host, effects, -, hh, -, rfl, -⟩ |
    ⟨l, r, link, frames, -, hr, hl, rfl, -⟩
  · exact hs.hostStep hh
  · exact {
      host := hs.host
      link := fun r' hr' => (hs.link r' hr').trans (linkStep_flags hl).symm
      idle := fun hidle => absurd hr (hidle r) }

theorem sound_off (disk : Disk) : (off disk).Sound where
  host := Host.sound_stopped disk
  link := fun r hr => by cases hr
  idle := fun _ => rfl

theorem sound_run {disk : Disk} {es : List (Label Text)} {c : Computer}
    (h : run (silent (step fromStr)) (off disk) es = some c) : c.Sound := by
  refine run_invariant (fun s e t hs ht => ?_) (sound_off disk) h
  obtain ⟨os, ho⟩ := silent_eq_some.1 ht
  exact hs.step ho

end Computer

end Taymna.Agent
