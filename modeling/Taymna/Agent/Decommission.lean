import Taymna.Agent.Reconnect

/-!
# A decommissioned agent is inert

The four guarantees of a removal, over every run of one computer: the flag comes from a parsed
`decommission` frame and from nothing else, no acknowledgement leaves before the flag is on disk,
a computer with the flag on disk neither enforces nor warns until it is enrolled again, and a
computer without it goes on enforcing at every tick.
-/

namespace Taymna.Agent

open Automata

/-! ## The session is given up with the flag -/

/-- A state that records a decommission holds no session. -/
def AgentState.Cleared (state : AgentState) : Prop := state.decommissioned = true → state.session = none

/-- No session is held next to the flag, in memory or on disk. -/
structure Host.Cleared (h : Host) : Prop where
  disk : ∀ state, h.disk.stateJson = .readable state → state.Cleared
  memory : ∀ r, h.process = .running r → r.state.Cleared

theorem AgentState.cleared_of_eq_false {state : AgentState} (h : state.decommissioned = false) :
    state.Cleared := fun hd => absurd hd (by simp [h])

/-- In `select`, the local flag is the flag of the state. -/
theorem RunLoop.Sound.memory_of_select {disk : Disk} {r : RunLoop} (hs : r.Sound disk)
    (hpc : r.pc = .select) : r.state.decommissioned = r.decommissioned := by
  simpa [hpc, Pc.accepting, Pc.accepted] using hs.memory

theorem RunLoop.cleared_onEvent {disk : Disk} {r : RunLoop} (hs : r.Sound disk)
    (hpc : r.pc = .select) (hc : r.state.Cleared) (event : ServerEvent) (instant : ℕ) :
    (r.onEvent event instant).state.Cleared := by
  rcases hd : r.decommissioned with _ | _
  · have hm : r.state.decommissioned = false := (hs.memory_of_select hpc).trans hd
    unfold RunLoop.onEvent
    rw [if_neg (by simp [hd])]
    cases event with
    | decommission => exact fun _ => rfl
    | sessionState session messageTime =>
      dsimp only
      split_ifs <;> exact AgentState.cleared_of_eq_false hm
    | serverTime time => exact AgentState.cleared_of_eq_false hm
  · rwa [RunLoop.onEvent_of_decommissioned hd]

theorem RunLoop.cleared_onTick {disk : Disk} {r : RunLoop} (hs : r.Sound disk)
    (hpc : r.pc = .select) (hc : r.state.Cleared) (osNow : ℤ) (instants : Instants) :
    (r.onTick osNow instants).1.state.Cleared := by
  rcases hd : r.decommissioned with _ | _
  · have hm : r.state.decommissioned = false := (hs.memory_of_select hpc).trans hd
    unfold RunLoop.onTick
    rw [if_neg (by simp [hd])]
    exact AgentState.cleared_of_eq_false hm
  · rwa [RunLoop.onTick_of_decommissioned hd]

namespace Host

theorem Cleared.of_running {disk : Disk} {r : RunLoop} (h : Cleared ⟨disk, .running r⟩) :
    r.state.Cleared := h.memory r rfl

theorem Cleared.step {h h' : Host} {label : Label} {effects : List Effect} (hc : h.Cleared)
    (hs : h.Sound) (hstep : Host.step h label = some (h', effects)) : h'.Cleared := by
  have renamed : ∀ {disk : Disk} {r : RunLoop} {next : AfterSave}, Cleared ⟨disk, .running r⟩ →
      r.Sound disk → r.pc = .rename next →
      ∀ state, (Store.rename disk).stateJson = .readable state → state.Cleared := by
    intro disk r next hc hr hpc state hd
    rw [Store.rename_stateJson, hr.written _ hpc] at hd
    obtain rfl := StateFile.readable.inj hd
    exact hc.of_running
  cases step_cases hstep with
  | start hb =>
    refine ⟨hc.disk, fun r hr => ?_⟩
    cases hb with
    | inert => cases hr
    | running hd =>
      obtain rfl := Process.running.inj hr
      exact hc.disk _ hd
  | crash => exact ⟨fun state hd => hc.disk state (by rwa [crashed_stateJson] at hd), by simp⟩
  | shutdownInert => exact ⟨hc.disk, by simp⟩
  | enroll =>
    refine ⟨fun state hd => ?_, by simp⟩
    obtain rfl := StateFile.readable.inj (by simpa [enrolled] using hd)
    exact fun hd => absurd hd (by simp [enrolledState])
  | event hpc =>
    refine ⟨hc.disk, fun r hr => ?_⟩
    obtain rfl := Process.running.inj hr
    exact RunLoop.cleared_onEvent (hs _ rfl) hpc hc.of_running _ _
  | tick hpc =>
    refine ⟨hc.disk, fun r hr => ?_⟩
    obtain rfl := Process.running.inj hr
    exact RunLoop.cleared_onTick (hs _ rfl) hpc hc.of_running _ _
  | shutdown | closed | warn | save | acceptWarn | acceptAck =>
    refine ⟨hc.disk, fun r hr => ?_⟩
    obtain rfl := Process.running.inj hr
    exact hc.of_running
  | renameExit hpc => exact ⟨renamed hc (hs _ rfl) hpc, by simp⟩
  | renameLoop hpc | renameAccept hpc =>
    refine ⟨renamed hc (hs _ rfl) hpc, fun r hr => ?_⟩
    obtain rfl := Process.running.inj hr
    exact hc.of_running

end Host

namespace Computer

variable {Text : Type*} {fromStr : Text → Option ServerToAgent}

/-! ## Where the flag comes from -/

/-- The flag is set in memory or on disk. -/
def Flagged (c : Computer) : Prop :=
  c.host.Durable ∨ ∃ r, c.host.process = .running r ∧ r.state.decommissioned = true

/-- A frame that parses as `decommission` has been read, and nothing has been enrolled since. -/
def Heard (fromStr : Text → Option ServerToAgent) (es : List (Label Text)) : Prop :=
  ∃ before text atMs since, es = before ++ .link (.text text atMs) :: since ∧
    fromStr text = some .decommission ∧ ∀ credentials now, .host (.enroll credentials now) ∉ since

theorem Heard.concat {es : List (Label Text)} {label : Label Text} (h : Heard fromStr es)
    (hl : ∀ credentials now, label ≠ .host (.enroll credentials now)) :
    Heard fromStr (es ++ [label]) := by
  obtain ⟨before, text, atMs, since, rfl, htext, hsince⟩ := h
  refine ⟨before, text, atMs, since ++ [label], by simp, htext, fun credentials now hm => ?_⟩
  rcases List.mem_append.1 hm with hm | hm
  · exact hsince credentials now hm
  · exact hl credentials now (List.mem_singleton.1 hm).symm

/-- The flag is set, or on its way to the run loop. -/
def Knows (c : Computer) : Prop := c.Flagged ∨ .decommission ∈ c.link.events

theorem events_relink_subset {l : Link} {label : Host.Label} {process : Process}
    {effects : List Effect} {event : ServerEvent}
    (h : event ∈ (relink l label process effects).events) : event ∈ l.events := by
  unfold relink at h
  split at h
  · split at h
    · simp [Link.new] at h
    · exact List.mem_of_mem_tail h
    · exact h
  · simp [Link.new] at h

/-- The run loop's state takes the flag from nothing but a `decommission` event. -/
theorem onEvent_state_decommissioned {r : RunLoop} {event : ServerEvent} {instant : ℕ}
    (h : (r.onEvent event instant).state.decommissioned = true) :
    r.state.decommissioned = true ∨ event = .decommission := by
  unfold RunLoop.onEvent at h
  split_ifs at h
  · exact Or.inl h
  · cases event with
    | decommission => exact Or.inr rfl
    | sessionState session messageTime =>
      dsimp only at h
      split_ifs at h <;> exact Or.inl h
    | serverTime time => exact Or.inl h

theorem onTick_state_decommissioned (r : RunLoop) (osNow : ℤ) (instants : Instants) :
    (r.onTick osNow instants).1.state.decommissioned = r.state.decommissioned := by
  unfold RunLoop.onTick
  split_ifs <;> rfl

/-- What a host step leaves flagged was flagged before, or comes from a `decommission` event. -/
theorem flagged_of_hostStep {h h' : Host} {label : Host.Label} {effects : List Effect}
    (hs : h.Sound) (hstep : Host.step h label = some (h', effects))
    (hf : h'.Durable ∨ ∃ r, h'.process = .running r ∧ r.state.decommissioned = true) :
    (∀ credentials now, label ≠ .enroll credentials now) ∧
      ((h.Durable ∨ ∃ r, h.process = .running r ∧ r.state.decommissioned = true) ∨
        ∃ instant, label = .event (some .decommission) instant) := by
  have renamed : ∀ {disk : Disk} {r : RunLoop} {next : AfterSave}, r.Sound disk →
      r.pc = .rename next → (Store.rename disk).stateJson.decommissioned = true →
      r.state.decommissioned = true := by
    intro disk r next hr hpc hd
    rwa [Store.rename_stateJson, hr.written _ hpc] at hd
  cases Host.step_cases hstep with
  | @start disk _ _ _ _ hb =>
    refine ⟨by simp, Or.inl (Or.inl ?_)⟩
    rcases hf with hf | ⟨r, hr, hd⟩
    · exact hf
    · cases hb with
      | inert => cases hr
      | running hdisk =>
        obtain rfl := Process.running.inj hr
        change disk.stateJson.decommissioned = true
        rw [hdisk]
        exact hd
  | crash =>
    refine ⟨by simp, Or.inl (Or.inl ?_)⟩
    rcases hf with hf | ⟨r, hr, hd⟩
    · rwa [Host.Durable, Host.crashed_stateJson] at hf
    · cases hr
  | shutdownInert =>
    rcases hf with hf | ⟨r, hr, hd⟩
    · exact ⟨by simp, Or.inl (Or.inl hf)⟩
    · cases hr
  | enroll =>
    rcases hf with hf | ⟨r, hr, hd⟩
    · exact absurd hf (by simp [Host.Durable, Host.enrolled, Host.enrolledState,
        StateFile.decommissioned])
    · cases hr
  | @event disk r event instant hpc =>
    refine ⟨by simp, ?_⟩
    rcases hf with hf | ⟨r', hr, hd⟩
    · exact Or.inl (Or.inl hf)
    · obtain rfl := Process.running.inj hr
      rcases onEvent_state_decommissioned hd with hd | rfl
      · exact Or.inl (Or.inr ⟨r, rfl, hd⟩)
      · exact Or.inr ⟨instant, rfl⟩
  | @tick disk r osNow instants hpc =>
    refine ⟨by simp, Or.inl ?_⟩
    rcases hf with hf | ⟨r', hr, hd⟩
    · exact Or.inl hf
    · obtain rfl := Process.running.inj hr
      exact Or.inr ⟨r, rfl, (onTick_state_decommissioned r osNow instants).symm.trans hd⟩
  | @shutdown disk r | @closed disk r | @warn disk r | @save disk r | @acceptWarn disk r
  | @acceptAck disk r =>
    refine ⟨by simp, Or.inl ?_⟩
    rcases hf with hf | ⟨r', hr, hd⟩
    · exact Or.inl hf
    · obtain rfl := Process.running.inj hr
      exact Or.inr ⟨r, rfl, hd⟩
  | @renameExit disk r hpc =>
    refine ⟨by simp, Or.inl ?_⟩
    rcases hf with hf | ⟨r', hr, hd⟩
    · exact Or.inr ⟨r, rfl, renamed (hs _ rfl) hpc hf⟩
    · cases hr
  | @renameLoop disk r hpc | @renameAccept disk r hpc =>
    refine ⟨by simp, Or.inl ?_⟩
    rcases hf with hf | ⟨r', hr, hd⟩
    · exact Or.inr ⟨r, rfl, renamed (hs _ rfl) hpc hf⟩
    · obtain rfl := Process.running.inj hr
      exact Or.inr ⟨r, rfl, hd⟩

/-- A computer learns of a decommission from a frame that parses as one, and forgets it in an
enrolment. -/
theorem Sound.knows_of_step {c c' : Computer} {label : Label Text} {outs : List Output} (hs : c.Sound)
    (h : Computer.step fromStr c label = some (c', outs)) (hk : c'.Knows) :
    (∀ credentials now, label ≠ .host (.enroll credentials now)) ∧
      (c.Knows ∨ ∃ text atMs, label = .link (.text text atMs) ∧ fromStr text = some .decommission) := by
  rcases step_cases h with
    ⟨l, host, effects, rfl, hh, hrecv, rfl, -⟩ | ⟨l, r, link, frames, rfl, hr, hl, rfl, -⟩
  · rcases hk with hf | he
    · obtain ⟨hne, hf⟩ := flagged_of_hostStep hs.host hh hf
      refine ⟨fun credentials now hl => hne credentials now (by injection hl), Or.inl ?_⟩
      rcases hf with hf | ⟨instant, rfl⟩
      · exact Or.inl hf
      · exact Or.inr (List.mem_of_mem_head? (hrecv _ _ rfl))
    · refine ⟨fun credentials now hl => ?_, Or.inl (Or.inr (events_relink_subset he))⟩
      -- An enrolment leaves no process, and so no channel.
      obtain rfl : l = .enroll credentials now := by injection hl
      obtain ⟨-, rfl⟩ := Host.step_enroll_cases hh
      simp [relink, Link.new] at he
  · refine ⟨by simp, ?_⟩
    rcases hk with hf | he
    · exact Or.inl (Or.inl hf)
    · cases Link.step_cases hl with
      | connect | command | heartbeat => exact Or.inl (Or.inr he)
      | close | lost => exact Or.inl (Or.inr (by simpa using he))
      | @text text atMs =>
        rcases Link.decommission_mem_handleMessage he with he | htext
        · exact Or.inl (Or.inr he)
        · exact Or.inr ⟨text, atMs, rfl, htext⟩

/-- What a computer knows, it has heard. -/
theorem Sound.heard_of_step {es : List (Label Text)} {c c' : Computer} {label : Label Text}
    {outs : List Output} (hs : c.Sound) (hp : c.Knows → Heard fromStr es)
    (h : Computer.step fromStr c label = some (c', outs)) (hk : c'.Knows) :
    Heard fromStr (es ++ [label]) := by
  obtain ⟨hne, hk | ⟨text, atMs, rfl, htext⟩⟩ := hs.knows_of_step h hk
  · exact (hp hk).concat hne
  · exact ⟨es, text, atMs, [], rfl, htext, by simp⟩

/-! ## What a decommissioned agent does -/

/-- An acknowledgement is put on a socket only once the decommission is on disk. -/
theorem Sound.durable_of_send_ack {c c' : Computer} {label : Label Text} {outs : List Output}
    (hs : c.Sound) (h : Computer.step fromStr c label = some (c', outs))
    (hack : .send .decommissionAck ∈ outs) : c.host.Durable := by
  rcases step_cases h with ⟨l, host, effects, -, -, -, -, rfl⟩ | ⟨l, r, link, frames, -, hr, hl, -, rfl⟩
  · simp at hack
  · refine hs.durable_of_ack hr ?_
    have hframe : .decommissionAck ∈ frames := by simpa using hack
    cases Link.step_cases hl with
    | connect =>
      split_ifs at hframe with hc
      · exact hc
      · cases hframe
    | @text _ _ _ greeted => cases greeted <;> simp at hframe
    | close => cases hframe
    | lost => cases hframe
    | command hup hm => simp [hm]
    | heartbeat => simp at hframe

/-- A step of the run loop neither opens a socket nor acknowledges on one. -/
theorem relink_up {l : Link} {label : Host.Label} {process : Process} {effects : List Effect}
    {socket : ℕ} {greeted : Bool}
    (h : (relink l label process effects).connection = .up socket greeted) :
    l.connection = .up socket greeted ∧
      (relink l label process effects).ackDecommission = l.ackDecommission := by
  unfold relink at h ⊢
  split at h
  · split at h
    · cases h
    · exact ⟨h, rfl⟩
    · exact ⟨h, rfl⟩
  · cases h

/-- The connection task is on a socket because it was, or because it has just connected. -/
theorem up_of_step {c c' : Computer} {label : Label Text} {outs : List Output}
    (h : Computer.step fromStr c label = some (c', outs)) {socket : ℕ} {greeted : Bool}
    (hup : c'.link.connection = .up socket greeted) :
    label = .link (.connect socket) ∨ ∃ greeted, c.link.connection = .up socket greeted := by
  rcases step_cases h with ⟨l, host, effects, -, -, -, rfl, -⟩ |
    ⟨l, r, link, frames, rfl, -, hl, rfl, -⟩
  · exact Or.inr ⟨greeted, (relink_up hup).1⟩
  · cases Link.step_cases hl with
    | connect =>
      obtain ⟨rfl, -⟩ := Connection.up.inj hup
      exact Or.inl rfl
    | text hc =>
      obtain ⟨rfl, -⟩ := Connection.up.inj hup
      exact Or.inr ⟨_, hc⟩
    | close | lost => exact absurd hup (Link.finish_connection_ne_up _ _ _ _)
    | command | heartbeat => exact Or.inr ⟨greeted, hup⟩

/-- Permission to acknowledge and a socket to do it on come with an acknowledgement that has been
sent there. -/
theorem ack_of_step {c c' : Computer} {label : Label Text} {outs : List Output}
    (h : Computer.step fromStr c label = some (c', outs)) {socket : ℕ} {greeted : Bool}
    (hup : c'.link.connection = .up socket greeted) (hack : c'.link.ackDecommission = true) :
    .send .decommissionAck ∈ outs ∨
      c.link.ackDecommission = true ∧ ∃ greeted, c.link.connection = .up socket greeted := by
  rcases step_cases h with ⟨l, host, effects, -, -, -, rfl, -⟩ |
    ⟨l, r, link, frames, rfl, -, hl, rfl, rfl⟩
  · obtain ⟨hold, heq⟩ := relink_up hup
    exact Or.inr ⟨heq.symm.trans hack, greeted, hold⟩
  · cases Link.step_cases hl with
    | connect =>
      dsimp only at hack
      rw [if_pos hack]
      exact Or.inl (by simp)
    | text hc =>
      obtain ⟨rfl, -⟩ := Connection.up.inj hup
      exact Or.inr ⟨by simpa using hack, _, hc⟩
    | close | lost => exact absurd hup (Link.finish_connection_ne_up _ _ _ _)
    | command => exact Or.inl (by simp)
    | heartbeat => exact Or.inr ⟨hack, greeted, hup⟩

/-- The outputs that enforce or warn. -/
def acts : Output → Bool
  | .effect .ackDecommission | .send _ => false
  | .effect _ => true

/-- The process is about to dismiss what it was showing. -/
def Dismissing (c : Computer) : Prop := ∃ r, c.host.process = .running r ∧ r.pc = .acceptWarn

theorem filter_acts_send (frames : List AgentToServer) : (frames.map Output.send).filter acts = [] := by
  simp [List.filter_eq_nil_iff, acts]

/-- One step of a computer with the flag on disk: nothing, or the dismissal. -/
theorem Sound.acts_of_durable {c c' : Computer} {label : Label Text} {outs : List Output}
    (hs : c.Sound) (hd : c.host.Durable) (h : Computer.step fromStr c label = some (c', outs)) :
    outs.filter acts = [] ∧ (c'.Dismissing → c.Dismissing) ∨
      outs.filter acts = [.effect (.warn .dismissFinalWarning)] ∧ c.Dismissing ∧ ¬ c'.Dismissing := by
  rcases step_cases h with ⟨l, host, effects, -, hh, -, rfl, rfl⟩ |
    ⟨l, r, link, frames, -, -, -, rfl, rfl⟩
  · obtain ⟨⟨disk, process⟩, link⟩ := c
    have durable : ∀ r, process = .running r → r.decommissioned = true ∨ r.pc.accepted = true := by
      rintro r rfl
      have := (hs.host r rfl).durable.symm.trans hd
      simpa using this
    have quiet : ∀ r, process = .running r → r.pc.quiet = true ∨ r.pc.accepted = true := by
      rintro r rfl
      exact (durable r rfl).imp_left fun hr => (hs.host r rfl).quiet hr
    cases Host.step_cases hh with
    | start hb =>
      refine Or.inl ⟨?_, ?_⟩
      · cases hb with
        | inert => rfl
        | running => split_ifs <;> rfl
      · rintro ⟨r, hr, hpc⟩
        cases hb with
        | inert => cases hr
        | running =>
          obtain rfl := Process.running.inj hr
          cases hpc
    | crash | shutdownInert | enroll | renameExit => exact Or.inl ⟨rfl, fun ⟨r, hr, _⟩ => by cases hr⟩
    | shutdown | save | renameLoop | acceptAck =>
      refine Or.inl ⟨rfl, ?_⟩
      rintro ⟨r, hr, hpc⟩
      obtain rfl := Process.running.inj hr
      cases hpc
    | closed =>
      refine Or.inl ⟨rfl, ?_⟩
      rintro ⟨r, hr, hpc⟩
      obtain rfl := Process.running.inj hr
      exact ⟨_, rfl, hpc⟩
    | @event disk r event instant hpc =>
      have hr : r.decommissioned = true := by simpa [hpc, Pc.accepted] using durable r rfl
      rw [RunLoop.onEvent_of_decommissioned hr]
      exact Or.inl ⟨rfl, id⟩
    | @tick disk r osNow instants hpc =>
      have hr : r.decommissioned = true := by simpa [hpc, Pc.accepted] using durable r rfl
      rw [RunLoop.onTick_of_decommissioned hr]
      exact Or.inl ⟨rfl, id⟩
    | warn hpc => exact absurd (quiet _ rfl) (by simp [hpc, Pc.quiet, Pc.accepted])
    | renameAccept hpc => exact absurd (quiet _ rfl) (by simp [hpc, Pc.quiet, Pc.accepted])
    | acceptWarn hpc =>
      refine Or.inr ⟨rfl, ⟨_, rfl, hpc⟩, ?_⟩
      rintro ⟨r, hr, hpc⟩
      obtain rfl := Process.running.inj hr
      cases hpc
  · exact Or.inl ⟨filter_acts_send frames, id⟩

/-- `c` has the flag on disk and no session, and between them the run so far and what is left of
`accept_decommission` dismiss the final warning at most once. -/
structure Inert (c : Computer) (outs : List Output) : Prop where
  sound : c.Sound
  durable : c.host.Durable
  cleared : c.host.Cleared
  acts : outs.filter acts = [] ∨
    outs.filter Computer.acts = [.effect (.warn .dismissFinalWarning)] ∧ ¬ c.Dismissing

theorem Inert.step {c c' : Computer} {label : Label Text} {before outs : List Output}
    (hi : Inert c before) (hl : ∀ credentials now, label ≠ .host (.enroll credentials now))
    (h : Computer.step fromStr c label = some (c', outs)) : Inert c' (before ++ outs) where
  sound := hi.sound.step h
  durable := by
    rcases step_cases h with ⟨l, host, effects, rfl, hh, -, rfl, -⟩ |
      ⟨l, r, link, frames, -, -, -, rfl, -⟩
    · exact hi.durable.step hi.sound.host hh fun credentials now hl' => hl credentials now (by rw [hl'])
    · exact hi.durable
  cleared := by
    rcases step_cases h with ⟨l, host, effects, -, hh, -, rfl, -⟩ |
      ⟨l, r, link, frames, -, -, -, rfl, -⟩
    · exact hi.cleared.step hi.sound.host hh
    · exact hi.cleared
  acts := by
    rw [List.filter_append]
    rcases hi.sound.acts_of_durable hi.durable h with ⟨hnil, hdis⟩ | ⟨hone, hdis, hnot⟩
    · rw [hnil, List.append_nil]
      exact hi.acts.imp_right fun hacts => ⟨hacts.1, fun hc => hacts.2 (hdis hc)⟩
    · rcases hi.acts with hacts | hacts
      · exact Or.inr ⟨by rw [hacts, hone, List.nil_append], hnot⟩
      · exact absurd hdis hacts.2

theorem Inert.run {fs : List (Label Text)} {p q : Computer × List Output} (hi : Inert p.1 p.2)
    (hfs : ∀ credentials now, .host (.enroll credentials now) ∉ fs)
    (h : run (logged (Computer.step fromStr)) p fs = some q) : Inert q.1 q.2 := by
  induction fs generalizing p with
  | nil =>
    obtain rfl := Option.some.inj h
    exact hi
  | cons label fs ih =>
    obtain ⟨u, hu, hq⟩ := run_cons_eq_some.1 h
    obtain ⟨c', outs, hstep, rfl⟩ := logged_eq_some.1 hu
    refine ih (hi.step (fun credentials now hl => ?_) hstep) (fun credentials now hm => ?_) hq
    · exact hfs credentials now (hl ▸ List.mem_cons_self)
    · exact hfs credentials now (List.mem_cons_of_mem _ hm)

/-! ## The four guarantees -/

/-- Every tick that finds the loop waiting takes the enforcement decision, on the session held and
on the trusted time, whatever state the connection is in. -/
def Enforces (fromStr : Text → Option ServerToAgent) (h : Host) : Prop :=
  ∀ r, h.process = .running r → r.pc = .select → ∀ link osNow instants, ∃ c',
    step fromStr ⟨h, link⟩ (.host (.tick osNow instants)) = some (c',
      (RunLoop.enforce (advance r.state.session (r.clock.trusted osNow instants.read)).2
        r.currentlyBlocked).2.map .effect)

theorem enforces_of_not_durable {h : Host} (hs : h.Sound) (hd : ¬ h.Durable) :
    Enforces fromStr h := by
  intro r hr hpc link osNow instants
  have hflag : r.decommissioned = false := by
    have hflag : r.decommissioned ≠ true := fun hf => hd (hs.durable_of_decommissioned hr hf)
    simpa using hflag
  refine ⟨⟨⟨h.disk, .running (r.onTick osNow instants).1⟩,
    relink link (.tick osNow instants) (.running (r.onTick osNow instants).1)
      (r.onTick osNow instants).2⟩, ?_⟩
  simp [step, hostStep, Host.step, hr, hpc, RunLoop.onTick, hflag]

/-- Over every run from an unflagged state file: the flag is set only by a frame that parses as
`decommission`; an acknowledgement is sent only with the flag on disk; from then on, until an
enrolment, it stays there, no session is held, and the agent neither enforces nor warns past one
dismissal; and without it, the agent enforces at every tick, whatever the connection does. -/
theorem decommission_is_final (fromStr : Text → Option ServerToAgent) {disk : Disk}
    (hdisk : disk.stateJson.decommissioned = false) {es : List (Label Text)} {c : Computer}
    (h : run (silent (step fromStr)) (off disk) es = some c) :
    (c.Flagged → Heard fromStr es) ∧
      (∀ label c' outs, step fromStr c label = some (c', outs) → .send .decommissionAck ∈ outs →
        c.host.Durable) ∧
      (c.host.Durable → ∀ fs c' outs, (∀ credentials now, .host (.enroll credentials now) ∉ fs) →
        run (logged (step fromStr)) (c, []) fs = some (c', outs) →
        c'.host.Durable ∧
          (∀ state, c'.host.disk.stateJson = .readable state → state.session = none) ∧
          (∀ r, c'.host.process = .running r → r.state.session = none) ∧
          (outs.filter acts = [] ∨ outs.filter acts = [.effect (.warn .dismissFinalWarning)])) ∧
      (¬ c.host.Durable → Enforces fromStr c.host ∧
        ∀ label c' outs, step fromStr c (.link label) = some (c', outs) → c'.host = c.host) := by
  have hoff : Sound (off disk) ∧ (off disk).host.Cleared ∧ ((off disk).Knows → Heard fromStr []) := by
    have hclear : (off disk).host.Cleared := by
      refine ⟨fun state hstate => AgentState.cleared_of_eq_false ?_, by simp [off]⟩
      rwa [show disk.stateJson = .readable state from hstate] at hdisk
    refine ⟨sound_off disk, hclear, fun hk => ?_⟩
    simp [Knows, Flagged, Host.Durable, off, hdisk, Link.new] at hk
  obtain ⟨hs, hc, hp⟩ : c.Sound ∧ c.host.Cleared ∧ (c.Knows → Heard fromStr es) := by
    refine run_history_invariant
      (I := fun es c => c.Sound ∧ c.host.Cleared ∧ (c.Knows → Heard fromStr es)) hoff
      (fun es c label c' hi hstep => ?_) h
    obtain ⟨outs, ho⟩ := silent_eq_some.1 hstep
    refine ⟨hi.1.step ho, ?_, hi.1.heard_of_step hi.2.2 ho⟩
    rcases step_cases ho with
      ⟨l, host, effects, -, hh, -, rfl, -⟩ | ⟨l, r, link, frames, -, -, -, rfl, -⟩
    · exact hi.2.1.step hi.1.host hh
    · exact hi.2.1
  refine ⟨fun hf => hp (Or.inl hf), fun label c' outs hstep hack => hs.durable_of_send_ack hstep hack,
    fun hd fs c' outs hfs hrun => ?_, fun hd => ⟨enforces_of_not_durable hs.host hd, ?_⟩⟩
  · have hi : Inert c' outs := (Inert.mk hs hd hc (Or.inl rfl) : Inert c []).run hfs hrun
    refine ⟨hi.durable, fun state hstate => ?_, fun r hr => ?_, hi.acts.imp_right And.left⟩
    · refine hi.cleared.disk state hstate ?_
      have hdur := hi.durable
      rwa [Host.Durable, hstate] at hdur
    · refine hi.cleared.memory r hr ?_
      have hr' := hi.sound.host r hr
      have hdur := hr'.durable.symm.trans hi.durable
      rw [hr'.memory]
      rcases Bool.or_eq_true_iff.1 hdur with hb | hb <;> simp [hb]
  · intro label c' outs hstep
    rcases step_cases hstep with ⟨l, host, effects, hl, -⟩ | ⟨l, r, link, frames, -, -, -, rfl, -⟩
    · cases hl
    · rfl

/-- The whole of a removal: the frame is read, accepted and saved, and the acknowledgement sent. -/
def removal : List (Label Unit) :=
  [.host (.start 0 0), .link (.connect 0), .link (.text () 0), .host (.event (some .decommission) 1),
    .host .proceed, .host .proceed, .host .proceed, .host .proceed, .link .command]

/-- A computer that a removal has been carried out on. -/
def removed : Computer :=
  let managed := off (Host.enrolled ⟨.absent, .absent⟩ ⟨"https://taymna.example.com", "m1", "s1"⟩ 0)
  (run (silent (step fun _ => some .decommission)) managed removal).getD managed

/-- After a removal, a tick leaves everything as it is. -/
theorem decommission_is_final_removal :
    Heard (fun _ => some .decommission) removal ∧
      ∀ c outs, run (logged (step fun _ : Unit => some .decommission)) (removed, [])
          [.host (.tick 5 (.at 5))] = some (c, outs) → c.host.Durable := by
  have hrun : run (silent (step fun _ => some .decommission))
      (off (Host.enrolled ⟨.absent, .absent⟩ ⟨"https://taymna.example.com", "m1", "s1"⟩ 0))
      removal = some removed := rfl
  have h := decommission_is_final (fun _ => some .decommission) rfl hrun
  have hd : removed.host.Durable := by decide
  exact ⟨h.1 (Or.inl hd), fun c outs hrun => (h.2.2.1 hd _ c outs (by simp) hrun).1⟩

end Computer

end Taymna.Agent
