import Taymna.Agent.Flags
import Taymna.Api.Sessions

/-!
# The first session after an enrolment

`enroll` resets the session and the flag, but takes `last_applied_at` over from a readable state
file, or from the local clock when there is none. The first push of the server is judged against
that value, so it is taken in exactly when it is newer.
-/

namespace Taymna

open Automata Agent Api

/-- The `last_applied_at` that an enrolment leaves, when the local clock shows `now`. -/
def Agent.StateFile.enrolledLastAppliedAt (file : StateFile) (now : ℤ) : ℤ :=
  match file with
  | .readable state => state.lastAppliedAt
  | _ => now

namespace Agent

/-- A state as an enrolment leaves it, whatever its credentials and its clock. -/
structure AgentState.Fresh (lastAppliedAt : ℤ) (state : AgentState) : Prop where
  session : state.session = none
  decommissioned : state.decommissioned = false
  lastAppliedAt : state.lastAppliedAt = lastAppliedAt

/-- Everything that no session message and no `decommission` brings about. -/
def Host.Label.Quiet : Host.Label → Prop
  | .event (some (.sessionState _ _)) _ | .event (some .decommission) _ | .enroll _ _ => False
  | _ => True

structure RunLoop.Fresh (lastAppliedAt : ℤ) (disk : Disk) (r : RunLoop) : Prop where
  state : r.state.Fresh lastAppliedAt
  decommissioned : r.decommissioned = false
  written : ∀ next, r.pc = .rename next → disk.tmp = .readable r.state

/-- A host that has heard of no session since it was enrolled. -/
structure Host.Fresh (lastAppliedAt : ℤ) (h : Host) : Prop where
  disk : ∃ state, h.disk.stateJson = .readable state ∧ state.Fresh lastAppliedAt
  process : ∀ r, h.process = .running r → r.Fresh lastAppliedAt h.disk

namespace Host.Fresh

variable {lastAppliedAt : ℤ} {disk : Disk} {r : RunLoop}

theorem of_stopped (hd : ∃ state, disk.stateJson = .readable state ∧ state.Fresh lastAppliedAt) :
    Fresh lastAppliedAt ⟨disk, .stopped⟩ := ⟨hd, fun r hr => by cases hr⟩

theorem of_running (hd : ∃ state, disk.stateJson = .readable state ∧ state.Fresh lastAppliedAt)
    (hr : r.Fresh lastAppliedAt disk) : Fresh lastAppliedAt ⟨disk, .running r⟩ :=
  ⟨hd, fun r' hr' => by
    obtain rfl := Process.running.inj hr'
    exact hr⟩

theorem renamed {next : AfterSave} (hf : Fresh lastAppliedAt ⟨disk, .running r⟩)
    (hpc : r.pc = .rename next) :
    ∃ state, (Store.rename disk).stateJson = .readable state ∧ state.Fresh lastAppliedAt :=
  ⟨r.state, by rw [Store.rename_stateJson, (hf.process r rfl).written next hpc],
    (hf.process r rfl).state⟩

theorem enrolled (disk : Disk) (credentials : Credentials) (now : ℤ) :
    Fresh (disk.stateJson.enrolledLastAppliedAt now) ⟨Host.enrolled disk credentials now, .stopped⟩ := by
  refine of_stopped ⟨_, rfl, rfl, rfl, ?_⟩
  rcases hd : disk.stateJson with _ | _ | state <;>
    simp [StateFile.enrolledLastAppliedAt, Store.load, hd, AgentState.default,
      enrolledState]

/-- Only a session message, a `decommission` or another enrolment changes that. -/
theorem step {h h' : Host} {label : Label} {effects : List Effect} (hf : h.Fresh lastAppliedAt)
    (hs : h.Sound) (hq : label.Quiet) (hstep : Host.step h label = some (h', effects)) :
    h'.Fresh lastAppliedAt := by
  cases step_cases hstep with
  | start hb =>
    obtain ⟨state, hd, hs⟩ := hf.disk
    cases hb with
    | inert hd' _ hdec =>
      obtain rfl := StateFile.readable.inj (hd.symm.trans hd')
      exact absurd hdec (by simp [hs.decommissioned])
    | running hd' =>
      obtain rfl := StateFile.readable.inj (hd.symm.trans hd')
      exact of_running hf.disk ⟨hs, hs.decommissioned, by simp [RunLoop.start]⟩
  | crash => exact of_stopped (by simpa using hf.disk)
  | shutdownInert => exact of_stopped hf.disk
  | enroll => exact hq.elim
  | @event disk r event instant hpc =>
    have hr := hf.process r rfl
    cases event with
    | sessionState | decommission => exact hq.elim
    | serverTime time =>
      have hevent : r.onEvent (.serverTime time) instant = r.resync time instant := by
        simp [RunLoop.onEvent, hr.decommissioned]
      rw [hevent]
      exact of_running hf.disk ⟨⟨hr.state.session, hr.state.decommissioned, hr.state.lastAppliedAt⟩,
        hr.decommissioned, by simp [RunLoop.resync, hpc]⟩
  | @tick disk r osNow instants hpc =>
    have hr := hf.process r rfl
    have hstate : (r.onTick osNow instants).1.state.Fresh lastAppliedAt := by
      simp only [RunLoop.onTick, hr.decommissioned, Bool.false_eq_true, if_false]
      exact ⟨by simp [hr.state.session], hr.state.decommissioned, hr.state.lastAppliedAt⟩
    refine of_running hf.disk ⟨hstate, ?_, fun next hn =>
      absurd hn (RunLoop.onTick_pc_ne_rename hpc osNow instants next)⟩
    simp [RunLoop.onTick, hr.decommissioned]
  | @shutdown disk r | @warn disk r =>
    have hr := hf.process r rfl
    exact of_running hf.disk ⟨hr.state, hr.decommissioned, by simp⟩
  | @closed disk r =>
    have hr := hf.process r rfl
    exact of_running hf.disk ⟨hr.state, hr.decommissioned, hr.written⟩
  | @save disk r =>
    have hr := hf.process r rfl
    exact of_running hf.disk ⟨hr.state, hr.decommissioned, fun _ _ => rfl⟩
  | @acceptWarn disk r hpc | @acceptAck disk r hpc =>
    -- A decommission that is being accepted has set the flag in memory.
    have hm := (hs r rfl).memory
    simp [(hf.process r rfl).state.decommissioned, hpc, Pc.accepted] at hm
  | renameExit hpc => exact of_stopped (hf.renamed hpc)
  | @renameLoop disk r hpc | @renameAccept disk r hpc =>
    have hr := hf.process r rfl
    exact of_running (hf.renamed hpc) ⟨hr.state, hr.decommissioned, by simp⟩

end Host.Fresh

/-- The run loop takes the pushed session in: it is what the agent now holds, and is being saved. -/
def Host.PicksUp (h : Host) (event : ServerEvent) (instant : ℕ) (session : Option SessionSnapshot) :
    Prop :=
  ∃ r, silent Host.step h (.event (some event) instant) = some ⟨h.disk, .running r⟩ ∧
    r.pc = .save .loop ∧ r.state.session = session

theorem Host.Fresh.picksUp_iff {lastAppliedAt : ℤ} {h : Host} (hf : h.Fresh lastAppliedAt)
    {r : RunLoop} (hr : h.process = .running r) (hpc : r.pc = .select)
    (session : Option SessionSnapshot) (time : ℤ) (instant : ℕ) :
    h.PicksUp (.sessionState session time) instant session ↔ lastAppliedAt < time := by
  obtain ⟨disk, process⟩ := h
  obtain rfl : process = .running r := hr
  have hfresh := hf.process r rfl
  have hstep : silent Host.step ⟨disk, .running r⟩ (.event (some (.sessionState session time)) instant) =
      some ⟨disk, .running (r.onEvent (.sessionState session time) instant)⟩ := by
    simp [silent, Host.step, hpc]
  constructor
  · rintro ⟨r', hr', hsave, -⟩
    by_contra hle
    rw [hstep] at hr'
    obtain rfl := Process.running.inj (congrArg Host.process (Option.some.inj hr'))
    simp [RunLoop.onEvent, hfresh.decommissioned, hfresh.state.lastAppliedAt,
      applyServerMessage_stale (not_lt.1 hle), hpc] at hsave
  · intro hlt
    refine ⟨_, hstep, ?_, ?_⟩ <;>
      simp [RunLoop.onEvent, hfresh.decommissioned, hfresh.state.lastAppliedAt,
        applyServerMessage_newer hlt, RunLoop.resync]

end Agent

/-- The event that the connect push of a machine with these session rows becomes at the agent, once
the overdue ones are expired. -/
def connectPush (rows : List Session) (now updatedAt serverTime : ℤ) : Option ServerEvent :=
  (SessionsService.sessionState (SessionsService.findActive (SessionsService.expireStale now updatedAt rows))
    serverTime).read.event

/-- The time that push is judged by. -/
def connectPushTime (rows : List Session) (now updatedAt serverTime : ℤ) : ℤ :=
  match SessionsService.findActive (SessionsService.expireStale now updatedAt rows) with
  | some row => nanos row.updatedAt
  | none => nanos serverTime

theorem connectPush_eq (rows : List Session) (now updatedAt serverTime : ℤ) :
    connectPush rows now updatedAt serverTime = some (.sessionState
      ((SessionsService.findActive (SessionsService.expireStale now updatedAt rows)).map
        SessionsService.snapshot) (connectPushTime rows now updatedAt serverTime)) := by
  unfold connectPush connectPushTime
  cases SessionsService.findActive (SessionsService.expireStale now updatedAt rows) <;> rfl

/-- After an enrolment on top of any state file, and whatever runs before the first push short of
another enrolment, the agent takes in the machine's active session exactly if the push is newer
than the `last_applied_at` that the enrolment took over, or took from the local clock. -/
theorem first_push_applied_iff (disk : Disk) (credentials : Credentials) (localNow : ℤ)
    {es : List Host.Label} (hes : ∀ label ∈ es, label.Quiet) {h : Host} {r : RunLoop}
    (hrun : run (silent Host.step) ⟨Host.enrolled disk credentials localNow, .stopped⟩ es = some h)
    (hr : h.process = .running r) (hpc : r.pc = .select) (rows : List Session)
    (now updatedAt serverTime : ℤ) (instant : ℕ) :
    (∃ event, connectPush rows now updatedAt serverTime = some event ∧ h.PicksUp event instant
        ((SessionsService.findActive (SessionsService.expireStale now updatedAt rows)).map
          SessionsService.snapshot)) ↔
      disk.stateJson.enrolledLastAppliedAt localNow <
        connectPushTime rows now updatedAt serverTime := by
  have hfresh : h.Sound ∧ h.Fresh (disk.stateJson.enrolledLastAppliedAt localNow) := by
    refine run_invariant_along (I := fun h : Host =>
        h.Sound ∧ h.Fresh (disk.stateJson.enrolledLastAppliedAt localNow))
      (P := fun _ label => label.Quiet) (fun h label h' hi hq hstep => ?_)
      ⟨Host.sound_stopped _, .enrolled disk credentials localNow⟩
      (along_of_forall (fun _ label hl => hes label hl) _) hrun
    obtain ⟨effects, he⟩ := silent_eq_some.1 hstep
    exact ⟨hi.1.step he, hi.2.step hi.1 hq he⟩
  simp only [connectPush_eq, Option.some.injEq, exists_eq_left']
  exact hfresh.2.picksUp_iff hr hpc _ _ _

/-- A machine's session that was started at 1000 ms and last written then. -/
def runningRow : Session :=
  { id := "s1", startedAt := 1000, expiresAt := 3601000, endedAt := none, status := .active,
    updatedAt := 1000 }

/-- An agent enrolled for the first time, before the session was started, on a clock that is right. -/
theorem first_push_applied_first_time :
    ∃ event, connectPush [runningRow] 1500 1500 1600 = some event ∧
      Host.PicksUp ⟨Host.enrolled ⟨.absent, .absent⟩
          ⟨"https://taymna.example.com", "m1", "s1"⟩ (nanos 500),
        .running (RunLoop.start (Host.enrolledState (AgentState.default (nanos 500))
          ⟨"https://taymna.example.com", "m1", "s1"⟩) 0)⟩ event 0
        (some (SessionsService.snapshot runningRow)) :=
  have hquiet : ∀ label ∈ [Host.Label.start (nanos 500) 0], label.Quiet := by simp [Host.Label.Quiet]
  (first_push_applied_iff ⟨.absent, .absent⟩ ⟨"https://taymna.example.com", "m1", "s1"⟩ (nanos 500)
    hquiet rfl rfl rfl [runningRow] 1500 1500 1600 0).2 (by decide)

/-- The state of an agent that has already taken in `runningRow`. -/
def appliedState : AgentState :=
  { AgentState.default 0 with
    credentials := some ⟨"https://taymna.example.com", "m1", "s1"⟩
    session := some (SessionsService.snapshot runningRow)
    lastAppliedAt := nanos 1000 }

/-- Enrolling that agent again to the same machine: the running session is pushed, and refused. -/
theorem reenrolled_agent_refuses_running_session :
    ¬ ∃ event, connectPush [runningRow] 1500 1500 1600 = some event ∧
      Host.PicksUp ⟨Host.enrolled ⟨.readable appliedState, .absent⟩
          ⟨"https://taymna.example.com", "m1", "s2"⟩ (nanos 1400),
        .running (RunLoop.start (Host.enrolledState appliedState
          ⟨"https://taymna.example.com", "m1", "s2"⟩) 0)⟩ event 0
        (some (SessionsService.snapshot runningRow)) := by
  rintro ⟨event, he, r, hr, hpc, -⟩
  obtain rfl := Option.some.inj he
  obtain rfl := Process.running.inj (congrArg Host.process (Option.some.inj hr))
  revert hpc
  decide

end Taymna
