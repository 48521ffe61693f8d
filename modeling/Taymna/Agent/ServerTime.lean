import Taymna.Agent.TrustedTime

/-!
# The server's time

A `serverTime` reaches the guard in one of two ways. A heartbeat acknowledgement hands it over as it
is. A session message hands over its `messageTime`, which is the `updatedAt` of the session's row
when there is one, and only when the message is applied. `TakesTime` is when that is enough, and
`serverTime_respected_iff` that it is necessary as well.
-/

namespace Taymna.Agent

open Automata

/-- The `serverTime` that a message carries. -/
def ServerToAgent.serverTime : ServerToAgent → Option ℤ
  | .sessionState _ serverTime => some serverTime
  | .heartbeatAck serverTime => some serverTime
  | _ => none

/-- The guard is past the `serverTime` of `m` already, or is moved that far by it. -/
def RunLoop.TakesTime (r : RunLoop) : ServerToAgent → Prop
  | .sessionState session serverTime =>
    serverTime ≤ r.clock.highWaterMark ∨
      r.state.lastAppliedAt < messageTime session serverTime ∧
        serverTime ≤ messageTime session serverTime
  | _ => True

instance (r : RunLoop) (m : ServerToAgent) : Decidable (r.TakesTime m) := by
  cases m <;> unfold RunLoop.TakesTime <;> infer_instance

namespace Host

/-- Every later value of `now` in the process is at least `time`. -/
def Respects (h : Host) (time : ℤ) : Prop :=
  ∀ es, (∀ now instant, Label.start now instant ∉ es) →
    Along (silent step) (fun g label => ∀ value, g.reading label = some value → time ≤ value) h es

/-! ## Later values of `now` -/

/-- The guard of a running process never goes back. -/
theorem highWaterMark_le_step {h h' : Host} {label : Label} {effects : List Effect}
    (hl : ∀ now instant, label ≠ .start now instant) (hstep : step h label = some (h', effects))
    {r' : RunLoop} (hr' : h'.process = .running r') :
    ∃ r, h.process = .running r ∧ r.clock.highWaterMark ≤ r'.clock.highWaterMark := by
  cases step_cases hstep with
  | start => exact absurd rfl (hl _ _)
  | crash | shutdownInert | enroll | renameExit => cases hr'
  | @event disk r event instant =>
    obtain rfl := Process.running.inj hr'
    exact ⟨r, rfl, r.highWaterMark_le_onEvent event instant⟩
  | @tick disk r osNow instants =>
    obtain rfl := Process.running.inj hr'
    exact ⟨r, rfl, r.highWaterMark_le_onTick osNow instants⟩
  | shutdown | closed | warn | save | renameLoop | renameAccept | acceptWarn | acceptAck =>
    obtain rfl := Process.running.inj hr'
    exact ⟨_, rfl, le_rfl⟩

/-- What the guard has reached, every later value of `now` has. -/
theorem respects_of_le {disk : Disk} {r : RunLoop} {time : ℤ}
    (h : time ≤ r.clock.highWaterMark) : Respects ⟨disk, .running r⟩ time := by
  intro es hes
  refine along_of_invariant (P := fun _ label => ∀ now instant, label ≠ .start now instant)
    (I := fun g : Host => ∀ r, g.process = .running r → time ≤ r.clock.highWaterMark)
    (fun g label g' hg hl hstep r' hr' => ?_) (fun g label hg hl value hv => ?_) (fun r' hr' => ?_)
    (along_of_forall (fun _ label hlabel => ?_) _)
  · obtain ⟨effects, he⟩ := silent_eq_some.1 hstep
    obtain ⟨r, hr, hle⟩ := highWaterMark_le_step hl he hr'
    exact (hg r hr).trans hle
  · obtain ⟨r, hr⟩ := running_of_reading hv
    obtain ⟨disk, process⟩ := g
    obtain rfl : process = .running r := hr
    exact (hg r rfl).trans (highWaterMark_le_of_reading hv)
  · obtain rfl := Process.running.inj hr'
    exact h
  · rintro now instant rfl
    exact hes now instant hlabel

/-- When the OS clock shows the mark itself, `now` returns the mark. -/
theorem reading_mark (disk : Disk) {r : RunLoop} (hpc : r.pc = .select)
    (hd : r.decommissioned = false) (instants : Instants) :
    reading ⟨disk, .running r⟩ (.tick r.clock.highWaterMark instants) =
      some r.clock.highWaterMark := by
  simp [reading, hpc, hd, ClockGuard.trusted_of_ge le_rfl]

/-- Between two saves, and in the save of a session, nothing beyond the guard is respected. -/
theorem respects_iff {disk : Disk} {r : RunLoop} (hpc : r.pc = .select ∨ r.pc = .save .loop)
    (hd : r.decommissioned = false) (time : ℤ) :
    Respects ⟨disk, .running r⟩ time ↔ time ≤ r.clock.highWaterMark := by
  refine ⟨fun h => ?_, respects_of_le⟩
  rcases hpc with hpc | hpc
  · have h₁ := h [.tick r.clock.highWaterMark (.at 0)] (by simp)
    exact h₁.1 _ (reading_mark disk hpc hd (.at 0))
  · -- The save is finished first.
    have h₁ := h [.proceed, .proceed, .tick r.clock.highWaterMark (.at 0)] (by simp)
    have hsave : run (silent step) ⟨disk, .running r⟩ [.proceed, .proceed] =
        some ⟨Store.save disk r.state, .running { r with pc := .select }⟩ := by
      simp [run_cons, silent, step, proceed, hpc, Store.save]
    rw [show [Label.proceed, .proceed, .tick r.clock.highWaterMark (.at 0)] =
      [.proceed, .proceed] ++ [.tick r.clock.highWaterMark (.at 0)] from rfl, along_append_iff] at h₁
    exact (h₁.2 _ hsave).1 _ (reading_mark (r := { r with pc := .select }) _ rfl hd (.at 0))

end Host

/-! ## What a message does to the guard -/

namespace RunLoop

/-- A message with a time in it leaves the loop between two saves, or in the save of a session. -/
theorem onEvent_pc {r : RunLoop} (hpc : r.pc = .select) {event : ServerEvent}
    (he : event ≠ .decommission) (instant : ℕ) :
    (r.onEvent event instant).pc = .select ∨ (r.onEvent event instant).pc = .save .loop := by
  unfold onEvent
  split_ifs
  · exact Or.inl hpc
  · cases event with
    | decommission => exact absurd rfl he
    | sessionState session messageTime =>
      dsimp only
      split_ifs
      · exact Or.inr rfl
      · exact Or.inl hpc
    | serverTime time => exact Or.inl hpc

/-- The guard is past the time of the message exactly when the message takes it there. -/
theorem le_onEvent_iff {r : RunLoop} (hd : r.decommissioned = false) {m : ServerToAgent}
    {time : ℤ} (ht : m.serverTime = some time) {event : ServerEvent} (he : m.event = some event)
    (instant : ℕ) :
    time ≤ (r.onEvent event instant).clock.highWaterMark ↔ r.TakesTime m := by
  rw [onEvent_highWaterMark]
  unfold resyncTime
  rw [if_neg (by simp [hd])]
  cases m with
  | sessionState session serverTime =>
    obtain rfl := Option.some.inj ht
    obtain rfl := Option.some.inj he
    unfold TakesTime
    rcases le_or_gt (messageTime session serverTime) r.state.lastAppliedAt with hle | hlt
    · simp [hle, not_lt.2 hle]
    · simp [hlt, not_le.2 hlt]
  | heartbeatAck serverTime =>
    obtain rfl := Option.some.inj ht
    obtain rfl := Option.some.inj he
    simp [TakesTime]
  | decommission => cases ht
  | error code message => cases ht

end RunLoop

/-! ## The files that the agent writes -/

/-- The last applied message is no later than the mark. -/
def AgentState.Marked (state : AgentState) : Prop := state.lastAppliedAt ≤ state.trustedHighWaterMark

namespace RunLoop

theorem marked_onEvent {r : RunLoop} (hsync : r.Synced) (hm : r.state.Marked) (event : ServerEvent)
    (instant : ℕ) : (r.onEvent event instant).state.Marked := by
  have hle : r.state.lastAppliedAt ≤ r.clock.highWaterMark := hm.trans hsync.le
  unfold onEvent
  split_ifs
  · exact hm
  · cases event with
    | decommission => exact hm
    | sessionState session messageTime =>
      rcases le_or_gt messageTime r.state.lastAppliedAt with hstale | hlt
      · simpa [applyServerMessage_stale hstale] using hm
      · simp [applyServerMessage_newer hlt, resync, AgentState.Marked]
    | serverTime time => simpa [resync, AgentState.Marked] using Or.inl hle

theorem marked_onTick {r : RunLoop} (hsync : r.Synced) (hm : r.state.Marked) (osNow : ℤ)
    (instants : Instants) : (r.onTick osNow instants).1.state.Marked := by
  have hle : r.state.lastAppliedAt ≤ r.clock.highWaterMark := hm.trans hsync.le
  unfold onTick
  split_ifs
  · exact hm
  · exact hle.trans (r.clock.highWaterMark_le_trusted osNow instants.read)

end RunLoop

namespace Host

theorem marked_enrolledState {disk : Disk}
    (hd : ∀ state, disk.stateJson = .readable state → state.Marked) (credentials : Credentials)
    (now : ℤ) : (enrolledState (Store.loadForEnroll disk now).2 credentials).Marked := by
  rcases hj : disk.stateJson with _ | _ | state
  · simp [Store.loadForEnroll, Store.load, hj, enrolledState, AgentState.Marked, AgentState.default]
  · simp [Store.loadForEnroll, Store.load, hj, enrolledState, AgentState.Marked, AgentState.default]
  · simpa [Store.loadForEnroll, Store.load, hj, enrolledState, AgentState.Marked] using hd state hj

/-- From a directory whose file, if any, is so marked, every state of a run is. -/
theorem marked_run {disk : Disk} (hd : ∀ state, disk.stateJson = .readable state → state.Marked)
    {es : List Label} {h : Host} (hrun : run (silent step) ⟨disk, .stopped⟩ es = some h) :
    Kept AgentState.Marked (fun r => r.Synced ∧ r.state.Marked) h := by
  refine run_invariant (fun h label h' hk hstep => ?_) (Kept.of_stopped hd) hrun
  obtain ⟨effects, he⟩ := silent_eq_some.1 hstep
  refine hk.step (fun r hr => hr.2) (fun r r' hs hc hr => ?_) (fun state instant hs => ⟨rfl, hs⟩) he
    (fun credentials now _ => marked_enrolledState hk.disk credentials now)
    (fun r event instant _ _ hr =>
      ⟨RunLoop.synced_onEvent hr.1 event instant, RunLoop.marked_onEvent hr.1 hr.2 event instant⟩)
    fun r osNow instants hr =>
      ⟨RunLoop.synced_onTick hr.1 osNow instants, RunLoop.marked_onTick hr.1 hr.2 osNow instants⟩
  unfold RunLoop.Synced
  rw [hs, hc]
  exact hr

/-- After a message of the server, every later value of `now` in the process is at least its
`serverTime` exactly when the message takes the guard there; without a session it always does, on
the files that the agent writes. -/
theorem serverTime_respected_iff {disk : Disk} {es : List Label} {h : Host}
    (hrun : run (silent step) ⟨disk, .stopped⟩ es = some h) {r : RunLoop}
    (hr : h.process = .running r) (hmanaged : r.decommissioned = false) {m : ServerToAgent}
    {time : ℤ} (ht : m.serverTime = some time) {instant : ℕ} {h' : Host}
    (hstep : silent step h (.event m.event instant) = some h') :
    (h'.Respects time ↔ r.TakesTime m) ∧
      ((∀ state, disk.stateJson = .readable state → state.Marked) →
        m = .sessionState none time → r.TakesTime m) := by
  obtain ⟨disk', process⟩ := h
  obtain rfl : process = .running r := hr
  constructor
  · obtain ⟨event, he⟩ : ∃ event, m.event = some event := by
      cases m with
      | sessionState | heartbeatAck => exact ⟨_, rfl⟩
      | decommission | error => cases ht
    have hne : event ≠ .decommission := by
      rintro rfl
      rw [ServerToAgent.event_eq_decommission_iff] at he
      rw [he] at ht
      cases ht
    rw [he] at hstep
    obtain ⟨effects, hs⟩ := silent_eq_some.1 hstep
    cases step_cases hs with
    | event hpc =>
      rw [respects_iff (RunLoop.onEvent_pc hpc hne instant) (by rwa [RunLoop.onEvent_decommissioned]),
        RunLoop.le_onEvent_iff hmanaged ht he]
  · rintro hd rfl
    have hk := marked_run hd hrun
    have hle : r.state.lastAppliedAt ≤ r.clock.highWaterMark :=
      (hk.memory r rfl).2.trans (hk.memory r rfl).1.le
    rcases le_or_gt time r.state.lastAppliedAt with hstale | hlt
    · exact Or.inl (hstale.trans hle)
    · exact Or.inr ⟨hlt, le_rfl⟩

/-- An acknowledgement at 80 is respected. -/
theorem serverTime_respected_iff_ack : ∃ h', run (silent step) ⟨grantedDisk, .stopped⟩
    [.start 10 0, .event (ServerToAgent.heartbeatAck 80).event 1] = some h' ∧ h'.Respects 80 := by
  have hrun : run (silent step) ⟨grantedDisk, .stopped⟩ [.start 10 0] =
    some ⟨grantedDisk, .running _⟩ := rfl
  refine ⟨_, rfl, ?_⟩
  exact (@serverTime_respected_iff _ _ _ hrun _ rfl rfl (.heartbeatAck 80) 80 rfl 1 _ rfl).1.2 trivial

/-- The push at a connect, sent at 50 about a row that was last written at 20: it is applied, and
with the OS clock at 20 the next tick takes the time to be 20. -/
theorem oldRow_serverTime_not_respected : ∃ h', run (silent step) ⟨grantedDisk, .stopped⟩
    [.start 10 0,
      .event (ServerToAgent.sessionState (some ⟨"s1", 0, 100, .active, 20⟩) 50).event 1] =
      some h' ∧ ¬ h'.Respects 50 := by
  refine ⟨_, rfl, fun h => ?_⟩
  rw [respects_iff (Or.inr rfl) rfl] at h
  exact absurd h (by decide)

end Host

end Taymna.Agent
