import Taymna.Agent.Client
import Taymna.Agent.Storage
import Taymna.Agent.Warning

/-!
# The run loop (`agent/src/main.rs`)

A `Host` is one computer as the agent's main loop sees it: its state directory and the agent
process. One `Host.step` is one arm of the `select!` in `run`, or one further step of the iteration
that arm began, so that a crash can come between any two of them: between a decision and its
warnings, before, inside and after `Store::save`, and between the save of an accepted decommission
and its acknowledgement. An I/O error in `save` makes `run` return, which is a crash at that point.
-/

namespace Taymna.Agent

/-- What the run loop does to the outside world. -/
inductive Effect
  | disableUsage
  | enableUsage
  | warn (effect : WarningEffect)
  | ackDecommission
deriving DecidableEq, Repr

/-- Where `run` goes on after a `store.save`. -/
inductive AfterSave
  | loop
  | accept
  | exit
deriving DecidableEq, Repr

/-- Where the process is in its current iteration. -/
inductive Pc
  | select
  /-- A tick has been enforced; its warnings come next. -/
  | warn (trustedNow : ℤ)
  /-- In `Store::save`, before the temporary file is written. -/
  | save (next : AfterSave)
  /-- In `Store::save`, before the rename. -/
  | rename (next : AfterSave)
  /-- In `accept_decommission`, before the dismissal is sent. -/
  | acceptWarn
  /-- In `accept_decommission`, before the acknowledgement is allowed. -/
  | acceptAck
deriving DecidableEq, Repr

/-- The locals of `run`. -/
structure RunLoop where
  state : AgentState
  clock : ClockGuard
  currentlyBlocked : Bool
  warnings : ExpiryWarnings
  decommissioned : Bool
  eventsClosed : Bool
  pc : Pc
deriving DecidableEq, Repr

/-- The process of the service. -/
inductive Process
  | stopped
  /-- Decommissioned with no credential left: waiting for shutdown only. -/
  | inert
  | running (r : RunLoop)
deriving DecidableEq, Repr

/-- The state directory and the process. -/
structure Host where
  disk : Disk
  process : Process
deriving DecidableEq, Repr

namespace RunLoop

/-- The locals of `run` when its loop is entered. -/
def start (state : AgentState) (instant : ℕ) : RunLoop :=
  { state := state
    clock := ClockGuard.new state.trustedHighWaterMark instant
    currentlyBlocked := true
    warnings := ExpiryWarnings.new
    decommissioned := state.decommissioned
    eventsClosed := false
    pc := .select }

/-- The clock after a resync, and the mark it leaves in the state. -/
def resync (r : RunLoop) (serverTime : ℤ) (instant : ℕ) : RunLoop :=
  let clock := r.clock.resyncFromServer serverTime instant
  { r with
    clock := clock
    state := { r.state with trustedHighWaterMark := clock.highWaterMark } }

/-- The arm of the loop that receives a server event. -/
def onEvent (r : RunLoop) (event : ServerEvent) (instant : ℕ) : RunLoop :=
  -- Once decommissioned, whatever still arrives is ignored.
  if r.decommissioned then r
  else
    match event with
    | .decommission =>
      { r with state := { r.state with decommissioned := true, session := none }, pc := .save .accept }
    | .sessionState session messageTime =>
      let a := applyServerMessage r.state.session r.state.lastAppliedAt session messageTime
      let r := { r with state := { r.state with session := a.session, lastAppliedAt := a.lastAppliedAt } }
      if a.applied then { r.resync messageTime instant with pc := .save .loop } else r
    | .serverTime time => r.resync time instant

/-- What a tick asks of the platform, and the loop's record of it. -/
def enforce (desired : Desired) (currentlyBlocked : Bool) : Bool × List Effect :=
  match desired, currentlyBlocked with
  | .blocked, _ => (true, [.disableUsage])
  | .allowed, true => (false, [.enableUsage])
  | .allowed, false => (false, [])

/-- The ticker's arm of the loop, up to the warnings. -/
def onTick (r : RunLoop) (osNow : ℤ) (instants : Instants) : RunLoop × List Effect :=
  if r.decommissioned then (r, [])
  else
    let (trustedNow, clock) := r.clock.now osNow instants
    let (session, desired) := advance r.state.session trustedNow
    let (currentlyBlocked, effects) := enforce desired r.currentlyBlocked
    ({ r with
        clock := clock
        state := { r.state with trustedHighWaterMark := clock.highWaterMark, session := session }
        currentlyBlocked := currentlyBlocked
        pc := .warn trustedNow },
      effects)

theorem onEvent_of_decommissioned {r : RunLoop} (h : r.decommissioned = true)
    (event : ServerEvent) (instant : ℕ) : r.onEvent event instant = r := if_pos h

theorem onTick_of_decommissioned {r : RunLoop} (h : r.decommissioned = true) (osNow : ℤ)
    (instants : Instants) : r.onTick osNow instants = (r, []) := if_pos h

@[simp] theorem onEvent_decommissioned (r : RunLoop) (event : ServerEvent) (instant : ℕ) :
    (r.onEvent event instant).decommissioned = r.decommissioned := by
  unfold onEvent
  split_ifs
  · rfl
  · cases event with
    | decommission => rfl
    | sessionState session messageTime =>
      dsimp only
      split_ifs <;> rfl
    | serverTime time => rfl

/-- An event is handled between two saves. -/
theorem onEvent_pc_ne_rename {r : RunLoop} (h : r.pc = .select) (event : ServerEvent) (instant : ℕ)
    (next : AfterSave) : (r.onEvent event instant).pc ≠ .rename next := by
  unfold onEvent
  split_ifs
  · simp [h]
  · cases event with
    | decommission => simp
    | sessionState session messageTime =>
      dsimp only
      split_ifs <;> simp [h]
    | serverTime time => simp [resync, h]

theorem onTick_pc_ne_rename {r : RunLoop} (h : r.pc = .select) (osNow : ℤ) (instants : Instants)
    (next : AfterSave) : (r.onTick osNow instants).1.pc ≠ .rename next := by
  unfold onTick
  split_ifs
  · simp [h]
  · simp

end RunLoop

namespace Host

/-- What happens to a host. -/
inductive Label
  /-- The service starts: `run` is entered. -/
  | start (now : ℤ) (instant : ℕ)
  /-- The process dies; `torn` when it dies while it writes the temporary file. -/
  | crash (torn : Bool)
  /-- A shutdown signal. -/
  | shutdown
  /-- `events_rx.recv()` returns; `none` when the connection task is gone. -/
  | event (event : Option ServerEvent) (instant : ℕ)
  | tick (osNow : ℤ) (instants : Instants)
  /-- The next step of the iteration that is under way. -/
  | proceed
  /-- The `enroll` command, run while the service is stopped, once the server has answered. -/
  | enroll (credentials : Credentials) (now : ℤ)
deriving DecidableEq, Repr

/-- `run` up to its loop: what it starts with, unless it refuses to start. -/
def boot (disk : Disk) (now : ℤ) (instant : ℕ) : Option (Process × List Effect) :=
  match Store.load disk now with
  | .error _ => none
  | .ok state =>
    match state.credentials with
    | none => if state.decommissioned then some (.inert, []) else none
    | some _ =>
      some (.running (RunLoop.start state instant),
        if state.decommissioned then [.ackDecommission] else [])

/-- The state that `enroll` saves. -/
def enrolledState (state : AgentState) (credentials : Credentials) : AgentState :=
  { state with credentials := some credentials, decommissioned := false, session := none }

/-- The state directory after a successful `enroll`. -/
def enrolled (disk : Disk) (credentials : Credentials) (now : ℤ) : Disk :=
  let (disk, state) := Store.loadForEnroll disk now
  Store.save disk (enrolledState state credentials)

/-- The state directory that a crash leaves. -/
def crashed (disk : Disk) (process : Process) (torn : Bool) : Disk :=
  match process with
  | .running r =>
    match r.pc with
    | .save _ => if torn then { disk with tmp := .corrupt } else disk
    | _ => disk
  | _ => disk

/-- A crash leaves what a start would load. -/
@[simp] theorem crashed_stateJson (disk : Disk) (process : Process) (torn : Bool) :
    (crashed disk process torn).stateJson = disk.stateJson := by
  unfold crashed
  split
  · split
    · split_ifs <;> rfl
    · rfl
  · rfl

/-- One further step of the iteration under way. -/
def proceed (disk : Disk) (r : RunLoop) : Option (Host × List Effect) :=
  match r.pc with
  | .select => none
  | .warn trustedNow =>
    let (warnings, effects) := r.warnings.reconcile r.state.session trustedNow
    some (⟨disk, .running { r with warnings := warnings, pc := .save .loop }⟩, effects.map .warn)
  | .save next => some (⟨Store.writeTmp disk r.state, .running { r with pc := .rename next }⟩, [])
  | .rename .loop => some (⟨Store.rename disk, .running { r with pc := .select }⟩, [])
  | .rename .accept => some (⟨Store.rename disk, .running { r with pc := .acceptWarn }⟩, [])
  | .rename .exit => some (⟨Store.rename disk, .stopped⟩, [])
  | .acceptWarn =>
    some (⟨disk, .running { r with pc := .acceptAck }⟩, [.warn .dismissFinalWarning])
  | .acceptAck =>
    some (⟨disk, .running { r with pc := .select, decommissioned := true }⟩, [.ackDecommission])

/-- One step, and what it does outside. -/
def step (h : Host) : Label → Option (Host × List Effect)
  | .start now instant =>
    match h.process with
    | .stopped => (boot h.disk now instant).map fun (process, effects) => (⟨h.disk, process⟩, effects)
    | _ => none
  | .crash torn =>
    match h.process with
    | .stopped => none
    | process => some (⟨crashed h.disk process torn, .stopped⟩, [])
  | .shutdown =>
    match h.process with
    | .stopped => none
    | .inert => some (⟨h.disk, .stopped⟩, [])
    | .running r =>
      match r.pc with
      | .select => some (⟨h.disk, .running { r with pc := .save .exit }⟩, [])
      | _ => none
  | .event event instant =>
    match h.process with
    | .running r =>
      match r.pc, event with
      | .select, some event => some (⟨h.disk, .running (r.onEvent event instant)⟩, [])
      | .select, none =>
        if r.eventsClosed then none else some (⟨h.disk, .running { r with eventsClosed := true }⟩, [])
      | _, _ => none
    | _ => none
  | .tick osNow instants =>
    match h.process with
    | .running r =>
      match r.pc with
      | .select =>
        let (r, effects) := r.onTick osNow instants
        some (⟨h.disk, .running r⟩, effects)
      | _ => none
    | _ => none
  | .proceed =>
    match h.process with
    | .running r => proceed h.disk r
    | _ => none
  | .enroll credentials now =>
    match h.process with
    | .stopped => some (⟨enrolled h.disk credentials now, .stopped⟩, [])
    | _ => none

/-! ## What one step can do -/

/-- What `boot` can make of the state directory. -/
inductive Boots (disk : Disk) (instant : ℕ) : Process → List Effect → Prop
  | inert {state : AgentState} : disk.stateJson = .readable state → state.credentials = none →
      state.decommissioned = true → Boots disk instant .inert []
  | running {state : AgentState} {credentials : Credentials} : disk.stateJson = .readable state →
      state.credentials = some credentials →
      Boots disk instant (.running (RunLoop.start state instant))
        (if state.decommissioned then [.ackDecommission] else [])

/-- The steps of a host, one constructor for each place in the code. -/
inductive Step : Host → Label → Host → List Effect → Prop
  | start {disk now instant process effects} : Boots disk instant process effects →
      Step ⟨disk, .stopped⟩ (.start now instant) ⟨disk, process⟩ effects
  | crash {h torn} : h.process ≠ .stopped →
      Step h (.crash torn) ⟨crashed h.disk h.process torn, .stopped⟩ []
  | shutdownInert {disk} : Step ⟨disk, .inert⟩ .shutdown ⟨disk, .stopped⟩ []
  | shutdown {disk r} : r.pc = .select →
      Step ⟨disk, .running r⟩ .shutdown ⟨disk, .running { r with pc := .save .exit }⟩ []
  | event {disk r event instant} : r.pc = .select →
      Step ⟨disk, .running r⟩ (.event (some event) instant)
        ⟨disk, .running (r.onEvent event instant)⟩ []
  | closed {disk r instant} : r.pc = .select → r.eventsClosed = false →
      Step ⟨disk, .running r⟩ (.event none instant)
        ⟨disk, .running { r with eventsClosed := true }⟩ []
  | tick {disk r osNow instants} : r.pc = .select →
      Step ⟨disk, .running r⟩ (.tick osNow instants) ⟨disk, .running (r.onTick osNow instants).1⟩
        (r.onTick osNow instants).2
  | warn {disk r trustedNow} : r.pc = .warn trustedNow →
      Step ⟨disk, .running r⟩ .proceed
        ⟨disk, .running { r with
          warnings := (r.warnings.reconcile r.state.session trustedNow).1, pc := .save .loop }⟩
        ((r.warnings.reconcile r.state.session trustedNow).2.map .warn)
  | save {disk r next} : r.pc = .save next →
      Step ⟨disk, .running r⟩ .proceed
        ⟨Store.writeTmp disk r.state, .running { r with pc := .rename next }⟩ []
  | renameLoop {disk r} : r.pc = .rename .loop →
      Step ⟨disk, .running r⟩ .proceed ⟨Store.rename disk, .running { r with pc := .select }⟩ []
  | renameAccept {disk r} : r.pc = .rename .accept →
      Step ⟨disk, .running r⟩ .proceed ⟨Store.rename disk, .running { r with pc := .acceptWarn }⟩ []
  | renameExit {disk r} : r.pc = .rename .exit →
      Step ⟨disk, .running r⟩ .proceed ⟨Store.rename disk, .stopped⟩ []
  | acceptWarn {disk r} : r.pc = .acceptWarn →
      Step ⟨disk, .running r⟩ .proceed ⟨disk, .running { r with pc := .acceptAck }⟩
        [.warn .dismissFinalWarning]
  | acceptAck {disk r} : r.pc = .acceptAck →
      Step ⟨disk, .running r⟩ .proceed
        ⟨disk, .running { r with pc := .select, decommissioned := true }⟩ [.ackDecommission]
  | enroll {disk credentials now} :
      Step ⟨disk, .stopped⟩ (.enroll credentials now) ⟨enrolled disk credentials now, .stopped⟩ []

theorem boots_of_boot {disk : Disk} {now : ℤ} {instant : ℕ} {process : Process}
    {effects : List Effect} (h : boot disk now instant = some (process, effects)) :
    Boots disk instant process effects := by
  unfold boot Store.load at h
  rcases hd : disk.stateJson with _ | _ | state
  · simp [hd, AgentState.default] at h
  · simp [hd] at h
  · simp only [hd] at h
    rcases hc : state.credentials with _ | credentials
    · simp only [hc] at h
      split_ifs at h with hdec
      obtain ⟨rfl, rfl⟩ := Prod.mk.inj (Option.some.inj h)
      exact .inert hd hc hdec
    · simp only [hc] at h
      obtain ⟨rfl, rfl⟩ := Prod.mk.inj (Option.some.inj h)
      exact .running hd hc

theorem step_of_proceed {disk : Disk} {r : RunLoop} {h' : Host} {effects : List Effect}
    (h : proceed disk r = some (h', effects)) :
    Step ⟨disk, .running r⟩ .proceed h' effects := by
  unfold proceed at h
  split at h
  · cases h
  all_goals
    rename_i hpc
    obtain ⟨rfl, rfl⟩ := Prod.mk.inj (Option.some.inj h)
  · exact .warn hpc
  · exact .save hpc
  · exact .renameLoop hpc
  · exact .renameAccept hpc
  · exact .renameExit hpc
  · exact .acceptWarn hpc
  · exact .acceptAck hpc

/-- Every step is one of `Step`. -/
theorem step_cases {h h' : Host} {label : Label} {effects : List Effect}
    (hs : step h label = some (h', effects)) : Step h label h' effects := by
  obtain ⟨disk, process⟩ := h
  cases label with
  | start now instant =>
    cases process with
    | stopped =>
      obtain ⟨⟨process, es⟩, hb, he⟩ := Option.map_eq_some_iff.1 hs
      obtain ⟨rfl, rfl⟩ := Prod.mk.inj he
      exact .start (boots_of_boot hb)
    | inert => cases hs
    | running r => cases hs
  | crash torn =>
    cases process with
    | stopped => cases hs
    | inert =>
      obtain ⟨rfl, rfl⟩ := Prod.mk.inj (Option.some.inj hs)
      exact .crash (h := ⟨disk, .inert⟩) (by simp)
    | running r =>
      obtain ⟨rfl, rfl⟩ := Prod.mk.inj (Option.some.inj hs)
      exact .crash (h := ⟨disk, .running r⟩) (by simp)
  | shutdown =>
    cases process with
    | stopped => cases hs
    | inert =>
      obtain ⟨rfl, rfl⟩ := Prod.mk.inj (Option.some.inj hs)
      exact .shutdownInert
    | running r =>
      simp only [step] at hs
      split at hs
      · rename_i hpc
        obtain ⟨rfl, rfl⟩ := Prod.mk.inj (Option.some.inj hs)
        exact .shutdown hpc
      · cases hs
  | event event instant =>
    cases process with
    | stopped => cases hs
    | inert => cases hs
    | running r =>
      simp only [step] at hs
      split at hs
      · rename_i hpc
        obtain ⟨rfl, rfl⟩ := Prod.mk.inj (Option.some.inj hs)
        exact .event hpc
      · rename_i hpc
        split_ifs at hs with hopen
        obtain ⟨rfl, rfl⟩ := Prod.mk.inj (Option.some.inj hs)
        exact .closed hpc (by simpa using hopen)
      · cases hs
  | tick osNow instants =>
    cases process with
    | stopped => cases hs
    | inert => cases hs
    | running r =>
      simp only [step] at hs
      split at hs
      · rename_i hpc
        obtain ⟨rfl, rfl⟩ := Prod.mk.inj (Option.some.inj hs)
        exact .tick hpc
      · cases hs
  | proceed =>
    cases process with
    | stopped => cases hs
    | inert => cases hs
    | running r => exact step_of_proceed hs
  | enroll credentials now =>
    cases process with
    | stopped =>
      obtain ⟨rfl, rfl⟩ := Prod.mk.inj (Option.some.inj hs)
      exact .enroll
    | inert => cases hs
    | running r => cases hs

theorem boot_of_boots {disk : Disk} {instant : ℕ} {process : Process} {effects : List Effect}
    (h : Boots disk instant process effects) (now : ℤ) :
    boot disk now instant = some (process, effects) := by
  cases h with
  | inert hd hc hdec => simp [boot, Store.load, hd, hc, hdec]
  | running hd hc => simp [boot, Store.load, hd, hc]

/-- `Step` is the step function. -/
theorem step_iff {h h' : Host} {label : Label} {effects : List Effect} :
    step h label = some (h', effects) ↔ Step h label h' effects := by
  refine ⟨step_cases, fun hs => ?_⟩
  cases hs with
  | @start disk now _ _ _ hb => simp [step, boot_of_boots hb now]
  | crash hne =>
    obtain ⟨disk, process⟩ := h
    cases process with
    | stopped => exact absurd rfl hne
    | inert => rfl
    | running r => rfl
  | shutdownInert | enroll => rfl
  | shutdown hpc | event hpc | tick hpc => simp [step, hpc]
  | closed hpc hopen => simp [step, hpc, hopen]
  | warn hpc | save hpc | renameLoop hpc | renameAccept hpc | renameExit hpc | acceptWarn hpc
  | acceptAck hpc => simp [step, proceed, hpc]

/-- An enrolment finds the service stopped, and leaves it so. -/
theorem step_enroll_cases {h h' : Host} {credentials : Credentials} {now : ℤ}
    {effects : List Effect} (hs : step h (.enroll credentials now) = some (h', effects)) :
    h.process = .stopped ∧ h' = ⟨enrolled h.disk credentials now, .stopped⟩ := by
  obtain ⟨disk, process⟩ := h
  cases step_cases hs
  exact ⟨rfl, rfl⟩

end Host

end Taymna.Agent
