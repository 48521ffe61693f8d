import Taymna.Automata.Run
import Taymna.Agent.RunLoop

/-!
# Setting the clock back while the agent is stopped

A `Timeline` is a host in true time, with an OS clock that may have been set back while the agent
was stopped. The same schedule is run twice: once as it is, and once with every set-back taken out.
What a restarted guard knows is the persisted mark, and its anchor is the restart. So the downtime
is lost unless the mark already stood at or past the true time of the restart, but for the time that
a tick takes from the OS clock to the elapsed time: `Timeline.Covered` says, tick by tick, when nothing
is lost, and in every run whose ticks are covered no block comes late.
-/

namespace Taymna.Agent

open Automata

/-- What happens in true time. -/
inductive Action
  /-- The agent starts, after the stopped machine's clock has been set back by `setBack`. -/
  | start (setBack : ℕ)
  | crash (torn : Bool)
  | shutdown
  | event (event : Option ServerEvent)
  /-- The OS clock is read, so much later the elapsed time, and so much later the new anchor. -/
  | tick (toElapsed toAnchor : ℕ)
  | proceed
deriving DecidableEq, Repr

/-- An action, and the true time since the end of the one before. -/
structure Moment where
  after : ℕ
  action : Action
deriving DecidableEq, Repr

/-- A host, the true time that has passed, and how far its clock has been set back. -/
structure Timeline where
  host : Host
  elapsed : ℕ
  behind : ℕ
deriving DecidableEq, Repr

/-- The step of the host that an action is, on the readings of its clocks. -/
def Action.label (osNow : ℤ) (instant : ℕ) : Action → Host.Label
  | .start _ => .start osNow instant
  | .crash torn => .crash torn
  | .shutdown => .shutdown
  | .event e => .event e instant
  | .tick toElapsed toAnchor => .tick osNow (.after instant toElapsed toAnchor)
  | .proceed => .proceed

def Action.setBack : Action → ℕ
  | .start setBack => setBack
  | _ => 0

/-- How long it takes. -/
def Action.duration : Action → ℕ
  | .tick toElapsed toAnchor => toElapsed + toAnchor
  | _ => 0

/-- How long a tick takes from the OS clock to the elapsed time. -/
def Action.toElapsed? : Action → Option ℕ
  | .tick toElapsed _ => some toElapsed
  | _ => none

/-- The same action on a machine whose clock nobody touches. -/
def Action.honest : Action → Action
  | .start _ => .start 0
  | action => action

def Moment.honest (m : Moment) : Moment := { m with action := m.action.honest }

namespace Timeline

/-- The beginning of both runs: the agent is stopped, and the clock is right. -/
def init (disk : Disk) : Timeline := { host := ⟨disk, .stopped⟩, elapsed := 0, behind := 0 }

/-- One moment, where true time zero is `epoch` on the right clock. -/
def step (epoch : ℤ) (t : Timeline) (m : Moment) : Option (Timeline × List Effect) :=
  let now := t.elapsed + m.after
  let behind := t.behind + m.action.setBack
  (Host.step t.host (m.action.label (epoch + now - behind) now)).map fun (host, effects) =>
    ({ host := host, elapsed := now + m.action.duration, behind := behind }, effects)

theorem step_eq_some {epoch : ℤ} {t t' : Timeline} {m : Moment} {effects : List Effect} :
    step epoch t m = some (t', effects) ↔ ∃ host, Host.step t.host (m.action.label
        (epoch + (t.elapsed + m.after : ℕ) - (t.behind + m.action.setBack : ℕ))
        (t.elapsed + m.after)) = some (host, effects) ∧
      t' = { host := host, elapsed := t.elapsed + m.after + m.action.duration,
             behind := t.behind + m.action.setBack } := by
  simp [step, eq_comm (a := t'), and_comm (b := _ = effects)]

end Timeline

/-- The guard loses nothing to a clock that reads `osNow` at true time `now`: it extrapolates, from
a mark that was not behind the true time of its anchor by more than what it counts on top. -/
def ClockGuard.Covers (g : ClockGuard) (epoch osNow : ℤ) (now toElapsed : ℕ) : Prop :=
  osNow < g.highWaterMark ∧ epoch + g.anchor ≤ g.highWaterMark + toElapsed ∧
    now + toElapsed - g.anchor ≤ TimeDelta.max

instance (g : ClockGuard) (epoch osNow : ℤ) (now toElapsed : ℕ) :
    Decidable (g.Covers epoch osNow now toElapsed) := inferInstanceAs (Decidable (_ ∧ _))

/-- So does the guard of the agent, if it ticks. -/
def Process.Covers (process : Process) (epoch osNow : ℤ) (now toElapsed : ℕ) : Prop :=
  ∀ r, process = .running r → r.decommissioned = false → r.clock.Covers epoch osNow now toElapsed

instance (process : Process) (epoch osNow : ℤ) (now toElapsed : ℕ) :
    Decidable (process.Covers epoch osNow now toElapsed) :=
  match process with
  | .running r => decidable_of_iff (r.decommissioned = false → r.clock.Covers epoch osNow now toElapsed)
      (by simp [Process.Covers])
  | .stopped => isTrue (by simp [Process.Covers])
  | .inert => isTrue (by simp [Process.Covers])

/-- A tick finds the clock never set back so far, or the guard covering for it. -/
def Timeline.Covered (epoch : ℤ) (t : Timeline) (m : Moment) : Prop :=
  ∀ toElapsed ∈ m.action.toElapsed?, t.behind = 0 ∨
    t.host.process.Covers epoch (epoch + (t.elapsed + m.after : ℕ) - t.behind) (t.elapsed + m.after)
      toElapsed

instance (epoch : ℤ) (t : Timeline) (m : Moment) : Decidable (t.Covered epoch m) :=
  inferInstanceAs (Decidable (∀ toElapsed ∈ m.action.toElapsed?, _ ∨ _))

/-! ## The guards of the two runs -/

/-- What the second guard extrapolates to is never less. -/
structure ClockGuard.Leads (a b : ClockGuard) : Prop where
  mark : a.highWaterMark ≤ b.highWaterMark
  lead : a.highWaterMark - a.anchor ≤ b.highWaterMark - b.anchor

namespace ClockGuard

variable {a b : ClockGuard} {epoch osNow : ℤ} {now toElapsed : ℕ}

theorem Leads.resync (h : a.Leads b) (hb : b.anchor ≤ now) (serverTime : ℤ) :
    (a.resyncFromServer serverTime now).Leads (b.resyncFromServer serverTime now) := by
  obtain ⟨hmark, hlead⟩ := h
  unfold resyncFromServer
  split_ifs with ha hb'
  · exact ⟨le_rfl, le_rfl⟩
  · exact ⟨not_lt.1 hb', by dsimp only; omega⟩
  · exact absurd (hmark.trans_lt ‹_›) ha
  · exact ⟨hmark, hlead⟩

theorem Covers.trusted (h : b.Covers epoch osNow now toElapsed) :
    b.trusted osNow (now + toElapsed) = b.highWaterMark + (now + toElapsed - b.anchor : ℕ) := by
  rw [trusted_of_lt h.1, elapsed_of_le h.2.2]

/-- Against a covering guard, the right clock gains nothing. -/
theorem Leads.trusted_le (h : a.Leads b) (hb : b.anchor ≤ now)
    (hc : b.Covers epoch osNow now toElapsed) :
    a.trusted (epoch + now) (now + toElapsed) ≤ b.trusted osNow (now + toElapsed) := by
  obtain ⟨hmark, hlead⟩ := h
  rw [hc.trusted]
  obtain ⟨-, hanchor, -⟩ := hc
  rcases lt_or_ge (epoch + now) a.highWaterMark with hlt | hge
  · rw [trusted_of_lt hlt]
    have helapsed : a.elapsed (now + toElapsed) ≤ (now + toElapsed - a.anchor : ℕ) := by
      rcases le_or_gt (now + toElapsed - a.anchor) TimeDelta.max with hle | hgt
      · exact (elapsed_of_le hle).le
      · rw [elapsed_of_gt hgt]
        exact Int.natCast_nonneg _
    omega
  · rw [trusted_of_ge hge]
    omega

/-- A guard that does not cover for a clock that has been set back falls behind true time. -/
theorem trusted_lt_of_not_covers {behind : ℕ} (hbehind : 0 < behind)
    (hmax : now + toElapsed - b.anchor ≤ TimeDelta.max) (hanchor : b.anchor ≤ now)
    (hc : ¬ b.Covers epoch (epoch + now - behind) now toElapsed) :
    b.trusted (epoch + now - behind) (now + toElapsed) < epoch + now := by
  rcases lt_or_ge (epoch + now - behind) b.highWaterMark with hlt | hge
  · have hmark : b.highWaterMark + toElapsed < epoch + b.anchor := by
      by_contra hle
      exact hc ⟨hlt, not_lt.1 hle, hmax⟩
    rw [trusted_of_lt hlt, elapsed_of_le hmax]
    omega
  · rw [trusted_of_ge hge]
    omega

end ClockGuard

/-! ## The hosts of the two runs -/

/-- The second state takes the same turns as the first; and as long as `u`, it holds the same
session next to a mark that is not less. -/
structure AgentState.Leads (u : Prop) (a b : AgentState) : Prop where
  credentials : b.credentials = a.credentials
  decommissioned : b.decommissioned = a.decommissioned
  lastAppliedAt : b.lastAppliedAt = a.lastAppliedAt
  session : u → b.session = a.session
  mark : u → a.trustedHighWaterMark ≤ b.trustedHighWaterMark

/-- Two state files that read alike. -/
inductive StateFile.Leads (u : Prop) : StateFile → StateFile → Prop
  | absent : Leads u .absent .absent
  | corrupt : Leads u .corrupt .corrupt
  | readable {a b : AgentState} : a.Leads u b → Leads u (.readable a) (.readable b)

/-- A place in the iteration, without the trusted time. -/
def Pc.shape : Pc → Pc
  | .warn _ => .warn 0
  | pc => pc

structure RunLoop.Leads (u : Prop) (now : ℕ) (r s : RunLoop) : Prop where
  state : r.state.Leads u s.state
  clock : u → r.clock.Leads s.clock
  anchors : r.clock.anchor ≤ now ∧ s.clock.anchor ≤ now
  pc : s.pc.shape = r.pc.shape
  decommissioned : s.decommissioned = r.decommissioned
  eventsClosed : s.eventsClosed = r.eventsClosed

inductive Process.Leads (u : Prop) (now : ℕ) : Process → Process → Prop
  | stopped : Leads u now .stopped .stopped
  | inert : Leads u now .inert .inert
  | running {r s : RunLoop} : r.Leads u now s → Leads u now (.running r) (.running s)

structure Host.Leads (u : Prop) (now : ℕ) (h k : Host) : Prop where
  stateJson : h.disk.stateJson.Leads u k.disk.stateJson
  tmp : h.disk.tmp.Leads u k.disk.tmp
  process : h.process.Leads u now k.process

theorem AgentState.Leads.refl (u : Prop) (a : AgentState) : a.Leads u a :=
  ⟨rfl, rfl, rfl, fun _ => rfl, fun _ => le_rfl⟩

theorem AgentState.Leads.mono {u v : Prop} (huv : v → u) {a b : AgentState} (h : a.Leads u b) :
    a.Leads v b :=
  ⟨h.credentials, h.decommissioned, h.lastAppliedAt, fun hv => h.session (huv hv),
    fun hv => h.mark (huv hv)⟩

theorem StateFile.Leads.refl (u : Prop) (f : StateFile) : f.Leads u f := by
  cases f with
  | absent => exact .absent
  | corrupt => exact .corrupt
  | readable a => exact .readable (.refl u a)

theorem StateFile.Leads.mono {u v : Prop} (huv : v → u) {f g : StateFile} (h : f.Leads u g) :
    f.Leads v g := by
  cases h with
  | absent => exact .absent
  | corrupt => exact .corrupt
  | readable h => exact .readable (h.mono huv)

theorem Process.Leads.refl (u : Prop) {now : ℕ} {process : Process}
    (h : ∀ r, process = .running r → r.clock.anchor ≤ now) : process.Leads u now process := by
  cases process with
  | stopped => exact .stopped
  | inert => exact .inert
  | running r =>
    exact .running ⟨.refl u r.state, fun _ => ⟨le_rfl, le_rfl⟩, ⟨h r rfl, h r rfl⟩, rfl, rfl, rfl⟩

theorem Pc.eq_of_shape {pc pc' : Pc} (h : pc'.shape = pc.shape) (hpc : ∀ t, pc ≠ .warn t) :
    pc' = pc := by
  cases pc with
  | warn t => exact absurd rfl (hpc t)
  | _ => cases pc' <;> simp_all [shape]

theorem Pc.eq_warn_of_shape {pc' : Pc} {t : ℤ} (h : pc'.shape = (Pc.warn t).shape) :
    ∃ t', pc' = .warn t' := by
  cases pc' with
  | warn t' => exact ⟨t', rfl⟩
  | _ => simp [shape] at h

/-! ## One step of the two hosts -/

theorem RunLoop.disableUsage_mem_enforce_iff (desired : Desired) (currentlyBlocked : Bool) :
    .disableUsage ∈ (enforce desired currentlyBlocked).2 ↔ desired = .blocked := by
  cases desired <;> cases currentlyBlocked <;> simp [enforce]

namespace RunLoop.Leads

variable {u v : Prop} {now : ℕ} {r s : RunLoop}

/-- Time passes, and the loops go on with what a step left alone. -/
theorem move {now' : ℕ} {r' s' : RunLoop} (h : r.Leads u now s) (hnow : now ≤ now') (hvu : v → u)
    (hr : r'.state = r.state ∧ r'.clock = r.clock) (hs : s'.state = s.state ∧ s'.clock = s.clock)
    (hpc : s'.pc.shape = r'.pc.shape) (hd : s'.decommissioned = r'.decommissioned)
    (he : s'.eventsClosed = r'.eventsClosed) : r'.Leads v now' s' where
  state := by
    rw [hr.1, hs.1]
    exact h.state.mono hvu
  clock hv := by
    rw [hr.2, hs.2]
    exact h.clock (hvu hv)
  anchors := by
    rw [hr.2, hs.2]
    exact ⟨h.anchors.1.trans hnow, h.anchors.2.trans hnow⟩
  pc := hpc
  decommissioned := hd
  eventsClosed := he

/-- But for the time of a warning, the loops are at the same place. -/
theorem pc_eq (h : r.Leads u now s) {pc : Pc} (hpc : r.pc = pc) (hwarn : ∀ t, pc ≠ .warn t) :
    s.pc = pc :=
  Pc.eq_of_shape (h.pc.trans (congrArg Pc.shape hpc)) hwarn

theorem resync (h : r.Leads u now s) (serverTime : ℤ) :
    (r.resync serverTime now).Leads u now (s.resync serverTime now) where
  state :=
    { credentials := h.state.credentials
      decommissioned := h.state.decommissioned
      lastAppliedAt := h.state.lastAppliedAt
      session := h.state.session
      mark := fun hu => ((h.clock hu).resync h.anchors.2 serverTime).mark }
  clock hu := (h.clock hu).resync h.anchors.2 serverTime
  anchors := by
    refine ⟨?_, ?_⟩ <;> dsimp only [RunLoop.resync] <;> unfold ClockGuard.resyncFromServer <;>
      split_ifs
    · exact le_rfl
    · exact h.anchors.1
    · exact le_rfl
    · exact h.anchors.2
  pc := h.pc
  decommissioned := h.decommissioned
  eventsClosed := h.eventsClosed

theorem onEvent (h : r.Leads u now s) (event : ServerEvent) :
    (r.onEvent event now).Leads u now (s.onEvent event now) := by
  rcases hd : r.decommissioned with _ | _
  · have hd' : s.decommissioned = false := h.decommissioned.trans hd
    unfold RunLoop.onEvent
    rw [if_neg (by simp [hd]), if_neg (by simp [hd'])]
    cases event with
    | decommission =>
      exact ⟨⟨h.state.credentials, rfl, h.state.lastAppliedAt, fun _ => rfl, h.state.mark⟩, h.clock,
        h.anchors, rfl, h.decommissioned, h.eventsClosed⟩
    | sessionState session messageTime =>
      dsimp only
      rw [h.state.lastAppliedAt]
      rcases le_or_gt messageTime r.state.lastAppliedAt with hle | hlt
      · simp only [applyServerMessage_stale hle]
        exact ⟨⟨h.state.credentials, h.state.decommissioned, rfl, h.state.session, h.state.mark⟩,
          h.clock, h.anchors, h.pc, h.decommissioned, h.eventsClosed⟩
      · simp only [applyServerMessage_newer hlt, if_true]
        have happlied : RunLoop.Leads u now
            { r with state := { r.state with session := session, lastAppliedAt := messageTime } }
            { s with state := { s.state with session := session, lastAppliedAt := messageTime } } :=
          ⟨⟨h.state.credentials, h.state.decommissioned, rfl, fun _ => rfl, h.state.mark⟩, h.clock,
            h.anchors, h.pc, h.decommissioned, h.eventsClosed⟩
        exact (happlied.resync messageTime).move le_rfl id ⟨rfl, rfl⟩ ⟨rfl, rfl⟩ rfl
          h.decommissioned h.eventsClosed
    | serverTime time => exact h.resync time
  · rwa [onEvent_of_decommissioned hd, onEvent_of_decommissioned (h.decommissioned.trans hd)]

/-- The tick of the second run blocks whenever the first one does; and when it does not, neither
session is touched. -/
theorem onTick {epoch osNow : ℤ} {toElapsed : ℕ} (h : r.Leads u now s) (toAnchor : ℕ)
    (hc : u → s.decommissioned = false → s.clock.Covers epoch osNow now toElapsed) :
    let instants := Instants.after now toElapsed toAnchor
    (r.onTick (epoch + now) instants).1.Leads (u ∧ .disableUsage ∉ (s.onTick osNow instants).2)
        instants.anchored (s.onTick osNow instants).1 ∧
      (u → .disableUsage ∈ (r.onTick (epoch + now) instants).2 →
        .disableUsage ∈ (s.onTick osNow instants).2) := by
  intro instants
  have hnow : now ≤ instants.anchored := by
    simp only [instants, Instants.after]
    omega
  rcases hd : r.decommissioned with _ | _
  · have hd' : s.decommissioned = false := h.decommissioned.trans hd
    have htrusted : u → r.clock.trusted (epoch + now) instants.read ≤ s.clock.trusted osNow
        instants.read := fun hu =>
      (h.clock hu).trusted_le h.anchors.2 (hc hu hd')
    simp only [RunLoop.onTick, hd, hd', Bool.false_eq_true, if_false]
    simp only [disableUsage_mem_enforce_iff, ClockGuard.now_fst]
    refine ⟨⟨⟨h.state.credentials, h.state.decommissioned, h.state.lastAppliedAt, ?_, ?_⟩,
      ?_, ⟨le_rfl, le_rfl⟩, rfl, rfl, h.eventsClosed⟩, ?_⟩
    · rintro ⟨hu, hopen⟩
      have hallowed : (advance s.state.session (s.clock.trusted osNow instants.read)).2 = .allowed := by
        cases hdes : (advance s.state.session (s.clock.trusted osNow instants.read)).2 with
        | allowed => rfl
        | blocked => exact absurd hdes hopen
      have hallowed' : (advance r.state.session (r.clock.trusted (epoch + now) instants.read)).2 =
          .allowed := by
        rw [h.state.session hu, advance_allowed_iff] at hallowed
        obtain ⟨s₀, hs₀, hact, hlt⟩ := hallowed
        exact (advance_allowed_iff _ _).2 ⟨s₀, hs₀, hact, (htrusted hu).trans_lt hlt⟩
      change (advance s.state.session _).1 = (advance r.state.session _).1
      rw [advance_fst_of_allowed hallowed, advance_fst_of_allowed hallowed']
      exact h.state.session hu
    · exact fun hu => htrusted hu.1
    · exact fun hu => ⟨htrusted hu.1, by
        simpa using htrusted hu.1⟩
    · intro hu hblocked
      rw [advance_blocked_iff] at hblocked ⊢
      rw [h.state.session hu]
      exact fun s₀ hs₀ hact => (hblocked s₀ hs₀ hact).trans (htrusted hu)
  · rw [onTick_of_decommissioned hd, onTick_of_decommissioned (h.decommissioned.trans hd)]
    exact ⟨h.move hnow And.left ⟨rfl, rfl⟩ ⟨rfl, rfl⟩ h.pc h.decommissioned h.eventsClosed,
      fun _ hm => by cases hm⟩

end RunLoop.Leads

/-- The second host takes the step too, and blocks if the first one does. -/
def Host.Follows (u : Prop) (now : ℕ) (k : Host) (label : Label) (h' : Host)
    (effects : List Effect) : Prop :=
  ∃ k' effects', Step k label k' effects' ∧ h'.Leads (u ∧ .disableUsage ∉ effects') now k' ∧
    (u → .disableUsage ∈ effects → .disableUsage ∈ effects')

namespace Host.Leads

variable {u v : Prop} {now now' : ℕ} {h k : Host}

theorem refl (u : Prop) (hr : ∀ r, h.process = .running r → r.clock.anchor ≤ now) :
    h.Leads u now h :=
  ⟨.refl u _, .refl u _, .refl u hr⟩

theorem mono (hvu : v → u) (hl : h.Leads u now k) : h.Leads v now k where
  stateJson := hl.stateJson.mono hvu
  tmp := hl.tmp.mono hvu
  process := by
    obtain ⟨disk, process⟩ := h
    obtain ⟨disk', process'⟩ := k
    cases hl.process with
    | stopped => exact .stopped
    | inert => exact .inert
    | running hr =>
      exact .running (hr.move le_rfl hvu ⟨rfl, rfl⟩ ⟨rfl, rfl⟩ hr.pc hr.decommissioned hr.eventsClosed)

theorem boots {disk disk' : Disk} (hd : disk.stateJson.Leads u disk'.stateJson) {process : Process}
    {effects : List Effect} (hb : Boots disk now process effects) :
    ∃ process', Boots disk' now process' effects ∧ process.Leads u now process' := by
  cases hb with
  | @inert state hs hc hdec =>
    rw [hs] at hd
    cases hk : disk'.stateJson with
    | readable state' =>
      rw [hk] at hd
      cases hd with
      | readable hd =>
        exact ⟨.inert, .inert hk (hd.credentials.trans hc) (hd.decommissioned.trans hdec), .inert⟩
    | absent | corrupt =>
      rw [hk] at hd
      cases hd
  | @running state credentials hs hc =>
    rw [hs] at hd
    cases hk : disk'.stateJson with
    | readable state' =>
      rw [hk] at hd
      cases hd with
      | readable hd =>
        rw [← hd.decommissioned]
        exact ⟨_, .running hk (hd.credentials.trans hc), .running ⟨hd, fun hu => ⟨hd.mark hu,
          sub_le_sub_right (hd.mark hu) _⟩, ⟨le_rfl, le_rfl⟩, rfl, hd.decommissioned, rfl⟩⟩
    | absent | corrupt =>
      rw [hk] at hd
      cases hd

theorem quiet {label : Label} {h' k' : Host} {effects effects' : List Effect}
    (hs : Step k label k' effects') (hl : h'.Leads u now k') (hno : .disableUsage ∉ effects) :
    k.Follows u now label h' effects :=
  ⟨k', effects', hs, hl.mono And.left, fun _ hm => absurd hm hno⟩

section Step

variable {h' : Host} {effects : List Effect}

theorem start (hl : h.Leads u now k) {wall : ℤ} (osNow : ℤ)
    (hstep : Step h (.start wall now') h' effects) :
    k.Follows u now' (.start osNow now') h' effects := by
  obtain ⟨disk', process'⟩ := k
  obtain ⟨hjson, htmp, hproc⟩ := hl
  cases hstep with
  | start hb =>
    cases hproc
    obtain ⟨process'', hb', hp⟩ := boots hjson hb
    refine quiet (.start hb') ⟨hjson, htmp, hp⟩ ?_
    cases hb with
    | inert => simp
    | running => split_ifs <;> simp

/-- A crash tears the temporary file of both hosts, or of neither. -/
theorem crashed_tmp (hl : h.Leads u now k) (torn : Bool) :
    (crashed h.disk h.process torn).tmp.Leads u (crashed k.disk k.process torn).tmp := by
  obtain ⟨disk, process⟩ := h
  obtain ⟨disk', process'⟩ := k
  obtain ⟨-, htmp, hproc⟩ := hl
  cases hproc with
  | stopped | inert => exact htmp
  | @running r s hr =>
    have htorn : ∀ next, s.pc = .save next ↔ r.pc = .save next := fun next =>
      ⟨fun hs => (Pc.eq_of_shape hr.pc.symm (by simp [hs])).trans hs, fun hs => hr.pc_eq hs (by simp)⟩
    dsimp only [crashed]
    cases hpc : r.pc with
    | save next =>
      rw [(htorn next).2 hpc]
      dsimp only
      split_ifs
      · exact .corrupt
      · exact htmp
    | _ =>
      have hpc' : ∀ next, s.pc ≠ .save next := fun next hs => by
        simp [(htorn next).1 hs] at hpc
      cases hs : s.pc with
      | save next => exact absurd hs (hpc' next)
      | _ => exact htmp

theorem crash (hl : h.Leads u now k) {torn : Bool} (hstep : Step h (.crash torn) h' effects) :
    k.Follows u now' (.crash torn) h' effects := by
  cases hstep with
  | crash hne =>
    refine quiet (.crash fun hc => hne ?_) ⟨?_, hl.crashed_tmp torn, .stopped⟩ (by simp)
    · have hproc := hl.process
      rw [hc] at hproc
      generalize h.process = process at hproc
      cases hproc
      rfl
    · rw [crashed_stateJson, crashed_stateJson]
      exact hl.stateJson

theorem shutdown (hl : h.Leads u now k) (hnow : now ≤ now')
    (hstep : Step h .shutdown h' effects) : k.Follows u now' .shutdown h' effects := by
  obtain ⟨disk', process'⟩ := k
  obtain ⟨hjson, htmp, hproc⟩ := hl
  cases hstep with
  | shutdownInert =>
    cases hproc
    exact quiet .shutdownInert ⟨hjson, htmp, .stopped⟩ (by simp)
  | shutdown hpc =>
    cases hproc with
    | running hr =>
      refine quiet (.shutdown (hr.pc_eq hpc (by simp))) ⟨hjson, htmp, .running ?_⟩ (by simp)
      exact hr.move hnow id ⟨rfl, rfl⟩ ⟨rfl, rfl⟩ rfl hr.decommissioned hr.eventsClosed

theorem event (hl : h.Leads u now k) (hnow : now ≤ now') {e : Option ServerEvent}
    (hstep : Step h (.event e now') h' effects) : k.Follows u now' (.event e now') h' effects := by
  obtain ⟨disk', process'⟩ := k
  obtain ⟨hjson, htmp, hproc⟩ := hl
  cases hstep with
  | event hpc =>
    cases hproc with
    | running hr =>
      have hr' := hr.move hnow id ⟨rfl, rfl⟩ ⟨rfl, rfl⟩ hr.pc hr.decommissioned hr.eventsClosed
      exact quiet (.event (hr.pc_eq hpc (by simp))) ⟨hjson, htmp, .running (hr'.onEvent _)⟩ (by simp)
  | closed hpc hopen =>
    cases hproc with
    | running hr =>
      refine quiet (.closed (hr.pc_eq hpc (by simp)) (hr.eventsClosed.trans hopen))
        ⟨hjson, htmp, .running ?_⟩ (by simp)
      exact hr.move hnow id ⟨rfl, rfl⟩ ⟨rfl, rfl⟩ hr.pc hr.decommissioned rfl

theorem tick {epoch osNow : ℤ} {toElapsed toAnchor : ℕ} (hl : h.Leads u now k) (hnow : now ≤ now')
    (hguard : u → k.process.Covers epoch osNow now' toElapsed)
    (hstep : Step h (.tick (epoch + now') (.after now' toElapsed toAnchor)) h' effects) :
    k.Follows u (now' + (toElapsed + toAnchor)) (.tick osNow (.after now' toElapsed toAnchor)) h'
      effects := by
  obtain ⟨disk', process'⟩ := k
  obtain ⟨hjson, htmp, hproc⟩ := hl
  rw [← Nat.add_assoc]
  cases hstep with
  | tick hpc =>
    cases hproc with
    | @running r s hr =>
      have hr' := hr.move hnow id ⟨rfl, rfl⟩ ⟨rfl, rfl⟩ hr.pc hr.decommissioned hr.eventsClosed
      obtain ⟨hleads, hblocks⟩ := hr'.onTick toAnchor fun hu hd => hguard hu s rfl hd
      exact ⟨_, _, .tick (hr.pc_eq hpc (by simp)),
        ⟨hjson.mono And.left, htmp.mono And.left, .running hleads⟩, hblocks⟩

theorem proceed (hl : h.Leads u now k) (hnow : now ≤ now')
    (hstep : Step h .proceed h' effects) : k.Follows u now' .proceed h' effects := by
  obtain ⟨disk', process'⟩ := k
  obtain ⟨hjson, htmp, hproc⟩ := hl
  cases hstep with
  | warn hpc =>
    cases hproc with
    | running hr =>
      obtain ⟨t', hpc'⟩ := Pc.eq_warn_of_shape (hr.pc.trans (congrArg Pc.shape hpc))
      refine quiet (.warn hpc') ⟨hjson, htmp, .running ?_⟩ (by simp)
      exact hr.move hnow id ⟨rfl, rfl⟩ ⟨rfl, rfl⟩ rfl hr.decommissioned hr.eventsClosed
  | save hpc =>
    cases hproc with
    | running hr =>
      refine quiet (.save (hr.pc_eq hpc (by simp))) ⟨hjson, .readable hr.state, .running ?_⟩ (by simp)
      exact hr.move hnow id ⟨rfl, rfl⟩ ⟨rfl, rfl⟩ rfl hr.decommissioned hr.eventsClosed
  | renameLoop hpc =>
    cases hproc with
    | running hr =>
      refine quiet (.renameLoop (hr.pc_eq hpc (by simp))) ⟨htmp, .absent, .running ?_⟩ (by simp)
      exact hr.move hnow id ⟨rfl, rfl⟩ ⟨rfl, rfl⟩ rfl hr.decommissioned hr.eventsClosed
  | renameAccept hpc =>
    cases hproc with
    | running hr =>
      refine quiet (.renameAccept (hr.pc_eq hpc (by simp))) ⟨htmp, .absent, .running ?_⟩ (by simp)
      exact hr.move hnow id ⟨rfl, rfl⟩ ⟨rfl, rfl⟩ rfl hr.decommissioned hr.eventsClosed
  | renameExit hpc =>
    cases hproc with
    | running hr =>
      exact quiet (.renameExit (hr.pc_eq hpc (by simp))) ⟨htmp, .absent, .stopped⟩ (by simp)
  | acceptWarn hpc =>
    cases hproc with
    | running hr =>
      refine quiet (.acceptWarn (hr.pc_eq hpc (by simp))) ⟨hjson, htmp, .running ?_⟩ (by simp)
      exact hr.move hnow id ⟨rfl, rfl⟩ ⟨rfl, rfl⟩ rfl hr.decommissioned hr.eventsClosed
  | acceptAck hpc =>
    cases hproc with
    | running hr =>
      refine quiet (.acceptAck (hr.pc_eq hpc (by simp))) ⟨hjson, htmp, .running ?_⟩ (by simp)
      exact hr.move hnow id ⟨rfl, rfl⟩ ⟨rfl, rfl⟩ rfl rfl hr.eventsClosed

theorem step {epoch : ℤ} (osNow : ℤ) {action : Action} (hl : h.Leads u now k) (hnow : now ≤ now')
    (hguard : ∀ toElapsed ∈ action.toElapsed?, u → k.process.Covers epoch osNow now' toElapsed)
    (hstep : Step h (action.label (epoch + now') now') h' effects) :
    k.Follows u (now' + action.duration) (action.label osNow now') h' effects := by
  cases action with
  | start => exact hl.start osNow hstep
  | crash => exact hl.crash hstep
  | shutdown => exact hl.shutdown hnow hstep
  | event => exact hl.event hnow hstep
  | tick toElapsed toAnchor => exact hl.tick hnow (hguard toElapsed rfl) hstep
  | proceed => exact hl.proceed hnow hstep

end Step

end Host.Leads

/-- No clock is anchored in the future. -/
theorem Host.anchored_step {now now' : ℕ} {osNow : ℤ} {h h' : Host} {action : Action}
    {effects : List Effect} (ha : ∀ r, h.process = .running r → r.clock.anchor ≤ now)
    (hnow : now ≤ now') (hstep : Step h (action.label osNow now') h' effects) :
    ∀ r, h'.process = .running r → r.clock.anchor ≤ now' + action.duration := by
  intro r hr
  rw [← sub_add_cancel osNow (now' : ℤ)] at hstep
  obtain ⟨⟨disk, process⟩, effects', -, hleads, -⟩ := (Leads.refl False ha).step osNow
    hnow (fun _ _ hf => hf.elim) hstep
  have hproc := hleads.process
  rw [hr] at hproc
  cases hproc with
  | running hrs => exact hrs.anchors.1

/-! ## The two runs -/

namespace Timeline

/-- The pair of runs, with what each has asked of the platform so far. -/
structure Paired (p q : Timeline × List Effect) : Prop where
  elapsed : q.1.elapsed = p.1.elapsed
  honest : p.1.behind = 0
  same : q.1.behind = 0 → q.1.host = p.1.host ∧ q.2 = p.2
  anchored : ∀ r, p.1.host.process = .running r → r.clock.anchor ≤ p.1.elapsed
  leads : p.1.host.Leads (.disableUsage ∉ q.2) p.1.elapsed q.1.host
  blocks : .disableUsage ∈ p.2 → .disableUsage ∈ q.2

theorem paired_init (disk : Disk) : Paired (init disk, []) (init disk, []) where
  elapsed := rfl
  honest := rfl
  same _ := ⟨rfl, rfl⟩
  anchored r hr := by cases hr
  leads := .refl _ fun r hr => by cases hr
  blocks := id

theorem honest_label (action : Action) (osNow : ℤ) (instant : ℕ) :
    action.honest.label osNow instant = action.label osNow instant := by
  cases action <;> rfl

@[simp] theorem honest_duration (action : Action) : action.honest.duration = action.duration := by
  cases action <;> rfl

@[simp] theorem honest_setBack (action : Action) : action.honest.setBack = 0 := by
  cases action <;> rfl

theorem Paired.step {epoch : ℤ} {p p' q : Timeline × List Effect} {m : Moment} (hpq : Paired p q)
    (hc : Covered epoch q.1 m) (hp : logged (Timeline.step epoch) p m.honest = some p') :
    ∃ q', logged (Timeline.step epoch) q m = some q' ∧ Paired p' q' := by
  obtain ⟨t', effects, ht', rfl⟩ := logged_eq_some.1 hp
  obtain ⟨host, hhost, rfl⟩ := step_eq_some.1 ht'
  simp only [Moment.honest, honest_label, honest_setBack, hpq.honest, Nat.add_zero,
    Nat.cast_zero, sub_zero] at hhost
  have hstep := Host.step_cases hhost
  have hnow : p.1.elapsed ≤ p.1.elapsed + m.after := Nat.le_add_right _ _
  have hanchored := Host.anchored_step hpq.anchored hnow hstep
  rw [← honest_duration] at hanchored
  rcases Nat.eq_zero_or_pos (q.1.behind + m.action.setBack) with hzero | hpos
  · -- The clock is still right: the second run does just what the first one does.
    obtain ⟨hq, hlog⟩ := hpq.same (by omega)
    refine ⟨_, logged_eq_some.2 ⟨_, effects, step_eq_some.2 ⟨host, ?_, rfl⟩, rfl⟩, ?_⟩
    · rw [hq, hpq.elapsed, hzero, Nat.cast_zero, sub_zero]
      exact hhost
    · exact {
        elapsed := by simp [Moment.honest, hpq.elapsed]
        honest := by simp [Moment.honest, hpq.honest]
        same := fun _ => ⟨rfl, by rw [hlog]⟩
        anchored := hanchored
        leads := .refl _ hanchored
        blocks := by rw [hlog]; exact id }
  · have hguard : ∀ toElapsed ∈ m.action.toElapsed?, .disableUsage ∉ q.2 → q.1.host.process.Covers
        epoch (epoch + (p.1.elapsed + m.after : ℕ) - (q.1.behind + m.action.setBack : ℕ))
          (p.1.elapsed + m.after) toElapsed := by
      intro toElapsed htick _
      have hset : m.action.setBack = 0 := by
        cases haction : m.action with
        | start => simp [haction, Action.toElapsed?] at htick
        | _ => rfl
      rcases hc toElapsed htick with hzero | hcovers
      · omega
      · simpa [hpq.elapsed, hset] using hcovers
    obtain ⟨k', effects', hk, hleads, hblocks⟩ := hpq.leads.step _ hnow hguard hstep
    rw [← honest_duration] at hleads
    refine ⟨_, logged_eq_some.2 ⟨_, effects', step_eq_some.2 ⟨k', ?_, rfl⟩, rfl⟩, ?_⟩
    · rw [hpq.elapsed]
      exact Host.step_iff.2 hk
    · exact {
        elapsed := by simp [Moment.honest, hpq.elapsed]
        honest := by simp [Moment.honest, hpq.honest]
        same := fun hz => absurd hz (by dsimp only; omega)
        anchored := hanchored
        leads := hleads.mono fun hno => by simpa [not_or] using hno
        blocks := by
          intro hm
          by_cases hq : .disableUsage ∈ q.2
          · exact List.mem_append_left _ hq
          · rcases List.mem_append.1 hm with hm | hm
            · exact absurd (hpq.blocks hm) hq
            · exact List.mem_append_right _ (hblocks hq hm) }

/-- Some tick of `ms` returns `Blocked`: the loop has disabled usage. -/
def Blocks (epoch : ℤ) (t : Timeline) (ms : List Moment) : Prop :=
  ∃ t' effects, run (logged (step epoch)) (t, []) ms = some (t', effects) ∧ .disableUsage ∈ effects

/-- However far the schedule is followed: once the run on the right clock has blocked, so has the
other one. -/
def BlocksNoLater (epoch : ℤ) (disk : Disk) (schedule : List Moment) : Prop :=
  ∀ before, before <+: schedule → Blocks epoch (init disk) (before.map Moment.honest) →
    Blocks epoch (init disk) before

theorem anchored_run {epoch : ℤ} {disk : Disk} {schedule : List Moment} {t : Timeline}
    (h : run (silent (step epoch)) (init disk) schedule = some t) :
    ∀ r, t.host.process = .running r → r.clock.anchor ≤ t.elapsed := by
  refine run_invariant (I := fun t : Timeline =>
    ∀ r, t.host.process = .running r → r.clock.anchor ≤ t.elapsed) (fun t m t' ht hstep => ?_)
    (fun r hr => by cases hr) h
  obtain ⟨effects, he⟩ := silent_eq_some.1 hstep
  obtain ⟨host, hhost, rfl⟩ := step_eq_some.1 he
  exact Host.anchored_step ht (Nat.le_add_right _ _) (Host.step_cases hhost)

/-- A schedule whose ticks are all covered blocks no later for its set-backs; and at a tick that is
not covered, the session that is over at that very moment is allowed to go on. -/
theorem set_back_while_stopped (epoch : ℤ) (disk : Disk) (schedule : List Moment) :
    (Along (silent (step epoch)) (Covered epoch) (init disk) schedule →
        BlocksNoLater epoch disk schedule) ∧
      ∀ t m r toElapsed, run (silent (step epoch)) (init disk) schedule = some t →
        m.action.toElapsed? = some toElapsed → t.host.process = .running r →
        t.elapsed + m.after + toElapsed - r.clock.anchor ≤ TimeDelta.max → ¬ Covered epoch t m →
        ∃ s, (advance (some s) (epoch + (t.elapsed + m.after : ℕ))).2 = .blocked ∧
          (advance (some s) (r.clock.trusted (epoch + (t.elapsed + m.after : ℕ) - t.behind)
            (t.elapsed + m.after + toElapsed))).2 = .allowed := by
  refine ⟨?_, ?_⟩
  · rintro hc before ⟨after, rfl⟩ ⟨t, effects, hrun, hmem⟩
    have hbefore := (along_logged_iff (p := (init disk, []))).2 (along_append_iff.1 hc).1
    obtain ⟨q, hq, hpq⟩ := run_simulation (fun p q m p' hpq hcov hp => hpq.step hcov hp)
      (paired_init disk) hbefore hrun
    exact ⟨q.1, q.2, hq, hpq.blocks hmem⟩
  · intro t m r toElapsed hrun htick hr hmax hc
    have hanchor := (anchored_run hrun r hr).trans (Nat.le_add_right _ m.after)
    have hpos : 0 < t.behind := Nat.pos_of_ne_zero fun hzero => hc fun _ _ => Or.inl hzero
    have hcov : ¬ r.clock.Covers epoch (epoch + (t.elapsed + m.after : ℕ) - t.behind)
        (t.elapsed + m.after) toElapsed := by
      refine fun hcov => hc fun e he => Or.inr fun r' hr' _ => ?_
      obtain rfl := Process.running.inj (hr.symm.trans hr')
      obtain rfl := Option.some.inj (htick.symm.trans he)
      exact hcov
    have hlt := ClockGuard.trusted_lt_of_not_covers hpos hmax hanchor hcov
    refine ⟨⟨"", 0, epoch + (t.elapsed + m.after : ℕ), .active, 0⟩, ?_, ?_⟩
    · simp [advance_blocked_iff]
    · exact (advance_allowed_iff _ _).2 ⟨_, rfl, rfl, hlt⟩

/-- An enrolled machine with a session until 100. -/
def sessionDisk : Disk :=
  Store.save ⟨.absent, .absent⟩
    { AgentState.default 10 with
      credentials := some ⟨"https://taymna.example.com", "m1", "s1"⟩
      session := some ⟨"s1", 0, 100, .active, 10⟩ }

/-- A server time of 90 at 15 puts the mark ahead; the set-back of the restart is covered at both of the
ticks after it, though the first of them loses the time until its anchor. -/
theorem set_back_while_stopped_ahead : BlocksNoLater 10 sessionDisk
    [⟨5, .start 0⟩, ⟨0, .event (some (.serverTime 90))⟩, ⟨5, .tick 1 2⟩, ⟨0, .proceed⟩, ⟨0, .proceed⟩,
      ⟨0, .proceed⟩, ⟨0, .crash false⟩, ⟨1, .start 15⟩, ⟨1, .tick 1 2⟩, ⟨0, .proceed⟩, ⟨0, .proceed⟩,
      ⟨0, .proceed⟩, ⟨4, .tick 1 1⟩] :=
  (set_back_while_stopped 10 sessionDisk _).1 (by decide)

/-- The machine is switched off at 20 and on again at 120, with its clock set back to 20. -/
def switchedOff : List Moment :=
  [⟨5, .start 0⟩, ⟨5, .tick 0 0⟩, ⟨0, .proceed⟩, ⟨0, .proceed⟩, ⟨0, .proceed⟩, ⟨0, .crash false⟩,
    ⟨100, .start 100⟩, ⟨1, .tick 0 0⟩]

/-- The downtime is forgotten: the session goes on past its deadline. -/
theorem downtime_extends_session : ¬ BlocksNoLater 10 sessionDisk switchedOff := by
  intro h
  obtain ⟨t, effects, hrun, hmem⟩ := h switchedOff List.prefix_rfl ⟨_, _, rfl, by decide⟩
  obtain ⟨-, rfl⟩ := Prod.mk.inj (Option.some.inj hrun)
  revert hmem
  decide

end Timeline

end Taymna.Agent
