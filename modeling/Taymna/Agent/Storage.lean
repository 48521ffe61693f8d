import Taymna.Agent.Session

/-!
# Local persistence and the clock guard (`agent/src/storage.rs`)

`AgentState` is what `state.json` holds. The directory of the state file is a `Disk`: the file and
the temporary file that `Store::save` writes before it renames it over the first, so that a crash
between the two leaves the old state in place. `ClockGuard` is the anti-rollback wall-clock guard;
a `std::time::Instant` is its number of nanoseconds on the process's monotonic clock, an `ℕ`.
-/

namespace Taymna.Agent

/-- What `enroll` has been given. -/
structure Credentials where
  serverUrl : String
  machineId : String
  machineSecret : String
deriving DecidableEq, Repr

/-- The contents of `state.json`. -/
structure AgentState where
  credentials : Option Credentials
  decommissioned : Bool
  session : Option SessionSnapshot
  lastAppliedAt : ℤ
  trustedHighWaterMark : ℤ
deriving DecidableEq, Repr

/-- `AgentState::default()`, with its one reading of the local clock. -/
def AgentState.default (now : ℤ) : AgentState :=
  { credentials := none
    decommissioned := false
    session := none
    lastAppliedAt := now
    trustedHighWaterMark := now }

/-! ## The store -/

/-- What reading a state file can give: nothing there, contents that do not parse, or a state. -/
inductive StateFile
  | absent
  | corrupt
  | readable (state : AgentState)
deriving DecidableEq, Repr

/-- The state directory: `state.json` and `state.json.tmp`. -/
structure Disk where
  stateJson : StateFile
  tmp : StateFile
deriving DecidableEq, Repr

/-- `io::ErrorKind`, as far as `load` returns it. -/
inductive ErrorKind
  | invalidData
deriving DecidableEq, Repr

namespace Store

/-- `Store::load`: a missing file is a blank state, an unparsable one is an error. -/
def load (d : Disk) (now : ℤ) : Except ErrorKind AgentState :=
  match d.stateJson with
  | .readable state => .ok state
  | .corrupt => .error .invalidData
  | .absent => .ok (AgentState.default now)

/-- `Store::load_for_enroll`: enrolling recovers from an unparsable file, which is set aside. -/
def loadForEnroll (d : Disk) (now : ℤ) : Disk × AgentState :=
  match load d now with
  | .ok state => (d, state)
  | .error .invalidData => ({ d with stateJson := .absent }, AgentState.default now)

/-- The first half of `Store::save`: the temporary file is written. -/
def writeTmp (d : Disk) (state : AgentState) : Disk := { d with tmp := .readable state }

/-- The second half of `Store::save`: the temporary file replaces the state file. -/
def rename (d : Disk) : Disk := { stateJson := d.tmp, tmp := .absent }

/-- A whole `Store::save`. -/
def save (d : Disk) (state : AgentState) : Disk := rename (writeTmp d state)

@[simp] theorem writeTmp_stateJson (d : Disk) (state : AgentState) :
    (writeTmp d state).stateJson = d.stateJson := rfl

@[simp] theorem writeTmp_tmp (d : Disk) (state : AgentState) :
    (writeTmp d state).tmp = .readable state := rfl

@[simp] theorem rename_stateJson (d : Disk) : (rename d).stateJson = d.tmp := rfl

@[simp] theorem rename_tmp (d : Disk) : (rename d).tmp = .absent := rfl

@[simp] theorem save_stateJson (d : Disk) (state : AgentState) :
    (save d state).stateJson = .readable state := rfl

/-- What a save has completed, the next start loads. -/
theorem load_save (d : Disk) (state : AgentState) (now : ℤ) :
    load (save d state) now = .ok state := rfl

/-- The temporary file alone changes nothing that a start sees. -/
theorem load_writeTmp (d : Disk) (state : AgentState) (now : ℤ) :
    load (writeTmp d state) now = load d now := rfl

end Store

/-! ## The clock guard -/

/-- `chrono::TimeDelta::MAX`, `i64::MAX` milliseconds, in nanoseconds. -/
def TimeDelta.max : ℕ := 9223372036854775807 * 1000000

/-- `chrono::Duration::from_std`, which fails past `TimeDelta.max`. -/
def Duration.fromStd (d : ℕ) : Option ℤ := if d ≤ TimeDelta.max then some d else none

/-- The monotonic clock in one call of `ClockGuard::now`: what `anchor.elapsed()` reads, and the
`Instant::now()` of the new anchor after it. -/
structure Instants where
  read : ℕ
  anchored : ℕ
  le : read ≤ anchored
deriving DecidableEq, Repr

/-- In a call that begins at `instant`, after these times. -/
def Instants.after (instant toElapsed toAnchor : ℕ) : Instants where
  read := instant + toElapsed
  anchored := instant + toElapsed + toAnchor
  le := Nat.le_add_right _ _

/-- Both readings show `instant`. -/
def Instants.at (instant : ℕ) : Instants := .after instant 0 0

/-- The last trusted time, and the `Instant` at which it was read. -/
structure ClockGuard where
  highWaterMark : ℤ
  anchor : ℕ
deriving DecidableEq, Repr

namespace ClockGuard

/-- `ClockGuard::new`. -/
def new (persistedHighWaterMark : ℤ) (instant : ℕ) : ClockGuard :=
  { highWaterMark := persistedHighWaterMark, anchor := instant }

/-- `self.anchor.elapsed()` as a chrono duration, zero when it cannot be one. -/
def elapsed (g : ClockGuard) (instant : ℕ) : ℤ :=
  (Duration.fromStd (instant - g.anchor)).getD 0

/-- The time that a call of `now` returns when the OS clock reads `osNow`. -/
def trusted (g : ClockGuard) (osNow : ℤ) (instant : ℕ) : ℤ :=
  if osNow ≥ g.highWaterMark then osNow else g.highWaterMark + g.elapsed instant

/-- `ClockGuard::now`. The time from `instants.read` to `instants.anchored` is in no anchor's elapsed
time. -/
def now (g : ClockGuard) (osNow : ℤ) (instants : Instants) : ℤ × ClockGuard :=
  let trusted := g.trusted osNow instants.read
  (trusted, { highWaterMark := trusted, anchor := instants.anchored })

/-- `ClockGuard::resync_from_server`. -/
def resyncFromServer (g : ClockGuard) (serverTime : ℤ) (instant : ℕ) : ClockGuard :=
  if serverTime > g.highWaterMark then { highWaterMark := serverTime, anchor := instant } else g

theorem elapsed_nonneg (g : ClockGuard) (instant : ℕ) : 0 ≤ g.elapsed instant := by
  unfold elapsed Duration.fromStd
  split_ifs <;> simp

theorem elapsed_of_le {g : ClockGuard} {instant : ℕ} (h : instant - g.anchor ≤ TimeDelta.max) :
    g.elapsed instant = ((instant - g.anchor : ℕ) : ℤ) := by
  rw [elapsed, Duration.fromStd, if_pos h]
  rfl

theorem elapsed_of_gt {g : ClockGuard} {instant : ℕ} (h : TimeDelta.max < instant - g.anchor) :
    g.elapsed instant = 0 := by
  rw [elapsed, Duration.fromStd, if_neg (not_le.2 h)]
  rfl

theorem trusted_of_ge {g : ClockGuard} {osNow : ℤ} (h : g.highWaterMark ≤ osNow)
    (instant : ℕ) : g.trusted osNow instant = osNow := if_pos h

theorem trusted_of_lt {g : ClockGuard} {osNow : ℤ} (h : osNow < g.highWaterMark)
    (instant : ℕ) : g.trusted osNow instant = g.highWaterMark + g.elapsed instant :=
  if_neg (not_le.2 h)

/-- Trusted time never runs backward, whatever the OS clock shows. -/
theorem highWaterMark_le_trusted (g : ClockGuard) (osNow : ℤ) (instant : ℕ) :
    g.highWaterMark ≤ g.trusted osNow instant := by
  rcases lt_or_ge osNow g.highWaterMark with h | h
  · rw [trusted_of_lt h]
    have := g.elapsed_nonneg instant
    omega
  · rwa [trusted_of_ge h]

@[simp] theorem now_fst (g : ClockGuard) (osNow : ℤ) (instants : Instants) :
    (g.now osNow instants).1 = g.trusted osNow instants.read := rfl

@[simp] theorem now_highWaterMark (g : ClockGuard) (osNow : ℤ) (instants : Instants) :
    (g.now osNow instants).2.highWaterMark = g.trusted osNow instants.read := rfl

@[simp] theorem now_anchor (g : ClockGuard) (osNow : ℤ) (instants : Instants) :
    (g.now osNow instants).2.anchor = instants.anchored := rfl

@[simp] theorem new_highWaterMark (mark : ℤ) (instant : ℕ) :
    (new mark instant).highWaterMark = mark := rfl

@[simp] theorem resyncFromServer_highWaterMark (g : ClockGuard) (serverTime : ℤ)
    (instant : ℕ) :
    (g.resyncFromServer serverTime instant).highWaterMark = max g.highWaterMark serverTime := by
  unfold resyncFromServer
  split_ifs with h
  · exact (max_eq_right h.le).symm
  · exact (max_eq_left (not_lt.1 h)).symm

end ClockGuard

end Taymna.Agent
