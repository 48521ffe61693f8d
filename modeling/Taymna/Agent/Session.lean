import Mathlib.Algebra.Order.Ring.Int
import Mathlib.Tactic.Common

/-!
# The session state machine (`agent/src/session.rs`)

Pure functions over the session the agent holds: `applyServerMessage` takes in a pushed
`session_state` unless it is stale, and `advance` is one tick of local enforcement. A
`chrono::DateTime<Utc>` is its number of nanoseconds since the epoch, an `ℤ`.
-/

namespace Taymna.Agent

/-- `SessionStatus`. -/
inductive SessionStatus
  | active
  | expired
  | ended
deriving DecidableEq, Repr

/-- `SessionSnapshot`: the wire shape of a pushed session and its form in `state.json`. -/
structure SessionSnapshot where
  id : String
  startedAt : ℤ
  expiresAt : ℤ
  status : SessionStatus
  /-- The row's `updatedAt`; only used to reject stale messages. -/
  updatedAt : ℤ
deriving DecidableEq, Repr

/-- What the machine should be. -/
inductive Desired
  | allowed
  | blocked
deriving DecidableEq, Repr

/-- The outcome of `apply_server_message`: the two values it may overwrite, and its result. -/
structure Applied where
  session : Option SessionSnapshot
  lastAppliedAt : ℤ
  applied : Bool
deriving DecidableEq, Repr

/-- Takes in a pushed session, unless its time is not newer than the last one taken in. -/
def applyServerMessage (current : Option SessionSnapshot) (lastAppliedAt : ℤ)
    (incoming : Option SessionSnapshot) (messageTime : ℤ) : Applied :=
  if messageTime ≤ lastAppliedAt then
    { session := current, lastAppliedAt := lastAppliedAt, applied := false }
  else
    { session := incoming, lastAppliedAt := messageTime, applied := true }

theorem applyServerMessage_stale {messageTime lastAppliedAt : ℤ}
    (h : messageTime ≤ lastAppliedAt) (current incoming : Option SessionSnapshot) :
    applyServerMessage current lastAppliedAt incoming messageTime =
      { session := current, lastAppliedAt := lastAppliedAt, applied := false } := if_pos h

theorem applyServerMessage_newer {messageTime lastAppliedAt : ℤ}
    (h : lastAppliedAt < messageTime) (current incoming : Option SessionSnapshot) :
    applyServerMessage current lastAppliedAt incoming messageTime =
      { session := incoming, lastAppliedAt := messageTime, applied := true } :=
  if_neg (not_le.2 h)

theorem applyServerMessage_applied_iff (current : Option SessionSnapshot)
    (lastAppliedAt : ℤ) (incoming : Option SessionSnapshot) (messageTime : ℤ) :
    (applyServerMessage current lastAppliedAt incoming messageTime).applied = true ↔
      lastAppliedAt < messageTime := by
  unfold applyServerMessage
  split_ifs with h
  · exact iff_of_false (by simp) (not_lt.2 h)
  · exact iff_of_true rfl (not_le.1 h)

/-- The local `ACTIVE` to `EXPIRED` mark of a session whose deadline has passed. -/
def expire (trustedNow : ℤ) (s : SessionSnapshot) : SessionSnapshot :=
  if s.status = .active ∧ s.expiresAt ≤ trustedNow then { s with status := .expired } else s

/-- One tick of local enforcement: marks an overdue session and decides. -/
def advance (session : Option SessionSnapshot) (trustedNow : ℤ) :
    Option SessionSnapshot × Desired :=
  let session := session.map (expire trustedNow)
  match session with
  | some s =>
    if s.status = .active ∧ trustedNow < s.expiresAt then (session, .allowed)
    else (session, .blocked)
  | none => (session, .blocked)

theorem expire_of_lt {trustedNow : ℤ} {s : SessionSnapshot} (h : trustedNow < s.expiresAt) :
    expire trustedNow s = s := if_neg fun hc => absurd hc.2 (not_le.2 h)

theorem expire_of_not_active {trustedNow : ℤ} {s : SessionSnapshot}
    (h : s.status ≠ .active) : expire trustedNow s = s := if_neg fun hc => h hc.1

@[simp] theorem expire_expiresAt (trustedNow : ℤ) (s : SessionSnapshot) :
    (expire trustedNow s).expiresAt = s.expiresAt := by
  unfold expire
  split_ifs <;> rfl

/-- The mark is left exactly on an `ACTIVE` session that is overdue. -/
theorem expire_status_active_iff (trustedNow : ℤ) (s : SessionSnapshot) :
    (expire trustedNow s).status = .active ↔ s.status = .active ∧ trustedNow < s.expiresAt := by
  unfold expire
  split_ifs with h
  · exact iff_of_false (by simp) fun hc => absurd h.2 (not_le.2 hc.2)
  · constructor
    · intro hs
      exact ⟨hs, not_le.1 fun hle => h ⟨hs, hle⟩⟩
    · exact fun hs => hs.1

@[simp] theorem advance_fst (session : Option SessionSnapshot) (trustedNow : ℤ) :
    (advance session trustedNow).1 = session.map (expire trustedNow) := by
  unfold advance
  cases session with
  | none => rfl
  | some s =>
    simp only [Option.map_some]
    split_ifs <;> rfl

/-- `advance` allows exactly an `ACTIVE` session whose deadline lies ahead. -/
theorem advance_allowed_iff (session : Option SessionSnapshot) (trustedNow : ℤ) :
    (advance session trustedNow).2 = .allowed ↔
      ∃ s, session = some s ∧ s.status = .active ∧ trustedNow < s.expiresAt := by
  unfold advance
  cases session with
  | none => simp
  | some s =>
    simp only [Option.map_some, expire_status_active_iff, expire_expiresAt, Option.some.injEq,
      exists_eq_left']
    split_ifs with h
    · exact iff_of_true rfl h.1
    · exact iff_of_false (by simp) fun hc => h ⟨hc, hc.2⟩

theorem advance_blocked_iff (session : Option SessionSnapshot) (trustedNow : ℤ) :
    (advance session trustedNow).2 = .blocked ↔
      ∀ s, session = some s → s.status = .active → s.expiresAt ≤ trustedNow := by
  have h := (advance_allowed_iff session trustedNow).not
  have hd : (advance session trustedNow).2 = .blocked ↔
      ¬ (advance session trustedNow).2 = .allowed := by
    cases (advance session trustedNow).2 <;> simp
  rw [hd, h]
  push Not
  rfl

/-- A tick that allows leaves the session as it is. -/
theorem advance_fst_of_allowed {session : Option SessionSnapshot} {trustedNow : ℤ}
    (h : (advance session trustedNow).2 = .allowed) : (advance session trustedNow).1 = session := by
  obtain ⟨s, rfl, -, hlt⟩ := (advance_allowed_iff session trustedNow).1 h
  rw [advance_fst, Option.map_some, expire_of_lt hlt]

end Taymna.Agent
