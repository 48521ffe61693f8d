import Taymna.Agent.Session

/-!
# Expiry warnings (`agent/src/warning.rs`)

`ExpiryWarnings.reconcile` decides, once per tick and after enforcement, what the user is told as
an active session runs down. It is pure: what to show is a list of `WarningEffect` values.
-/

namespace Taymna.Agent

/-- Thresholds, in seconds remaining. -/
def tenMinutes : ℤ := 10 * 60

/-- `FIVE_MINUTES`. -/
def fiveMinutes : ℤ := 5 * 60

/-- `ONE_MINUTE`. -/
def oneMinute : ℤ := 60

/-- `FINAL`. -/
def final : ℤ := 30

/-- How long a gap between two evaluations still counts as watching. -/
def continuityGap : ℤ := 30

/-- The warning levels, by increasing urgency. -/
inductive Level
  | tenMinutes
  | fiveMinutes
  | oneMinute
  | final
deriving DecidableEq, Repr

/-- The place of a level in the derived order. -/
def Level.rank : Level → ℕ
  | .tenMinutes => 0
  | .fiveMinutes => 1
  | .oneMinute => 2
  | .final => 3

/-- `platform::Urgency`. -/
inductive Urgency
  | normal
  | critical
deriving DecidableEq, Repr

/-- One user-facing notification (`platform::Notice`). -/
structure Notice where
  title : String
  body : String
  urgency : Urgency
deriving DecidableEq, Repr

/-- What the notifier is asked to do. -/
inductive WarningEffect
  | notify (notice : Notice)
  | showFinalWarning (remainingSecs : ℤ)
  | dismissFinalWarning
deriving DecidableEq, Repr

/-- The deadline that is being warned about. -/
structure DeadlineKey where
  sessionId : String
  expiresAt : ℤ
deriving DecidableEq, Repr

/-- What has been shown for the current deadline. -/
structure ExpiryWarnings where
  key : Option DeadlineKey
  fired : Option Level
  lastSeen : Option ℤ
  finalVisible : Bool
deriving DecidableEq, Repr

/-- `TimeDelta::num_seconds`: whole seconds, truncated toward zero. -/
def numSeconds (d : ℤ) : ℤ := d.tdiv 1000000000

/-- The level that a continuously running agent crosses into. -/
def levelFor (remaining : ℤ) : Option Level :=
  if remaining ≤ Agent.final then some .final
  else if remaining ≤ Agent.oneMinute then some .oneMinute
  else if remaining ≤ Agent.fiveMinutes then some .fiveMinutes
  else if remaining ≤ Agent.tenMinutes then some .tenMinutes
  else none

/-- The level of an evaluation that did not follow on from a recent one: inside the last minute
the final warning is shown straight away. -/
def arrivingLateLevel (remaining : ℤ) : Option Level :=
  if remaining ≤ Agent.oneMinute then some .final else levelFor remaining

/-- Copy for a threshold notification. -/
def noticeFor (level : Level) (remaining : ℤ) : Notice :=
  let minutes := (remaining + 30).tdiv 60
  let title := toString minutes ++ " minute" ++ (if minutes = 1 then "" else "s") ++ " remaining"
  match level with
  | .tenMinutes =>
    { title := title
      body := "Your Taymna session will end soon. Save your work before time runs out."
      urgency := .normal }
  | .fiveMinutes =>
    { title := title
      body := "Save your work and sign out of your accounts before this computer locks."
      urgency := .normal }
  | .oneMinute | .final =>
    { title := title
      body := "Your session is about to end. Save your work and sign out now."
      urgency := .critical }

namespace ExpiryWarnings

/-- `ExpiryWarnings::new`. -/
def new : ExpiryWarnings := { key := none, fired := none, lastSeen := none, finalVisible := false }

/-- `dismiss_final`. -/
def dismissFinal (w : ExpiryWarnings) : ExpiryWarnings × List WarningEffect :=
  if w.finalVisible then ({ w with finalVisible := false }, [.dismissFinalWarning]) else (w, [])

/-- The deadline of an `ACTIVE` session. -/
def keyOf (session : Option SessionSnapshot) : Option DeadlineKey :=
  (session.filter fun s => s.status = .active).map fun s =>
    { sessionId := s.id, expiresAt := s.expiresAt }

/-- A new key takes down any final warning and starts over. -/
def rekey (w : ExpiryWarnings) (key : Option DeadlineKey) : ExpiryWarnings × List WarningEffect :=
  if key ≠ w.key then
    let (w, effects) := w.dismissFinal
    ({ w with key := key, fired := none, lastSeen := none }, effects)
  else (w, [])

/-- Whether nobody was watching since the last evaluation. -/
def arrivedLate (previous : Option ℤ) (now : ℤ) : Bool :=
  match previous with
  | none => true
  | some last => numSeconds (now - last) > continuityGap

/-- The part of `reconcile` that judges the deadline in `w.key`. -/
def warn (w : ExpiryWarnings) (deadline : DeadlineKey) (now : ℤ) :
    ExpiryWarnings × List WarningEffect :=
  let remaining := numSeconds (deadline.expiresAt - now)
  let previous := w.lastSeen
  let w := { w with lastSeen := some now }
  if remaining ≤ 0 then w.dismissFinal
  else
    match (if arrivedLate previous now then arrivingLateLevel remaining else levelFor remaining) with
    | none => (w, [])
    | some level =>
      -- Only ever towards more urgent, so no threshold is replayed.
      if w.fired.any fun already => level.rank ≤ already.rank then (w, [])
      else
        let w := { w with fired := some level }
        match level with
        | .final => ({ w with finalVisible := true }, [.showFinalWarning remaining])
        | level => (w, [.notify (noticeFor level remaining)])

/-- `reconcile`, called once for each tick. -/
def reconcile (w : ExpiryWarnings) (session : Option SessionSnapshot) (now : ℤ) :
    ExpiryWarnings × List WarningEffect :=
  let (w, effects) := w.rekey (keyOf session)
  match w.key with
  | none => (w, effects)
  | some deadline =>
    let (w, shown) := w.warn deadline now
    (w, effects ++ shown)

end ExpiryWarnings

end Taymna.Agent
