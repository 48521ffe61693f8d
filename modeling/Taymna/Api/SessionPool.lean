import Taymna.Automata.Pool
import Taymna.Api.SessionCalls

/-!
# All the calls about one machine's sessions

The `start`, `extend`, `end` and `getActiveSession` calls and the runs of `SessionsSweeper.sweep`,
in a `Pool` over the machine's rows. A run of `SessionPool.next` is an interleaving of them at their
awaits; a `tick` lets time pass between two readings of the clock. -/

namespace Taymna.Api

open Automata

variable {Hash : Type*}

/-! ## The sweeper (`api/src/modules/sessions/sessions.sweeper.ts`) -/

/-- Where the sweep is between two awaits. -/
inductive Sweep
  /-- `updateMany` in flight. -/
  | update (now : ℤ)
  | done
deriving DecidableEq, Repr

/-- `updateMany` of every row that is stale. -/
def Sweep.step (w : World Hash) (input : Input) : Sweep → Option (World Hash × Sweep)
  | .update now =>
    let w := w.read input.wait
    some ({ w with sessions := SessionsService.expireStale now w.clock w.sessions }, .done)
  | .done => none

/-! ## The pool -/

/-- A call about the machine's sessions; one of `extend` or `end` with its arguments. -/
inductive SessionCall
  | start (pc : StartSession)
  | edit (id : String) (change : Change) (pc : EditSession)
  | getActiveSession (query : GetActiveSession)
  | sweep (pc : Sweep)
deriving DecidableEq, Repr

/-- What starts a call on the sessions. -/
inductive SessionEvent
  | start (durationMinutes : ℤ)
  | edit (id : String) (change : Change)
  | getActiveSession (wait : ℤ)
  | sweep (wait : ℤ)
  /-- Time passes. -/
  | tick (wait : ℤ)
deriving DecidableEq, Repr

/-- The call has returned. -/
def SessionCall.returned : SessionCall → Bool
  | .start pc => pc.returned
  | .edit _ _ pc => pc.returned
  | .getActiveSession (.found _) => true
  | .getActiveSession _ => false
  | .sweep pc => pc = .done

/-- `@Min(1)` and `@Max(10_080)` of `StartSessionDto` and `ExtendSessionDto`. -/
def allowedMinutes (minutes : ℤ) : Bool := 1 ≤ minutes && minutes ≤ 10080

/-- What the controller lets through. -/
def Change.allowed : Change → Bool
  | .extend additionalMinutes => allowedMinutes additionalMinutes
  | .end => true

namespace SessionPool

/-- A call up to its first await, unless the controller refuses the request. -/
def event (w : World Hash) : SessionEvent → Option (World Hash × List SessionCall)
  | .start durationMinutes =>
    some (w, if allowedMinutes durationMinutes then [.start (.find durationMinutes)] else [])
  | .edit id change => some (w, if change.allowed then [.edit id change (.find id change)] else [])
  | .getActiveSession wait =>
    let w := w.read wait
    some (w, [.getActiveSession (.expire w.clock)])
  | .sweep wait =>
    let w := w.read wait
    some (w, [.sweep (.update w.clock)])
  | .tick wait => some (w.read wait, [])

/-- One step of a call. -/
def step (w : World Hash) (call : SessionCall) (input : Input) : Option (World Hash × SessionCall) :=
  match call with
  | .start pc => (pc.step w input).map fun (w, pc) => (w, .start pc)
  | .edit id change pc => (pc.step w input).map fun (w, pc) => (w, .edit id change pc)
  | .getActiveSession query => (query.step w input).map fun (w, query) => (w, .getActiveSession query)
  | .sweep pc => (pc.step w input).map fun (w, pc) => (w, .sweep pc)

/-- One atomic step of the calls. -/
def next : Pool (World Hash) SessionCall → Pool.Label SessionEvent Input →
    Option (Pool (World Hash) SessionCall) := Pool.next event step

/-- The clock does not go back. -/
def Forward : Pool.Label SessionEvent Input → Prop
  | .env (.getActiveSession wait) | .env (.sweep wait) | .env (.tick wait) => 0 ≤ wait
  | .env (.start _) | .env (.edit _ _) => True
  | .call _ input => 0 ≤ input.wait ∧ 0 ≤ input.again

instance : ∀ label, Decidable (Forward label)
  | .env (.getActiveSession _) | .env (.sweep _) | .env (.tick _) => inferInstanceAs (Decidable (_ ≤ _))
  | .env (.start _) | .env (.edit _ _) => instDecidableTrue
  | .call _ _ => inferInstanceAs (Decidable (_ ∧ _))

end SessionPool

/-! ## What one step does to the rows -/

/-- The instant that an expiry in flight compares the deadlines with. -/
def SessionCall.expires : SessionCall → Option ℤ
  | .start (.expire _ now) | .getActiveSession (.expire now) | .sweep (.update now) => some now
  | _ => none

/-- The row that a call which has passed `requireActiveSession` has yet to write. -/
def SessionCall.writes : SessionCall → Option String
  | .edit _ _ (.update id _) | .edit _ _ (.stamped id _ _) => some id
  | _ => none

/-- What a step of a call does to the rows, by the query that it executes. -/
inductive RowsStep (rows : List Session) : SessionCall → List Session → Prop
  | keep {c} : RowsStep rows c rows
  | expire {c now} (updatedAt : ℤ) : c.expires = some now →
      RowsStep rows c (SessionsService.expireStale now updatedAt rows)
  | create {startedAt expiresAt updatedAt row} : (∀ r ∈ rows, r.id ≠ row.id) →
      SessionsService.findActive rows = none → row.status = .active →
      RowsStep rows (.start (.stamped startedAt expiresAt updatedAt)) (rows ++ [row])
  | update {id change id' edit updatedAt rows' row} :
      SessionsService.update rows id' edit updatedAt = some (rows', row) →
      RowsStep rows (.edit id change (.stamped id' edit updatedAt)) rows'

namespace SessionPool

/-- The steps of a call: every call but `extend` and `end` matters for its query alone. -/
inductive Step (w : World Hash) (input : Input) : SessionCall → World Hash → SessionCall → Prop
  | start {pc w' pc'} : StartSession.Step w input pc w' pc' → Step w input (.start pc) w' (.start pc')
  | edit {id change pc w' pc'} : EditSession.Step w input pc w' pc' →
      Step w input (.edit id change pc) w' (.edit id change pc')
  | expire {now} : Step w input (.getActiveSession (.expire now))
      { w with
        clock := w.clock + input.wait
        sessions := SessionsService.expireStale now (w.clock + input.wait) w.sessions }
      (.getActiveSession .expired)
  | expired : Step w input (.getActiveSession .expired) w (.getActiveSession .find)
  | find : Step w input (.getActiveSession .find) w
      (.getActiveSession (.found (SessionsService.findActive w.sessions)))
  | sweep {now} : Step w input (.sweep (.update now))
      { w with
        clock := w.clock + input.wait
        sessions := SessionsService.expireStale now (w.clock + input.wait) w.sessions }
      (.sweep .done)

theorem step_cases {w w' : World Hash} {c c' : SessionCall} {input : Input}
    (h : step w c input = some (w', c')) : Step w input c w' c' := by
  cases c <;> obtain ⟨⟨w'', pc'⟩, hs, he⟩ := Option.map_eq_some_iff.1 h <;>
    obtain ⟨rfl, rfl⟩ := Prod.mk.inj he
  case start => exact .start (StartSession.step_cases hs)
  case edit => exact .edit (EditSession.step_cases hs)
  case getActiveSession query =>
    cases query with
    | expire =>
      obtain ⟨rfl, rfl⟩ := Prod.mk.inj (Option.some.inj hs)
      exact .expire
    | expired =>
      obtain ⟨rfl, rfl⟩ := Prod.mk.inj (Option.some.inj hs)
      exact .expired
    | find =>
      obtain ⟨rfl, rfl⟩ := Prod.mk.inj (Option.some.inj hs)
      exact .find
    | found => cases hs
  case sweep pc =>
    cases pc with
    | update =>
      obtain ⟨rfl, rfl⟩ := Prod.mk.inj (Option.some.inj hs)
      exact .sweep
    | done => cases hs

/-- A call that has just been made. -/
inductive Made (w : World Hash) : SessionCall → Prop
  | start {durationMinutes} : allowedMinutes durationMinutes = true →
      Made w (.start (.find durationMinutes))
  | edit {id change} : change.allowed = true → Made w (.edit id change (.find id change))
  | getActiveSession : Made w (.getActiveSession (.expire w.clock))
  | sweep : Made w (.sweep (.update w.clock))

section Event

variable {w w' : World Hash} {e : SessionEvent} {cs : List SessionCall}

theorem made_of_event (h : event w e = some (w', cs)) : ∀ c ∈ cs, Made w' c := by
  intro c hc
  cases e with
  | start | edit =>
    obtain ⟨rfl, rfl⟩ := Prod.mk.inj (Option.some.inj h)
    split_ifs at hc with hallowed
    · obtain rfl := List.mem_singleton.1 hc
      constructor
      exact hallowed
    · cases hc
  | getActiveSession | sweep =>
    obtain ⟨rfl, rfl⟩ := Prod.mk.inj (Option.some.inj h)
    obtain rfl := List.mem_singleton.1 hc
    constructor
  | tick =>
    obtain ⟨rfl, rfl⟩ := Prod.mk.inj (Option.some.inj h)
    cases hc

/-- A request by itself touches no row. -/
theorem event_sessions (h : event w e = some (w', cs)) : w'.sessions = w.sessions := by
  cases e <;> obtain ⟨rfl, -⟩ := Prod.mk.inj (Option.some.inj h) <;> rfl

theorem clock_le_of_event (hf : Forward (.env e)) (h : event w e = some (w', cs)) :
    w.clock ≤ w'.clock := by
  cases e with
  | start | edit =>
    obtain ⟨rfl, -⟩ := Prod.mk.inj (Option.some.inj h)
    exact le_rfl
  | getActiveSession | sweep | tick =>
    obtain ⟨rfl, -⟩ := Prod.mk.inj (Option.some.inj h)
    exact le_add_of_nonneg_right hf

end Event

theorem rowsStep_of_step {w w' : World Hash} {c c' : SessionCall} {input : Input}
    (h : Step w input c w' c') : RowsStep w.sessions c w'.sessions := by
  cases h with
  | start h =>
    cases h with
    | expire => exact .expire _ rfl
    | created hid hcreate =>
      obtain ⟨hnone, rfl, he, hactive, -⟩ := SessionsService.create_eq_some hcreate
      exact .create (he ▸ hid) hnone hactive
    | push =>
      rw [pushSessionUpdate_sessions]
      exact .keep
    | find | unknown | found | expired | create | orphan | taken | conflict => exact .keep
  | edit h =>
    cases h with
    | update hupdate => exact .update hupdate
    | push =>
      rw [pushSessionUpdate_sessions]
      exact .keep
    | find | unknown | inactive | expired | allowed | stamp | missing | failed => exact .keep
  | expire | sweep => exact .expire _ rfl
  | expired | find => exact .keep

theorem clock_le_of_step {w w' : World Hash} {c c' : SessionCall} {input : Input}
    (h : Step w input c w' c') (hwait : 0 ≤ input.wait) (hagain : 0 ≤ input.again) :
    w.clock ≤ w'.clock := by
  have hle : w.clock ≤ w.clock + input.wait := by omega
  cases h with
  | start h =>
    cases h with
    | found | expire | expired | create => exact hle
    | push => rwa [pushSessionUpdate_clock]
    | find | unknown | created | orphan | taken | conflict => exact le_rfl
  | edit h =>
    cases h with
    | allowed => exact hle.trans (le_add_of_nonneg_right hagain)
    | expired | stamp => exact hle
    | push => rwa [pushSessionUpdate_clock]
    | find | unknown | inactive | update | missing | failed => exact le_rfl
  | expire | sweep => exact hle
  | expired | find => exact le_rfl

end SessionPool

end Taymna.Api
