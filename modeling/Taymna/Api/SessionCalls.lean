import Taymna.Api.World

/-!
# The calls of `SessionsService`

Each call is the list of its suspension points: a query that is in flight, or has been answered
while the code behind the `await` has yet to run. Prisma stamps the `updatedAt` of a written row at
some point between the call and its commit.
-/

namespace Taymna.Api

variable {Hash : Type*}

/-! ## `getActiveSession` -/

/-- Where `getActiveSession` is between two awaits. -/
inductive GetActiveSession
  /-- `updateMany` in flight. -/
  | expire (now : ℤ)
  | expired
  /-- `findFirst` in flight. -/
  | find
  | found (session : Option Session)
deriving DecidableEq, Repr

namespace GetActiveSession

/-- From one await to the next: stale rows are expired first. -/
def step (w : World Hash) (input : Input) :
    GetActiveSession → Option (World Hash × GetActiveSession)
  | .expire now =>
    let w := w.read input.wait
    some ({ w with sessions := SessionsService.expireStale now w.clock w.sessions }, .expired)
  | .expired => some (w, .find)
  | .find => some (w, .found (SessionsService.findActive w.sessions))
  | .found _ => none

/-- The query touches the session rows, and nothing else that is shared. -/
theorem step_world {w w' : World Hash} {input : Input} {pc pc' : GetActiveSession}
    (h : pc.step w input = some (w', pc')) :
    ∃ clock sessions, w' = { w with clock := clock, sessions := sessions } := by
  cases pc with
  | expire | expired | find =>
    obtain ⟨rfl, -⟩ := Prod.mk.inj (Option.some.inj h)
    exact ⟨_, _, rfl⟩
  | found => cases h

end GetActiveSession

/-- `pushSessionUpdate`. -/
def pushSessionUpdate (w : World Hash) (session : Session) (wait : ℤ) : World Hash :=
  let w := w.read wait
  (w.sendToMachine (SessionsService.sessionState (some session) w.clock)).broadcastToOperators
    (.sessionUpdated (some (SessionsService.toDto session)))

@[simp] theorem pushSessionUpdate_sessions (w : World Hash) (session : Session) (wait : ℤ) :
    (pushSessionUpdate w session wait).sessions = w.sessions := by
  simp only [pushSessionUpdate, World.sendToMachine]
  split <;> rfl

@[simp] theorem pushSessionUpdate_clock (w : World Hash) (session : Session) (wait : ℤ) :
    (pushSessionUpdate w session wait).clock = w.clock + wait := by
  simp only [pushSessionUpdate, World.sendToMachine]
  split <;> rfl

/-! ## `start` -/

/-- Where a start is between two awaits, and how it ends. -/
inductive StartSession
  /-- `machine.findUnique` in flight. -/
  | find (durationMinutes : ℤ)
  | found (durationMinutes : ℤ) (machine : Bool)
  /-- `updateMany` in flight. -/
  | expire (durationMinutes now : ℤ)
  | expired (durationMinutes : ℤ)
  /-- `session.create` called, and not yet stamped. -/
  | create (startedAt expiresAt : ℤ)
  /-- `session.create` in flight. -/
  | stamped (startedAt expiresAt updatedAt : ℤ)
  | created (session : Option Session)
  | done (session : Session)
  | notFound
  | conflict
  | failed
deriving DecidableEq, Repr

namespace StartSession

/-- From one await to the next. -/
def step (w : World Hash) (input : Input) : StartSession → Option (World Hash × StartSession)
  | .find duration => some (w, .found duration w.machine.isSome)
  | .found _ false => some (w, .notFound)
  | .found duration true =>
    let w := w.read input.wait
    some (w, .expire duration w.clock)
  | .expire duration now =>
    let w := w.read input.wait
    some ({ w with sessions := SessionsService.expireStale now w.clock w.sessions }, .expired duration)
  | .expired duration =>
    let w := w.read input.wait
    some (w, .create w.clock (w.clock + duration * 60000))
  | .create startedAt expiresAt =>
    let w := w.read input.wait
    some (w, .stamped startedAt expiresAt w.clock)
  | .stamped startedAt expiresAt updatedAt =>
    match w.machine with
    | none => some (w, .failed)
    | some _ =>
      -- The database gives the row an id of its own.
      if w.sessions.any fun row => row.id = input.id then none
      else
        match SessionsService.create w.sessions input.id startedAt expiresAt updatedAt with
        | some (sessions, session) => some ({ w with sessions := sessions }, .created (some session))
        | none => some (w, .created none)
  | .created (some session) => some (pushSessionUpdate w session input.wait, .done session)
  | .created none => some (w, .conflict)
  | .done _ | .notFound | .conflict | .failed => none

/-- The call has returned. -/
def returned : StartSession → Bool
  | .done _ | .notFound | .conflict | .failed => true
  | _ => false

/-- The steps of the call, one constructor for each place in the code. -/
inductive Step (w : World Hash) (input : Input) : StartSession → World Hash → StartSession → Prop
  | find {duration} : Step w input (.find duration) w (.found duration w.machine.isSome)
  | unknown {duration} : Step w input (.found duration false) w .notFound
  | found {duration} : Step w input (.found duration true) (w.read input.wait)
      (.expire duration (w.clock + input.wait))
  | expire {duration now} : Step w input (.expire duration now)
      { w with
        clock := w.clock + input.wait
        sessions := SessionsService.expireStale now (w.clock + input.wait) w.sessions }
      (.expired duration)
  | expired {duration} : Step w input (.expired duration) (w.read input.wait)
      (.create (w.clock + input.wait) (w.clock + input.wait + duration * 60000))
  | create {startedAt expiresAt} : Step w input (.create startedAt expiresAt) (w.read input.wait)
      (.stamped startedAt expiresAt (w.clock + input.wait))
  | orphan {startedAt expiresAt updatedAt} : Step w input (.stamped startedAt expiresAt updatedAt) w .failed
  | created {startedAt expiresAt updatedAt rows row} : (∀ r ∈ w.sessions, r.id ≠ input.id) →
      SessionsService.create w.sessions input.id startedAt expiresAt updatedAt = some (rows, row) →
      Step w input (.stamped startedAt expiresAt updatedAt) { w with sessions := rows }
        (.created (some row))
  | taken {startedAt expiresAt updatedAt} :
      Step w input (.stamped startedAt expiresAt updatedAt) w (.created none)
  | push {row} : Step w input (.created (some row)) (pushSessionUpdate w row input.wait) (.done row)
  | conflict : Step w input (.created none) w .conflict

theorem step_cases {w w' : World Hash} {input : Input} {pc pc' : StartSession}
    (h : pc.step w input = some (w', pc')) : Step w input pc w' pc' := by
  cases pc with
  | find =>
    obtain ⟨rfl, rfl⟩ := Prod.mk.inj (Option.some.inj h)
    exact .find
  | found duration machine =>
    cases machine <;> obtain ⟨rfl, rfl⟩ := Prod.mk.inj (Option.some.inj h)
    · exact .unknown
    · exact .found
  | expire =>
    obtain ⟨rfl, rfl⟩ := Prod.mk.inj (Option.some.inj h)
    exact .expire
  | expired =>
    obtain ⟨rfl, rfl⟩ := Prod.mk.inj (Option.some.inj h)
    exact .expired
  | create =>
    obtain ⟨rfl, rfl⟩ := Prod.mk.inj (Option.some.inj h)
    exact .create
  | stamped =>
    simp only [step] at h
    split at h
    · obtain ⟨rfl, rfl⟩ := Prod.mk.inj (Option.some.inj h)
      exact .orphan
    · split_ifs at h with hid
      split at h <;> rename_i hcreate <;> obtain ⟨rfl, rfl⟩ := Prod.mk.inj (Option.some.inj h)
      · exact .created (by simpa using hid) hcreate
      · exact .taken
  | created session =>
    cases session <;> obtain ⟨rfl, rfl⟩ := Prod.mk.inj (Option.some.inj h)
    · exact .conflict
    · exact .push
  | done | notFound | conflict | failed => cases h

end StartSession

/-! ## `extend` and `end` -/

/-- What an operator asks for. -/
inductive Change
  | extend (additionalMinutes : ℤ)
  | end
deriving DecidableEq, Repr

/-- Where `extend` or `end` is between two awaits, and how it ends. -/
inductive EditSession
  /-- `session.findUnique` in flight. -/
  | find (id : String) (change : Change)
  | found (change : Change) (session : Option Session)
  /-- `session.update` called, and not yet stamped. -/
  | update (id : String) (edit : SessionsService.Edit)
  /-- `session.update` in flight. -/
  | stamped (id : String) (edit : SessionsService.Edit) (updatedAt : ℤ)
  | updated (session : Option Session)
  | done (session : Session)
  | notFound
  | conflict
  | failed
deriving DecidableEq, Repr

namespace EditSession

/-- What the change writes on top of the row that was read. -/
def edit (session : Session) (now : ℤ) : Change → SessionsService.Edit
  | .extend additionalMinutes => .extend (session.expiresAt + additionalMinutes * 60000)
  | .end => .end now

/-- From one await to the next. The row is written by its id, as it was read. -/
def step (w : World Hash) (input : Input) : EditSession → Option (World Hash × EditSession)
  | .find id change => some (w, .found change (SessionsService.findUnique w.sessions id))
  | .found _ none => some (w, .notFound)
  | .found change (some session) =>
    if session.status ≠ .active then some (w, .conflict)
    else
      let w := w.read input.wait
      if session.expiresAt ≤ w.clock then some (w, .conflict)
      else
        let w := w.read input.again
        some (w, .update session.id (edit session w.clock change))
  | .update id edit =>
    let w := w.read input.wait
    some (w, .stamped id edit w.clock)
  | .stamped id edit updatedAt =>
    match SessionsService.update w.sessions id edit updatedAt with
    | some (sessions, session) => some ({ w with sessions := sessions }, .updated (some session))
    | none => some (w, .updated none)
  | .updated (some session) => some (pushSessionUpdate w session input.wait, .done session)
  | .updated none => some (w, .failed)
  | .done _ | .notFound | .conflict | .failed => none

/-- The call has returned. -/
def returned : EditSession → Bool
  | .done _ | .notFound | .conflict | .failed => true
  | _ => false

/-- The steps of the call, one constructor for each place in the code. -/
inductive Step (w : World Hash) (input : Input) : EditSession → World Hash → EditSession → Prop
  | find {id change} : Step w input (.find id change) w
      (.found change (SessionsService.findUnique w.sessions id))
  | unknown {change} : Step w input (.found change none) w .notFound
  | inactive {change session} : session.status ≠ .active →
      Step w input (.found change (some session)) w .conflict
  | expired {change session} : session.expiresAt ≤ w.clock + input.wait →
      Step w input (.found change (some session)) (w.read input.wait) .conflict
  | allowed {change session} : SessionsService.Running (w.clock + input.wait) session →
      Step w input (.found change (some session)) ((w.read input.wait).read input.again)
        (.update session.id (edit session (w.clock + input.wait + input.again) change))
  | stamp {id edit} : Step w input (.update id edit) (w.read input.wait)
      (.stamped id edit (w.clock + input.wait))
  | update {id edit updatedAt rows session} :
      SessionsService.update w.sessions id edit updatedAt = some (rows, session) →
      Step w input (.stamped id edit updatedAt) { w with sessions := rows } (.updated (some session))
  | missing {id edit updatedAt} : SessionsService.update w.sessions id edit updatedAt = none →
      Step w input (.stamped id edit updatedAt) w (.updated none)
  | push {session} : Step w input (.updated (some session)) (pushSessionUpdate w session input.wait)
      (.done session)
  | failed : Step w input (.updated none) w .failed

theorem step_cases {w w' : World Hash} {input : Input} {pc pc' : EditSession}
    (h : pc.step w input = some (w', pc')) : Step w input pc w' pc' := by
  cases pc with
  | find =>
    obtain ⟨rfl, rfl⟩ := Prod.mk.inj (Option.some.inj h)
    exact .find
  | found change session =>
    cases session with
    | none =>
      obtain ⟨rfl, rfl⟩ := Prod.mk.inj (Option.some.inj h)
      exact .unknown
    | some session =>
      simp only [step] at h
      split_ifs at h with hs he <;> obtain ⟨rfl, rfl⟩ := Prod.mk.inj (Option.some.inj h)
      · exact .inactive hs
      · exact .expired he
      · exact .allowed ⟨not_not.1 hs, not_le.1 he⟩
  | update =>
    obtain ⟨rfl, rfl⟩ := Prod.mk.inj (Option.some.inj h)
    exact .stamp
  | stamped id edit updatedAt =>
    simp only [step] at h
    split at h <;> rename_i hupdate <;> obtain ⟨rfl, rfl⟩ := Prod.mk.inj (Option.some.inj h)
    · exact .update hupdate
    · exact .missing hupdate
  | updated session =>
    cases session <;> obtain ⟨rfl, rfl⟩ := Prod.mk.inj (Option.some.inj h)
    · exact .failed
    · exact .push
  | done | notFound | conflict | failed => cases h

end EditSession

/-! ## What these calls do to the rest of the world -/

/-- A call of `SessionsService` changes the session rows, or pushes a session it has written. -/
inductive SessionStep (w : World Hash) : World Hash → Prop
  | rows (clock : ℤ) (sessions : List Session) :
      SessionStep w { w with clock := clock, sessions := sessions }
  | push (session : Session) (wait : ℤ) : SessionStep w (pushSessionUpdate w session wait)

theorem StartSession.sessionStep {w w' : World Hash} {input : Input} {pc pc' : StartSession}
    (h : pc.step w input = some (w', pc')) : SessionStep w w' := by
  cases step_cases h with
  | find | unknown | found | expire | expired | create | orphan | created | taken | conflict =>
    exact .rows _ _
  | push => exact .push _ _

theorem EditSession.sessionStep {w w' : World Hash} {input : Input} {pc pc' : EditSession}
    (h : pc.step w input = some (w', pc')) : SessionStep w w' := by
  cases step_cases h with
  | find | unknown | inactive | expired | allowed | stamp | update | missing | failed =>
    exact .rows _ _
  | push => exact .push _ _

end Taymna.Api
