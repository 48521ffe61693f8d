import Taymna.Api.SessionCalls

/-!
# The calls of `MachinesService` (`api/src/modules/machines/machines.service.ts`)

As in `SessionCalls`, each call is the list of its suspension points. An `update` or `delete` by id
fails when its row is gone, which rejects the call.
-/

namespace Taymna.Api

variable {Hash : Type*}

/-- `ENROLLMENT_TOKEN_TTL_MS`: a quarter of an hour. -/
def enrollmentTokenTtlMs : ℤ := 15 * 60000

/-- Matches the column width. -/
def maxAgentVersionLength : ℕ := 32

/-! ## `sanitizeAgentVersion` -/

/-- The characters that `String.prototype.trim` removes. -/
def trimmed (c : Char) : Bool :=
  [9, 10, 11, 12, 13, 32, 160, 5760, 8232, 8233, 8239, 8287, 12288, 65279].contains c.toNat ||
    (8192 ≤ c.toNat && c.toNat ≤ 8202)

/-- The letters and digits of ASCII. -/
def alphanumeric (c : Char) : Bool :=
  ('A' ≤ c && c ≤ 'Z') || ('a' ≤ c && c ≤ 'z') || ('0' ≤ c && c ≤ '9')

/-- The version that an agent reports, if it looks like one; `none` stands for anything that is not
a string. -/
def sanitizeAgentVersion (value : Option String) : Option String :=
  value.bind fun text =>
    match ((text.toList.dropWhile trimmed).reverse.dropWhile trimmed).reverse with
    | [] => none
    | c :: cs =>
      if cs.length < maxAgentVersionLength ∧ alphanumeric c ∧
          cs.all (fun d => alphanumeric d || ['.', '+', '_', '-'].contains d) then
        some (String.ofList (c :: cs))
      else none

/-! ## The machine's row -/

namespace Machine

/-- What `requestDecommission` calls `hasUsableCredential`. -/
def hasUsableCredential (m : Machine Hash) : Bool :=
  m.credentialHash.isSome && m.credentialRevokedAt.isNone

/-- What `isPendingDecommission` asks of the row. -/
def isPending (m : Machine Hash) : Bool := m.decommissionRequestedAt.isSome

/-- The update of `recordHeartbeat`: a version that was not reported is left as it is. -/
def heartbeat (m : Machine Hash) (now : ℤ) (agentVersion : Option String) : Machine Hash :=
  { m with lastSeenAt := some now, agentVersion := agentVersion.or m.agentVersion }

/-- The update of `requestDecommission`. -/
def mark (m : Machine Hash) (now : ℤ) : Machine Hash := { m with decommissionRequestedAt := some now }

/-- The update of `enroll`. -/
def enrolled (m : Machine Hash) (hash : Hash) : Machine Hash :=
  { m with credentialHash := some hash, credentialRevokedAt := none }

/-- The update of `revokeCredential`. -/
def revoked (m : Machine Hash) (now : ℤ) : Machine Hash :=
  { m with credentialHash := none, credentialRevokedAt := some now }

end Machine

/-- The part of a `MachineDto` that is about the machine's state. -/
structure MachineDto where
  decommissioning : Bool
  lastSeenAt : Option ℤ
  agentVersion : Option String
  activeSession : Option SessionStateDto
deriving DecidableEq, Repr

/-- `toDto`, once the active session is known. -/
def Machine.toDto (m : Machine Hash) (session : Option Session) : MachineDto :=
  { decommissioning := m.isPending
    lastSeenAt := m.lastSeenAt
    agentVersion := m.agentVersion
    activeSession := session.map SessionsService.toDto }

namespace World

/-- `machine.update` by id: the row after it, unless it is gone. -/
def updateMachine (w : World Hash) (f : Machine Hash → Machine Hash) :
    World Hash × Option (Machine Hash) :=
  ({ w with machine := w.machine.map f }, w.machine.map f)

/-- `generateSecret`, which returns what nobody has seen. -/
def generateSecret (w : World Hash) (secret : String) : Option (World Hash) :=
  if secret ∈ w.secrets then none else some { w with secrets := secret :: w.secrets }

end World

/-! ## `recordHeartbeat` -/

/-- Where a heartbeat is between two awaits. -/
inductive RecordHeartbeat (Hash : Type*)
  /-- `machine.update` in flight. -/
  | update (now : ℤ) (agentVersion : Option String)
  | updated (machine : Option (Machine Hash))
deriving DecidableEq, Repr

/-- What `recordHeartbeat` broadcasts once its update is through. -/
def World.broadcastHeartbeat (w : World Hash) (m : Machine Hash) : World Hash :=
  w.broadcastToOperators (.machineUpdated true m.lastSeenAt m.agentVersion)

/-! ## `finalizeDecommission` -/

/-- The `deleteMany` of `finalizeDecommission`, and how many rows it deletes. -/
def World.deletePending (w : World Hash) : World Hash × ℕ :=
  match w.machine with
  | some m => if m.isPending then (w.deleteMachine, 1) else (w, 0)
  | none => (w, 0)

/-- What `finalizeDecommission` does after it has deleted `count` rows. -/
def World.finalized (w : World Hash) (count : ℕ) : World Hash :=
  if count = 0 then w
  else (w.disconnectMachine 4003 "Decommissioned").broadcastToOperators .machineRemoved

/-! ## `requestDecommission` -/

/-- Where a removal is between two awaits, and how it ends. -/
inductive RequestDecommission (Hash : Type*)
  /-- `machine.findUnique` in flight. -/
  | find
  | found (machine : Option (Machine Hash))
  /-- `machine.delete` in flight. -/
  | delete
  | deleted (ok : Bool)
  /-- `machine.update` in flight. -/
  | mark (now : ℤ)
  | marked (machine : Option (Machine Hash))
  | toDto (machine : Machine Hash) (query : GetActiveSession)
  | removed
  | decommissioning (machine : MachineDto)
  | notFound
  | failed
deriving DecidableEq, Repr

namespace RequestDecommission

/-- The delivery to a connected agent, and the call of `toDto` that follows it. -/
def deliver (w : World Hash) (m : Machine Hash) (input : Input) :
    World Hash × RequestDecommission Hash :=
  let w := w.read input.wait
  let w := w.sendToMachine (.decommission w.clock)
  let w := w.read input.again
  (w, .toDto m (.expire w.clock))

/-- From one await to the next. -/
def step (w : World Hash) (input : Input) :
    RequestDecommission Hash → Option (World Hash × RequestDecommission Hash)
  | .find => some (w, .found w.machine)
  | .found none => some (w, .notFound)
  | .found (some m) =>
    if !m.hasUsableCredential then some (w.disconnectMachine 4002 "Machine removed", .delete)
    else if m.isPending then some (deliver w m input)
    else
      let w := w.read input.wait
      some (w, .mark w.clock)
  | .delete =>
    match w.machine with
    | some _ => some (w.deleteMachine, .deleted true)
    | none => some (w, .deleted false)
  | .deleted true => some (w.broadcastToOperators .machineRemoved, .removed)
  | .deleted false => some (w, .failed)
  | .mark now =>
    let (w, machine) := w.updateMachine fun m => m.mark now
    some (w, .marked machine)
  | .marked none => some (w, .failed)
  | .marked (some m) => some (deliver (w.broadcastToOperators .machineDecommissioning) m input)
  | .toDto m (.found session) => some (w, .decommissioning (m.toDto session))
  | .toDto m query => (query.step w input).map fun (w, query) => (w, .toDto m query)
  | .removed | .decommissioning _ | .notFound | .failed => none

/-- The call has returned. -/
def returned : RequestDecommission Hash → Bool
  | .removed | .decommissioning _ | .notFound | .failed => true
  | _ => false

/-- The steps of the call, one constructor for each place in the code. -/
inductive Step (w : World Hash) (input : Input) :
    RequestDecommission Hash → World Hash → RequestDecommission Hash → Prop
  | find : Step w input .find w (.found w.machine)
  | notFound : Step w input (.found none) w .notFound
  | remove {m} : m.hasUsableCredential = false →
      Step w input (.found (some m)) (w.disconnectMachine 4002 "Machine removed") .delete
  | redeliver {m} : m.hasUsableCredential = true → m.isPending = true →
      Step w input (.found (some m)) (deliver w m input).1 (deliver w m input).2
  | request {m} : m.hasUsableCredential = true → m.isPending = false →
      Step w input (.found (some m)) (w.read input.wait) (.mark (w.clock + input.wait))
  | delete {m} : w.machine = some m → Step w input .delete w.deleteMachine (.deleted true)
  | deleteFailed : w.machine = none → Step w input .delete w (.deleted false)
  | removed : Step w input (.deleted true) (w.broadcastToOperators .machineRemoved) .removed
  | deleteRejected : Step w input (.deleted false) w .failed
  | mark {now} : Step w input (.mark now) (w.updateMachine fun m => m.mark now).1
      (.marked (w.machine.map fun m => m.mark now))
  | markRejected : Step w input (.marked none) w .failed
  | marked {m} : Step w input (.marked (some m))
      (deliver (w.broadcastToOperators .machineDecommissioning) m input).1
      (deliver (w.broadcastToOperators .machineDecommissioning) m input).2
  | query {m query w' query'} : query.step w input = some (w', query') →
      Step w input (.toDto m query) w' (.toDto m query')
  | done {m session} :
      Step w input (.toDto m (.found session)) w (.decommissioning (m.toDto session))

theorem step_cases {w w' : World Hash} {input : Input} {pc pc' : RequestDecommission Hash}
    (h : pc.step w input = some (w', pc')) : Step w input pc w' pc' := by
  cases pc with
  | find =>
    obtain ⟨rfl, rfl⟩ := Prod.mk.inj (Option.some.inj h)
    exact .find
  | found machine =>
    cases machine with
    | none =>
      obtain ⟨rfl, rfl⟩ := Prod.mk.inj (Option.some.inj h)
      exact .notFound
    | some m =>
      simp only [step] at h
      split_ifs at h with hu hp <;> obtain ⟨rfl, rfl⟩ := Prod.mk.inj (Option.some.inj h)
      · exact .remove (by simpa using hu)
      · exact .redeliver (by simpa using hu) hp
      · exact .request (by simpa using hu) (by simpa using hp)
  | delete =>
    simp only [step] at h
    split at h <;> rename_i hm <;> obtain ⟨rfl, rfl⟩ := Prod.mk.inj (Option.some.inj h)
    · exact .delete hm
    · exact .deleteFailed hm
  | deleted ok =>
    cases ok <;> obtain ⟨rfl, rfl⟩ := Prod.mk.inj (Option.some.inj h)
    · exact .deleteRejected
    · exact .removed
  | mark now =>
    obtain ⟨rfl, rfl⟩ := Prod.mk.inj (Option.some.inj h)
    exact .mark
  | marked machine =>
    cases machine with
    | none =>
      obtain ⟨rfl, rfl⟩ := Prod.mk.inj (Option.some.inj h)
      exact .markRejected
    | some m =>
      obtain ⟨rfl, rfl⟩ := Prod.mk.inj (Option.some.inj h)
      exact .marked
  | toDto m query =>
    cases query with
    | found session =>
      obtain ⟨rfl, rfl⟩ := Prod.mk.inj (Option.some.inj h)
      exact .done
    | expire | expired | find =>
      simp only [step] at h
      obtain ⟨⟨w'', query'⟩, hq, he⟩ := Option.map_eq_some_iff.1 h
      obtain ⟨rfl, rfl⟩ := Prod.mk.inj he
      exact .query hq
  | removed | decommissioning | notFound | failed => cases h

end RequestDecommission

/-! ## `issueEnrollmentToken` -/

/-- Where the issue of a token is between two awaits, and how it ends. -/
inductive IssueEnrollmentToken (Hash : Type*)
  /-- `machine.findUnique` in flight. -/
  | find
  | found (machine : Bool)
  /-- argon2 at work. -/
  | hashing (secret : String) (expiresAt : ℤ)
  /-- `enrollmentToken.create` in flight. -/
  | create (secret : String) (hash : Hash) (expiresAt : ℤ)
  | created (id : Option String) (secret : String) (expiresAt : ℤ)
  | done (id secret : String) (expiresAt : ℤ)
  | notFound
  | failed
deriving DecidableEq, Repr

namespace IssueEnrollmentToken

/-- From one await to the next. -/
def step [Argon2 Hash] (w : World Hash) (input : Input) :
    IssueEnrollmentToken Hash → Option (World Hash × IssueEnrollmentToken Hash)
  | .find => some (w, .found w.machine.isSome)
  | .found false => some (w, .notFound)
  | .found true =>
    (w.generateSecret input.secret).map fun w =>
      let w := w.read input.wait
      (w, .hashing input.secret (w.clock + enrollmentTokenTtlMs))
  | .hashing secret expiresAt => some (w, .create secret (Argon2.hash secret input.salt) expiresAt)
  | .create secret hash expiresAt =>
    match w.machine with
    | none => some (w, .created none secret expiresAt)
    | some _ =>
      -- The database gives the row an id of its own.
      if w.tokens.any fun token => token.id = input.id then none
      else
        let token := { id := input.id, tokenHash := hash, expiresAt := expiresAt, usedAt := none }
        some ({ w with tokens := w.tokens ++ [token] }, .created (some input.id) secret expiresAt)
  | .created (some id) secret expiresAt => some (w, .done id secret expiresAt)
  | .created none _ _ => some (w, .failed)
  | .done _ _ _ | .notFound | .failed => none

/-- The call has returned. -/
def returned : IssueEnrollmentToken Hash → Bool
  | .done _ _ _ | .notFound | .failed => true
  | _ => false

/-- The call reads the machine's row, generates a secret and adds a token; the rest it leaves. -/
theorem step_world [Argon2 Hash] {w w' : World Hash} {input : Input}
    {pc pc' : IssueEnrollmentToken Hash} (h : pc.step w input = some (w', pc')) :
    ∃ clock tokens, w' = { w with clock := clock, tokens := tokens } ∨
      input.secret ∉ w.secrets ∧
        w' = { w with clock := clock, tokens := tokens, secrets := input.secret :: w.secrets } := by
  cases pc with
  | find | hashing =>
    obtain ⟨rfl, -⟩ := Prod.mk.inj (Option.some.inj h)
    exact ⟨_, _, Or.inl rfl⟩
  | found machine =>
    cases machine with
    | false =>
      obtain ⟨rfl, -⟩ := Prod.mk.inj (Option.some.inj h)
      exact ⟨_, _, Or.inl rfl⟩
    | true =>
      obtain ⟨w'', hw, he⟩ := Option.map_eq_some_iff.1 h
      obtain ⟨rfl, -⟩ := Prod.mk.inj he
      unfold World.generateSecret at hw
      split_ifs at hw with hfresh
      obtain rfl := Option.some.inj hw
      exact ⟨_, _, Or.inr ⟨hfresh, rfl⟩⟩
  | create =>
    simp only [step] at h
    split at h
    · obtain ⟨rfl, -⟩ := Prod.mk.inj (Option.some.inj h)
      exact ⟨_, _, Or.inl rfl⟩
    · split_ifs at h
      obtain ⟨rfl, -⟩ := Prod.mk.inj (Option.some.inj h)
      exact ⟨_, _, Or.inl rfl⟩
  | created id =>
    cases id <;> obtain ⟨rfl, -⟩ := Prod.mk.inj (Option.some.inj h) <;> exact ⟨_, _, Or.inl rfl⟩
  | done | notFound | failed => cases h

end IssueEnrollmentToken

/-! ## `enroll` -/

/-- Where an enrolment is between two awaits, and how it ends. -/
inductive Enroll (Hash : Type*)
  /-- `enrollmentToken.findUnique` in flight. -/
  | find (tokenId secret : String)
  | found (secret : String) (record : Option (EnrollmentToken Hash))
  /-- argon2 at work on the token's secret. -/
  | verifying (secret : String) (record : EnrollmentToken Hash)
  | verified (ok : Bool) (record : EnrollmentToken Hash)
  /-- argon2 at work on the new credential. -/
  | hashing (record : EnrollmentToken Hash) (machineSecret : String) (usedAt : ℤ)
  /-- The transaction in flight. -/
  | transaction (record : EnrollmentToken Hash) (machineSecret : String) (hash : Hash) (usedAt : ℤ)
  | committed (ok : Bool) (machineSecret : String)
  | done (machineSecret : String)
  | rejected
  | failed
deriving DecidableEq, Repr

namespace Enroll

/-- From one await to the next. The token is checked before the transaction, and not again in it. -/
def step [Argon2 Hash] (w : World Hash) (input : Input) :
    Enroll Hash → Option (World Hash × Enroll Hash)
  | .find tokenId secret => some (w, .found secret (w.tokens.find? fun token => token.id = tokenId))
  | .found _ none => some (w, .rejected)
  | .found secret (some record) =>
    if record.usedAt.isSome then some (w, .rejected)
    else
      let w := w.read input.wait
      if record.expiresAt ≤ w.clock then some (w, .rejected) else some (w, .verifying secret record)
  | .verifying secret record => some (w, .verified (verifySecret (some record.tokenHash) secret) record)
  | .verified false _ => some (w, .rejected)
  | .verified true record =>
    (w.generateSecret input.secret).map fun w =>
      let w := w.read input.wait
      (w, .hashing record input.secret w.clock)
  | .hashing record machineSecret usedAt =>
    some (w, .transaction record machineSecret (Argon2.hash machineSecret input.salt) usedAt)
  | .transaction record machineSecret hash usedAt =>
    -- Both updates, or neither.
    if (w.tokens.any fun token => token.id = record.id) ∧ w.machine.isSome then
      some ({ w with
          tokens := w.tokens.map fun token =>
            if token.id = record.id then { token with usedAt := some usedAt } else token
          machine := w.machine.map fun m => m.enrolled hash },
        .committed true machineSecret)
    else some (w, .committed false machineSecret)
  | .committed true machineSecret => some (w, .done machineSecret)
  | .committed false _ => some (w, .failed)
  | .done _ | .rejected | .failed => none

/-- The call has returned. -/
def returned : Enroll Hash → Bool
  | .done _ | .rejected | .failed => true
  | _ => false

/-- The transaction goes through: both rows are still there. -/
def Commits (w : World Hash) (record : EnrollmentToken Hash) : Prop :=
  (w.tokens.any fun token => token.id = record.id) = true ∧ w.machine.isSome = true

instance (w : World Hash) (record : EnrollmentToken Hash) : Decidable (Commits w record) :=
  inferInstanceAs (Decidable (_ ∧ _))

/-- What the transaction writes. -/
def commit (w : World Hash) (record : EnrollmentToken Hash) (hash : Hash) (usedAt : ℤ) : World Hash :=
  { w with
    tokens := w.tokens.map fun token =>
      if token.id = record.id then { token with usedAt := some usedAt } else token
    machine := w.machine.map fun m => m.enrolled hash }

/-- The steps of the call, one constructor for each place in the code. -/
inductive Step [Argon2 Hash] (w : World Hash) (input : Input) :
    Enroll Hash → World Hash → Enroll Hash → Prop
  | find {tokenId secret} : Step w input (.find tokenId secret) w
      (.found secret (w.tokens.find? fun token => token.id = tokenId))
  | unknown {secret} : Step w input (.found secret none) w .rejected
  | used {secret record} : record.usedAt.isSome = true →
      Step w input (.found secret (some record)) w .rejected
  | expired {secret record} : record.usedAt.isSome = false →
      record.expiresAt ≤ w.clock + input.wait →
      Step w input (.found secret (some record)) (w.read input.wait) .rejected
  | found {secret record} : record.usedAt.isSome = false → w.clock + input.wait < record.expiresAt →
      Step w input (.found secret (some record)) (w.read input.wait) (.verifying secret record)
  | verifying {secret record} : Step w input (.verifying secret record) w
      (.verified (verifySecret (some record.tokenHash) secret) record)
  | wrong {record} : Step w input (.verified false record) w .rejected
  | verified {record} : input.secret ∉ w.secrets →
      Step w input (.verified true record)
        { w with clock := w.clock + input.wait, secrets := input.secret :: w.secrets }
        (.hashing record input.secret (w.clock + input.wait))
  | hashing {record machineSecret usedAt} :
      Step w input (.hashing record machineSecret usedAt) w
        (.transaction record machineSecret (Argon2.hash machineSecret input.salt) usedAt)
  | commit {record machineSecret hash usedAt} : Commits w record →
      Step w input (.transaction record machineSecret hash usedAt) (commit w record hash usedAt)
        (.committed true machineSecret)
  | rollback {record machineSecret hash usedAt} :
      Step w input (.transaction record machineSecret hash usedAt) w (.committed false machineSecret)
  | done {machineSecret} : Step w input (.committed true machineSecret) w (.done machineSecret)
  | failed {machineSecret} : Step w input (.committed false machineSecret) w .failed

theorem step_cases [Argon2 Hash] {w w' : World Hash} {input : Input} {pc pc' : Enroll Hash}
    (h : pc.step w input = some (w', pc')) : Step w input pc w' pc' := by
  cases pc with
  | find =>
    obtain ⟨rfl, rfl⟩ := Prod.mk.inj (Option.some.inj h)
    exact .find
  | found secret record =>
    cases record with
    | none =>
      obtain ⟨rfl, rfl⟩ := Prod.mk.inj (Option.some.inj h)
      exact .unknown
    | some record =>
      simp only [step] at h
      split_ifs at h with hu he <;> obtain ⟨rfl, rfl⟩ := Prod.mk.inj (Option.some.inj h)
      · exact .used hu
      · exact .expired (by simpa using hu) he
      · exact .found (by simpa using hu) (not_le.1 he)
  | verifying =>
    obtain ⟨rfl, rfl⟩ := Prod.mk.inj (Option.some.inj h)
    exact .verifying
  | verified ok =>
    cases ok with
    | false =>
      obtain ⟨rfl, rfl⟩ := Prod.mk.inj (Option.some.inj h)
      exact .wrong
    | true =>
      obtain ⟨w'', hw, he⟩ := Option.map_eq_some_iff.1 h
      obtain ⟨rfl, rfl⟩ := Prod.mk.inj he
      unfold World.generateSecret at hw
      split_ifs at hw with hfresh
      obtain rfl := Option.some.inj hw
      exact .verified hfresh
  | hashing =>
    obtain ⟨rfl, rfl⟩ := Prod.mk.inj (Option.some.inj h)
    exact .hashing
  | transaction =>
    simp only [step] at h
    split_ifs at h with hc <;> obtain ⟨rfl, rfl⟩ := Prod.mk.inj (Option.some.inj h)
    · exact .commit hc
    · exact .rollback
  | committed ok =>
    cases ok <;> obtain ⟨rfl, rfl⟩ := Prod.mk.inj (Option.some.inj h)
    · exact .failed
    · exact .done
  | done | rejected | failed => cases h

end Enroll

/-! ## `revokeCredential` -/

/-- Where a revocation is between two awaits, and how it ends. -/
inductive RevokeCredential (Hash : Type*)
  /-- `machine.update` in flight. -/
  | update (now : ℤ)
  | updated (machine : Option (Machine Hash))
  | toDto (machine : Machine Hash) (query : GetActiveSession)
  | done (machine : MachineDto)
  | failed
deriving DecidableEq, Repr

namespace RevokeCredential

/-- From one await to the next. -/
def step (w : World Hash) (input : Input) :
    RevokeCredential Hash → Option (World Hash × RevokeCredential Hash)
  | .update now =>
    let (w, machine) := w.updateMachine fun m => m.revoked now
    some (w, .updated machine)
  | .updated none => some (w, .failed)
  | .updated (some m) =>
    let w := w.disconnectMachine 4001 "Credential revoked"
    let w := w.read input.wait
    some (w, .toDto m (.expire w.clock))
  | .toDto m (.found session) => some (w, .done (m.toDto session))
  | .toDto m query => (query.step w input).map fun (w, query) => (w, .toDto m query)
  | .done _ | .failed => none

/-- The call has returned. -/
def returned : RevokeCredential Hash → Bool
  | .done _ | .failed => true
  | _ => false

/-- The steps of the call, one constructor for each place in the code. -/
inductive Step (w : World Hash) (input : Input) :
    RevokeCredential Hash → World Hash → RevokeCredential Hash → Prop
  | update {now} : Step w input (.update now) (w.updateMachine fun m => m.revoked now).1
      (.updated (w.machine.map fun m => m.revoked now))
  | rejected : Step w input (.updated none) w .failed
  | updated {m} : Step w input (.updated (some m))
      ((w.disconnectMachine 4001 "Credential revoked").read input.wait)
      (.toDto m (.expire ((w.disconnectMachine 4001 "Credential revoked").clock + input.wait)))
  | query {m query w' query'} : query.step w input = some (w', query') →
      Step w input (.toDto m query) w' (.toDto m query')
  | done {m session} : Step w input (.toDto m (.found session)) w (.done (m.toDto session))

theorem step_cases {w w' : World Hash} {input : Input} {pc pc' : RevokeCredential Hash}
    (h : pc.step w input = some (w', pc')) : Step w input pc w' pc' := by
  cases pc with
  | update =>
    obtain ⟨rfl, rfl⟩ := Prod.mk.inj (Option.some.inj h)
    exact .update
  | updated machine =>
    cases machine <;> obtain ⟨rfl, rfl⟩ := Prod.mk.inj (Option.some.inj h)
    · exact .rejected
    · exact .updated
  | toDto m query =>
    cases query with
    | found session =>
      obtain ⟨rfl, rfl⟩ := Prod.mk.inj (Option.some.inj h)
      exact .done
    | expire | expired | find =>
      simp only [step] at h
      obtain ⟨⟨w'', query'⟩, hq, he⟩ := Option.map_eq_some_iff.1 h
      obtain ⟨rfl, rfl⟩ := Prod.mk.inj he
      exact .query hq
  | done | failed => cases h

end RevokeCredential

end Taymna.Api
