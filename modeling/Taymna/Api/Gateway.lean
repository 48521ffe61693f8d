import Taymna.Api.Machines

/-!
# The gateway (`api/src/modules/realtime/realtime.gateway.ts`)

`Authenticate` is a run of `authenticateAgent` for one socket, with `verifyMachineCredential` inlined,
and `HandleMessage` a run of `handleAgentMessage` for one frame. The listener is attached only once
the credential has been verified.
-/

namespace Taymna.Api

variable {Hash : Type*}

/-! ## `authenticateAgent` -/

/-- Where `authenticateAgent` is between two awaits. -/
inductive Authenticate (Hash : Type*)
  /-- `machine.findUnique` in flight. -/
  | find (secret : String)
  | found (secret : String) (machine : Option (Machine Hash))
  /-- argon2 at work. -/
  | verifying (secret : String) (hash : Option Hash)
  | verified (ok : Bool)
  | heartbeat (query : RecordHeartbeat Hash)
  /-- The query of `isPendingDecommission` in flight. -/
  | pending
  | pendingFound (machine : Option (Machine Hash))
  | session (query : GetActiveSession)
  /-- The socket was closed. -/
  | rejected
  /-- The agent was told to relinquish control. -/
  | told
  /-- The agent was handed the session state. -/
  | pushed
  /-- The heartbeat found no row. -/
  | failed
deriving DecidableEq, Repr

namespace Authenticate

/-- What follows a verified credential, up to the first await. -/
def accept (w : World Hash) (client : ℕ) (input : Input) : World Hash × Authenticate Hash :=
  let w := w.onSocket client fun s => { s with agent := true }
  let w := w.registerAgent client
  let w := w.onSocket client fun s => { s with listening := true }
  let w := w.read input.wait
  (w, .heartbeat (.update w.clock none))

def step [Argon2 Hash] (w : World Hash) (client : ℕ) (input : Input) :
    Authenticate Hash → Option (World Hash × Authenticate Hash)
  | .find secret => some (w, .found secret w.machine)
  | .found _ none => some (w, .verified false)
  | .found secret (some m) =>
    if m.credentialRevokedAt.isSome then some (w, .verified false)
    else some (w, .verifying secret m.credentialHash)
  | .verifying secret hash => some (w, .verified (verifySecret hash secret))
  | .verified false =>
    some (w.onSocket client fun s => s.close 4001 "Invalid machine credential", .rejected)
  | .verified true => some (accept w client input)
  | .heartbeat (.update now agentVersion) =>
    let (w, machine) := w.updateMachine fun m => m.heartbeat now agentVersion
    some (w, .heartbeat (.updated machine))
  | .heartbeat (.updated none) => some (w, .failed)
  | .heartbeat (.updated (some m)) => some (w.broadcastHeartbeat m, .pending)
  | .pending => some (w, .pendingFound w.machine)
  | .pendingFound machine =>
    let w := w.read input.wait
    if machine.any Machine.isPending then
      some (w.onSocket client fun s => s.send (.decommission w.clock), .told)
    else some (w, .session (.expire w.clock))
  | .session (.found active) =>
    let w := w.read input.wait
    some (w.onSocket client fun s => s.send (SessionsService.sessionState active w.clock), .pushed)
  | .session query => (query.step w input).map fun (w, query) => (w, .session query)
  | .rejected | .told | .pushed | .failed => none

/-- The call has returned. -/
def returned : Authenticate Hash → Bool
  | .rejected | .told | .pushed | .failed => true
  | _ => false

/-- The steps of the call, one constructor for each place in the code. -/
inductive Step [Argon2 Hash] (w : World Hash) (client : ℕ) (input : Input) :
    Authenticate Hash → World Hash → Authenticate Hash → Prop
  | find {secret} : Step w client input (.find secret) w (.found secret w.machine)
  | unknown {secret} : Step w client input (.found secret none) w (.verified false)
  | revoked {secret m} : m.credentialRevokedAt.isSome = true →
      Step w client input (.found secret (some m)) w (.verified false)
  | found {secret m} : m.credentialRevokedAt.isSome = false →
      Step w client input (.found secret (some m)) w (.verifying secret m.credentialHash)
  | verifying {secret hash} :
      Step w client input (.verifying secret hash) w (.verified (verifySecret hash secret))
  | reject : Step w client input (.verified false)
      (w.onSocket client fun s => s.close 4001 "Invalid machine credential") .rejected
  | accept : Step w client input (.verified true) (accept w client input).1 (accept w client input).2
  | heartbeat {now agentVersion} : Step w client input (.heartbeat (.update now agentVersion))
      (w.updateMachine fun m => m.heartbeat now agentVersion).1
      (.heartbeat (.updated (w.machine.map fun m => m.heartbeat now agentVersion)))
  | failed : Step w client input (.heartbeat (.updated none)) w .failed
  | beaten {m} : Step w client input (.heartbeat (.updated (some m))) (w.broadcastHeartbeat m) .pending
  | pending : Step w client input .pending w (.pendingFound w.machine)
  | tell {machine} : machine.any Machine.isPending = true →
      Step w client input (.pendingFound machine)
        ((w.read input.wait).onSocket client fun s => s.send (.decommission (w.clock + input.wait))) .told
  | managed {machine} : machine.any Machine.isPending = false →
      Step w client input (.pendingFound machine) (w.read input.wait)
        (.session (.expire (w.clock + input.wait)))
  | query {query w' query'} : query.step w input = some (w', query') →
      Step w client input (.session query) w' (.session query')
  | push {active} : Step w client input (.session (.found active))
      ((w.read input.wait).onSocket client fun s =>
        s.send (SessionsService.sessionState active (w.clock + input.wait))) .pushed

theorem step_cases [Argon2 Hash] {w w' : World Hash} {client : ℕ} {input : Input}
    {pc pc' : Authenticate Hash} (h : pc.step w client input = some (w', pc')) :
    Step w client input pc w' pc' := by
  cases pc with
  | find =>
    obtain ⟨rfl, rfl⟩ := Prod.mk.inj (Option.some.inj h)
    exact .find
  | found secret machine =>
    cases machine with
    | none =>
      obtain ⟨rfl, rfl⟩ := Prod.mk.inj (Option.some.inj h)
      exact .unknown
    | some m =>
      simp only [step] at h
      split_ifs at h with hr <;> obtain ⟨rfl, rfl⟩ := Prod.mk.inj (Option.some.inj h)
      · exact .revoked hr
      · exact .found (by simpa using hr)
  | verifying =>
    obtain ⟨rfl, rfl⟩ := Prod.mk.inj (Option.some.inj h)
    exact .verifying
  | verified ok =>
    cases ok <;> obtain ⟨rfl, rfl⟩ := Prod.mk.inj (Option.some.inj h)
    · exact .reject
    · exact .accept
  | heartbeat query =>
    cases query with
    | update =>
      obtain ⟨rfl, rfl⟩ := Prod.mk.inj (Option.some.inj h)
      exact .heartbeat
    | updated machine =>
      cases machine <;> obtain ⟨rfl, rfl⟩ := Prod.mk.inj (Option.some.inj h)
      · exact .failed
      · exact .beaten
  | pending =>
    obtain ⟨rfl, rfl⟩ := Prod.mk.inj (Option.some.inj h)
    exact .pending
  | pendingFound machine =>
    simp only [step] at h
    split_ifs at h with hp <;> obtain ⟨rfl, rfl⟩ := Prod.mk.inj (Option.some.inj h)
    · exact .tell hp
    · exact .managed (by simpa using hp)
  | session query =>
    cases query with
    | found active =>
      obtain ⟨rfl, rfl⟩ := Prod.mk.inj (Option.some.inj h)
      exact .push
    | expire | expired | find =>
      simp only [step] at h
      obtain ⟨⟨w'', query'⟩, hq, he⟩ := Option.map_eq_some_iff.1 h
      obtain ⟨rfl, rfl⟩ := Prod.mk.inj he
      exact .query hq
  | rejected | told | pushed | failed => cases h

end Authenticate

/-! ## `handleAgentMessage` -/

/-- Where `handleAgentMessage` is between two awaits. -/
inductive HandleMessage (Hash : Type*)
  | heartbeat (query : RecordHeartbeat Hash)
  /-- The `deleteMany` of `finalizeDecommission` in flight. -/
  | finalize
  | deleted (count : ℕ)
  /-- A heartbeat was answered. -/
  | beaten
  /-- An acknowledgement was processed, and `count` rows deleted. -/
  | finalized (count : ℕ)
  | ignored
  | failed
deriving DecidableEq, Repr

namespace HandleMessage

/-- `handleAgentMessage` up to its first await. -/
def start (w : World Hash) (wait : ℤ) :
    AgentToServerMessage → World Hash × HandleMessage Hash
  | .heartbeat _ version =>
    let w := w.read wait
    (w, .heartbeat (.update w.clock (sanitizeAgentVersion version)))
  | .decommissionAck => (w, .finalize)
  | .other => (w, .ignored)

def step (w : World Hash) (client : ℕ) (input : Input) :
    HandleMessage Hash → Option (World Hash × HandleMessage Hash)
  | .heartbeat (.update now agentVersion) =>
    let (w, machine) := w.updateMachine fun m => m.heartbeat now agentVersion
    some (w, .heartbeat (.updated machine))
  | .heartbeat (.updated none) => some (w, .failed)
  | .heartbeat (.updated (some m)) =>
    let w := (w.broadcastHeartbeat m).read input.wait
    some (w.onSocket client fun s => s.send (.heartbeatAck w.clock), .beaten)
  | .finalize =>
    let (w, count) := w.deletePending
    some (w, .deleted count)
  | .deleted count => some (w.finalized count, .finalized count)
  | .beaten | .finalized _ | .ignored | .failed => none

/-- The call has returned. -/
def returned : HandleMessage Hash → Bool
  | .beaten | .finalized _ | .ignored | .failed => true
  | _ => false

/-- The steps of the call, one constructor for each place in the code. -/
inductive Step (w : World Hash) (client : ℕ) (input : Input) :
    HandleMessage Hash → World Hash → HandleMessage Hash → Prop
  | heartbeat {now agentVersion} : Step w client input (.heartbeat (.update now agentVersion))
      (w.updateMachine fun m => m.heartbeat now agentVersion).1
      (.heartbeat (.updated (w.machine.map fun m => m.heartbeat now agentVersion)))
  | failed : Step w client input (.heartbeat (.updated none)) w .failed
  | beaten {m} : Step w client input (.heartbeat (.updated (some m)))
      (((w.broadcastHeartbeat m).read input.wait).onSocket client fun s =>
        s.send (.heartbeatAck (w.clock + input.wait))) .beaten
  | delete {m} : w.machine = some m → m.isPending = true →
      Step w client input .finalize w.deleteMachine (.deleted 1)
  | deleteNone : (∀ m, w.machine = some m → m.isPending = false) →
      Step w client input .finalize w (.deleted 0)
  | deleted {count} : Step w client input (.deleted count) (w.finalized count) (.finalized count)

theorem step_cases {w w' : World Hash} {client : ℕ} {input : Input} {pc pc' : HandleMessage Hash}
    (h : pc.step w client input = some (w', pc')) : Step w client input pc w' pc' := by
  cases pc with
  | heartbeat query =>
    cases query with
    | update =>
      obtain ⟨rfl, rfl⟩ := Prod.mk.inj (Option.some.inj h)
      exact .heartbeat
    | updated machine =>
      cases machine <;> obtain ⟨rfl, rfl⟩ := Prod.mk.inj (Option.some.inj h)
      · exact .failed
      · exact .beaten
  | finalize =>
    simp only [step, World.deletePending] at h
    split at h
    · rename_i m hm
      split_ifs at h with hp <;> obtain ⟨rfl, rfl⟩ := Prod.mk.inj (Option.some.inj h)
      · exact .delete hm hp
      · refine .deleteNone fun m' hm' => ?_
        obtain rfl := Option.some.inj (hm.symm.trans hm')
        simpa using hp
    · rename_i hm
      obtain ⟨rfl, rfl⟩ := Prod.mk.inj (Option.some.inj h)
      exact .deleteNone fun m' hm' => by simp [hm] at hm'
  | deleted =>
    obtain ⟨rfl, rfl⟩ := Prod.mk.inj (Option.some.inj h)
    exact .deleted
  | beaten | finalized | ignored | failed => cases h

end HandleMessage

end Taymna.Api
