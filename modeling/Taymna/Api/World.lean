import Mathlib.Logic.Function.Basic
import Taymna.Api.Sessions

/-!
# What the API holds about one machine

`World` is everything that the API's calls about one machine share: the machine's rows in the
database, the entry of the machine in `ConnectionRegistryService`, the sockets that have presented
its id, and what the operators have been told. Calls run in one process, so a `World` changes in
atomic steps: one query, or one stretch of code between two awaits.
-/

namespace Taymna.Api

/-- argon2id, as `secret.util.ts` uses it: a hash of a secret and a salt verifies that secret and no
other. -/
class Argon2 (Hash : Type*) where
  hash : String → ℕ → Hash
  verify : Hash → String → Bool
  verify_hash_iff : ∀ secret salt other, verify (hash secret salt) other = true ↔ other = secret

/-- Hashes to evaluate the model with: the secret in the clear. -/
structure PlainHash where
  secret : String
deriving DecidableEq, Repr

instance : Argon2 PlainHash where
  hash secret _ := ⟨secret⟩
  verify hash secret := secret = hash.secret
  verify_hash_iff _ _ _ := by simp

/-- `verifySecret`: without a hash there is nothing to verify. -/
def verifySecret {Hash : Type*} [Argon2 Hash] (hash : Option Hash) (secret : String) : Bool :=
  hash.any fun h => Argon2.verify h secret

/-- The row of `machines`. -/
structure Machine (Hash : Type*) where
  credentialHash : Option Hash
  credentialRevokedAt : Option ℤ
  decommissionRequestedAt : Option ℤ
  lastSeenAt : Option ℤ
  agentVersion : Option String
deriving DecidableEq, Repr

/-- The row as the operator creates it. -/
def Machine.created {Hash : Type*} : Machine Hash :=
  { credentialHash := none
    credentialRevokedAt := none
    decommissionRequestedAt := none
    lastSeenAt := none
    agentVersion := none }

/-- A row of `enrollment_tokens`. -/
structure EnrollmentToken (Hash : Type*) where
  id : String
  tokenHash : Hash
  expiresAt : ℤ
  usedAt : Option ℤ
deriving DecidableEq, Repr

/-- `readyState` of a WebSocket. -/
inductive ReadyState
  /-- Not there yet. -/
  | connecting
  | opened
  | closing
  | closed
deriving DecidableEq, Repr

/-- One WebSocket of an agent, from the API's side. -/
structure Socket where
  readyState : ReadyState
  /-- The secret that its `Authorization` header presents for this machine, if it is well formed. -/
  secret : Option String
  /-- `agentIdBySocket` has the machine's id for it. -/
  agent : Bool
  /-- A `message` listener is attached; without one, `ws` drops what arrives. -/
  listening : Bool
  /-- Everything that has been put on it, in order. -/
  sent : List Frame
deriving DecidableEq, Repr

/-- A socket number that nobody has connected with. -/
def Socket.unused : Socket :=
  { readyState := .connecting, secret := none, agent := false, listening := false, sent := [] }

/-- `socket.send`: what is sent on a socket that is not open is lost. -/
def Socket.send (s : Socket) (message : ServerToAgentMessage) : Socket :=
  if s.readyState = .opened then { s with sent := s.sent ++ [.message message] } else s

/-- `socket.close`, which only an open socket takes notice of. -/
def Socket.close (s : Socket) (code : ℕ) (reason : String) : Socket :=
  if s.readyState = .opened then
    { s with readyState := .closing, sent := s.sent ++ [.close code reason] }
  else s

/-- The API process, its database and its sockets, as far as they are about one machine. -/
structure World (Hash : Type*) where
  /-- What `new Date()` showed last. -/
  clock : ℤ
  machine : Option (Machine Hash)
  tokens : List (EnrollmentToken Hash)
  sessions : List Session
  /-- The machine's entry in `agentSockets`. -/
  agentSocket : Option ℕ
  sockets : ℕ → Socket
  /-- What has been broadcast to the operators, in order. -/
  operators : List ServerToOperatorMessage
  /-- The secrets that `generateSecret` has returned; it never returns one twice. -/
  secrets : List String

/-- A machine that has just been created. -/
def World.created {Hash : Type*} (clock : ℤ) : World Hash :=
  { clock := clock
    machine := some Machine.created
    tokens := []
    sessions := []
    agentSocket := none
    sockets := fun _ => Socket.unused
    operators := []
    secrets := [] }

/-- What a step takes from outside: how far the clock has moved since it was last read, and by the
second reading if there are two; and what the random generators return. -/
structure Input where
  wait : ℤ
  again : ℤ
  secret : String
  id : String
  salt : ℕ
deriving DecidableEq, Repr

namespace World

variable {Hash : Type*}

/-- `new Date()`, `wait` after the last reading. -/
def read (w : World Hash) (wait : ℤ) : World Hash := { w with clock := w.clock + wait }

/-- The world after a change of one socket. -/
def onSocket (w : World Hash) (k : ℕ) (f : Socket → Socket) : World Hash :=
  { w with sockets := Function.update w.sockets k (f (w.sockets k)) }

/-- Every operator is sent the message. -/
def broadcastToOperators (w : World Hash) (message : ServerToOperatorMessage) : World Hash :=
  { w with operators := w.operators ++ [message] }

/-- The database deletes the machine, and with it its tokens and sessions. -/
def deleteMachine (w : World Hash) : World Hash := { w with machine := none, tokens := [], sessions := [] }

/-! ## The connection registry (`connection-registry.service.ts`) -/

/-- `registerAgent`: an older open socket of the machine is closed. -/
def registerAgent (w : World Hash) (k : ℕ) : World Hash :=
  let w :=
    match w.agentSocket with
    | some existing =>
      if existing ≠ k then w.onSocket existing fun s => s.close 4000 "Replaced by newer connection"
      else w
    | none => w
  { w with agentSocket := some k }

/-- The entry stays where another socket has replaced this one. -/
def unregisterAgent (w : World Hash) (k : ℕ) : World Hash :=
  if w.agentSocket = some k then { w with agentSocket := none } else w

/-- A message for a machine that is not connected is lost. -/
def sendToMachine (w : World Hash) (message : ServerToAgentMessage) : World Hash :=
  match w.agentSocket with
  | some k => w.onSocket k fun s => s.send message
  | none => w

/-- The entry is deleted at once, before the socket is gone. -/
def disconnectMachine (w : World Hash) (code : ℕ) (reason : String) : World Hash :=
  match w.agentSocket with
  | some k => { w.onSocket k (fun s => s.close code reason) with agentSocket := none }
  | none => w

/-! ## What the registry leaves alone -/

section

variable (w : World Hash) (k : ℕ)

@[simp] theorem read_machine (wait : ℤ) : (w.read wait).machine = w.machine := rfl

@[simp] theorem read_agentSocket (wait : ℤ) : (w.read wait).agentSocket = w.agentSocket := rfl

@[simp] theorem read_sockets (wait : ℤ) : (w.read wait).sockets = w.sockets := rfl

@[simp] theorem onSocket_machine (f : Socket → Socket) : (w.onSocket k f).machine = w.machine := rfl

@[simp] theorem onSocket_agentSocket (f : Socket → Socket) :
    (w.onSocket k f).agentSocket = w.agentSocket := rfl

@[simp] theorem broadcastToOperators_machine (message : ServerToOperatorMessage) :
    (w.broadcastToOperators message).machine = w.machine := rfl

@[simp] theorem broadcastToOperators_agentSocket (message : ServerToOperatorMessage) :
    (w.broadcastToOperators message).agentSocket = w.agentSocket := rfl

@[simp] theorem broadcastToOperators_sockets (message : ServerToOperatorMessage) :
    (w.broadcastToOperators message).sockets = w.sockets := rfl

@[simp] theorem registerAgent_secrets : (w.registerAgent k).secrets = w.secrets := by
  unfold registerAgent
  split
  · split_ifs <;> rfl
  · rfl

@[simp] theorem sendToMachine_secrets (message : ServerToAgentMessage) :
    (w.sendToMachine message).secrets = w.secrets := by
  unfold sendToMachine
  split <;> rfl

@[simp] theorem disconnectMachine_secrets (code : ℕ) (reason : String) :
    (w.disconnectMachine code reason).secrets = w.secrets := by
  unfold disconnectMachine
  split <;> rfl

@[simp] theorem onSocket_secrets (f : Socket → Socket) : (w.onSocket k f).secrets = w.secrets := rfl

@[simp] theorem read_secrets (wait : ℤ) : (w.read wait).secrets = w.secrets := rfl

@[simp] theorem broadcastToOperators_secrets (message : ServerToOperatorMessage) :
    (w.broadcastToOperators message).secrets = w.secrets := rfl

@[simp] theorem deleteMachine_machine : w.deleteMachine.machine = none := rfl

@[simp] theorem registerAgent_machine : (w.registerAgent k).machine = w.machine := by
  unfold registerAgent
  split
  · split_ifs <;> rfl
  · rfl

@[simp] theorem sendToMachine_machine (message : ServerToAgentMessage) :
    (w.sendToMachine message).machine = w.machine := by
  unfold sendToMachine
  split <;> rfl

@[simp] theorem disconnectMachine_machine (code : ℕ) (reason : String) :
    (w.disconnectMachine code reason).machine = w.machine := by
  unfold disconnectMachine
  split <;> rfl

end

end World

end Taymna.Api
