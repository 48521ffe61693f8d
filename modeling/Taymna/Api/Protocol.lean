import Taymna.Agent.Client

/-!
# The WebSocket protocol (`api/src/modules/realtime/protocol.ts`)

The messages as the API builds them, with a JavaScript `Date` as its number of milliseconds since
the epoch, and `read`: what the agent's parser makes of their JSON, where `toISOString` keeps the
milliseconds and `chrono` counts nanoseconds.
-/

namespace Taymna.Api

open Agent (SessionStatus SessionSnapshot ServerToAgent)

/-- `SessionStateDto`. -/
structure SessionStateDto where
  id : String
  startedAt : ℤ
  expiresAt : ℤ
  status : SessionStatus
  updatedAt : ℤ
deriving DecidableEq, Repr

/-- What the API sends to an agent. -/
inductive ServerToAgentMessage
  | sessionState (session : Option SessionStateDto) (serverTime : ℤ)
  | heartbeatAck (serverTime : ℤ)
  | decommission (serverTime : ℤ)
  | error (code message : String)
deriving DecidableEq, Repr

/-- What a raw text frame of an agent parses to: `version` is whatever was under that key, and
anything else that parses, or does not, changes nothing. -/
inductive AgentToServerMessage
  | heartbeat (atMs : ℤ) (version : Option String)
  | decommissionAck
  | other
deriving DecidableEq, Repr

/-- What the API broadcasts to the dashboards. -/
inductive ServerToOperatorMessage
  | machineUpdated (online : Bool) (lastSeenAt : Option ℤ) (agentVersion : Option String)
  | sessionUpdated (session : Option SessionStateDto)
  | machineDecommissioning
  | machineRemoved
deriving DecidableEq, Repr

/-- What a server puts on an agent's socket. -/
inductive Frame
  | message (message : ServerToAgentMessage)
  | close (code : ℕ) (reason : String)
deriving DecidableEq, Repr

/-- An instant in milliseconds, as the agent counts it. -/
def nanos (ms : ℤ) : ℤ := ms * 1000000

theorem nanos_lt_nanos_iff {a b : ℤ} : nanos a < nanos b ↔ a < b := by
  unfold nanos
  omega

theorem nanos_le_nanos_iff {a b : ℤ} : nanos a ≤ nanos b ↔ a ≤ b := by
  unfold nanos
  omega

/-- The session as the agent reads it. -/
def SessionStateDto.read (dto : SessionStateDto) : SessionSnapshot :=
  { id := dto.id
    startedAt := nanos dto.startedAt
    expiresAt := nanos dto.expiresAt
    status := dto.status
    updatedAt := nanos dto.updatedAt }

/-- The message as the agent reads it. -/
def ServerToAgentMessage.read : ServerToAgentMessage → ServerToAgent
  | .sessionState session serverTime => .sessionState (session.map SessionStateDto.read) (nanos serverTime)
  | .heartbeatAck serverTime => .heartbeatAck (nanos serverTime)
  | .decommission _ => .decommission
  | .error code message => .error code message

/-- The frames of an agent, as the API reads them. -/
def AgentToServerMessage.ofAgent : Agent.AgentToServer → AgentToServerMessage
  | .heartbeat atMs version => .heartbeat atMs (some version)
  | .decommissionAck => .decommissionAck

end Taymna.Api
