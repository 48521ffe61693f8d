import Taymna.Agent.Wire
import Taymna.Api.AgentFrames

/-!
# The protocol as JSON (`api/src/modules/realtime`)

`JSON.stringify` of what the API sends to an agent, and `JSON.parse` of what an agent sends. A date is the
text that `toISOString` makes of it. Whatever the agent reads of a message is the message
(`ofValue_toValue`), as long as its instants are in years of four digits; and what it writes is handled as
the frame that it is (`receive_eq_start`).
-/

namespace Taymna.Api

open Agent (SessionStatus SessionSnapshot ServerToAgent AgentToServer)
open Serde (object string option)
open Time

/-! ## What is sent -/

/-- The names of the enumeration in `schema.prisma`. -/
def statusText : SessionStatus → String
  | .active => "ACTIVE"
  | .expired => "EXPIRED"
  | .ended => "ENDED"

def date (t : ℤ) : Json.Value := .string (Iso.toISOString t)

def SessionStateDto.toValue (dto : SessionStateDto) : Json.Value :=
  object [("id", string dto.id), ("startedAt", date dto.startedAt), ("expiresAt", date dto.expiresAt),
    ("status", string (statusText dto.status)), ("updatedAt", date dto.updatedAt)]

namespace ServerToAgentMessage

def toValue : ServerToAgentMessage → Json.Value
  | .sessionState session serverTime =>
    object [("type", string "session_state"), ("session", option SessionStateDto.toValue session),
      ("serverTime", date serverTime)]
  | .heartbeatAck serverTime => object [("type", string "heartbeat_ack"), ("serverTime", date serverTime)]
  | .decommission serverTime => object [("type", string "decommission"), ("serverTime", date serverTime)]
  | .error code message =>
    object [("type", string "error"), ("code", string code), ("message", string message)]

/-- `JSON.stringify`. -/
def stringify (m : ServerToAgentMessage) : List Char := Json.render Json.compact 0 m.toValue

end ServerToAgentMessage

/-- All instants are in years of four digits. -/
structure SessionStateDto.Plain (dto : SessionStateDto) : Prop where
  startedAt : Rfc3339.Plain (nanos dto.startedAt)
  expiresAt : Rfc3339.Plain (nanos dto.expiresAt)
  updatedAt : Rfc3339.Plain (nanos dto.updatedAt)

/-- All instants that the agent reads are. -/
def ServerToAgentMessage.Plain : ServerToAgentMessage → Prop
  | .sessionState session serverTime => (∀ dto ∈ session, dto.Plain) ∧ Rfc3339.Plain (nanos serverTime)
  | .heartbeatAck serverTime => Rfc3339.Plain (nanos serverTime)
  | .decommission _ | .error _ _ => True

instance (dto : SessionStateDto) : Decidable dto.Plain :=
  decidable_of_iff (Rfc3339.Plain (nanos dto.startedAt) ∧ Rfc3339.Plain (nanos dto.expiresAt) ∧
    Rfc3339.Plain (nanos dto.updatedAt))
    ⟨fun h => ⟨h.1, h.2.1, h.2.2⟩, fun h => ⟨h.startedAt, h.expiresAt, h.updatedAt⟩⟩

instance : ∀ m : ServerToAgentMessage, Decidable m.Plain
  | .sessionState session serverTime =>
    inferInstanceAs (Decidable ((∀ dto ∈ session, dto.Plain) ∧ Rfc3339.Plain (nanos serverTime)))
  | .heartbeatAck serverTime => inferInstanceAs (Decidable (Rfc3339.Plain (nanos serverTime)))
  | .decommission _ | .error _ _ => instDecidableTrue

def Frame.Plain : Frame → Prop
  | .message m => m.Plain
  | .close _ _ => True

instance : ∀ frame : Frame, Decidable frame.Plain
  | .message m => inferInstanceAs (Decidable m.Plain)
  | .close _ _ => instDecidableTrue

/-! ## What the agent makes of it -/

theorem dateTime_date {t : ℤ} (h : Rfc3339.Plain (nanos t)) : Agent.dateTime (date t) = some (nanos t) :=
  Rfc3339.read_toISOString h

theorem statusText_eq (status : SessionStatus) : statusText status = status.name := by
  cases status <;> rfl

theorem SessionStateDto.Plain.read {dto : SessionStateDto} (h : dto.Plain) :
    SessionSnapshot.ofValue dto.toValue = some dto.read := by
  unfold SessionStateDto.toValue
  rw [statusText_eq]
  exact SessionSnapshot.ofValue_record (s := dto.read) (dateTime_date h.startedAt)
    (dateTime_date h.expiresAt) (dateTime_date h.updatedAt)

theorem SessionStateDto.toValue_ne_null (dto : SessionStateDto) : dto.toValue ≠ .null := by
  intro h
  cases h

namespace ServerToAgentMessage

theorem ofValue_toValue {m : ServerToAgentMessage} (h : m.Plain) :
    ServerToAgent.ofValue m.toValue = some m.read := by
  unfold ServerToAgent.ofValue toValue
  cases m with
  | sessionState session serverTime =>
    rw [Serde.tagged_of_entry rfl, if_pos rfl,
      Serde.optional_of_entry rfl (fun dto _ => dto.toValue_ne_null) fun dto hdto => (h.1 dto hdto).read,
      Serde.required_of_entry rfl, dateTime_date h.2]
    rfl
  | heartbeatAck serverTime =>
    rw [Serde.tagged_of_entry rfl, if_neg (by decide), if_pos rfl, Serde.required_of_entry rfl,
      dateTime_date h]
    rfl
  | decommission serverTime =>
    rw [Serde.tagged_of_entry rfl, if_neg (by decide), if_neg (by decide), if_pos rfl]
    rfl
  | error code message =>
    rw [Serde.tagged_of_entry rfl, if_neg (by decide), if_neg (by decide), if_neg (by decide), if_pos rfl,
      Serde.required_of_entry rfl, Serde.required_of_entry rfl, Serde.text_string, Serde.text_string]
    rfl

theorem shallow_toValue (m : ServerToAgentMessage) : m.toValue.shallow 100 = true := by
  cases m with
  | sessionState session serverTime => cases session <;> rfl
  | heartbeatAck serverTime => rfl
  | decommission serverTime => rfl
  | error code message => rfl

end ServerToAgentMessage

/-! ## What the gateway makes of a frame -/

mutual

/-- What `JSON.parse` makes of a value; of two members under one key the last counts. -/
def Json.ofValue : Json.Value → Json
  | .null => .null
  | .bool _ => .boolean
  | .number _ => .number
  | .string s => .string (String.ofList s)
  | .array _ => .array
  | .object members => .object (Json.ofMembers members)

def Json.ofMembers : List (List Char × Json.Value) → List (String × Json)
  | [] => []
  | (key, v) :: members => Json.ofMembers members ++ [(String.ofList key, Json.ofValue v)]

end

/-- `JSON.parse`. -/
def jsonParse (raw : String) : Option Json := (Json.parse raw.toList).map Json.ofValue

theorem Json.ofValue_heartbeat (atMs : ℤ) (version : String) :
    Json.ofValue (AgentToServer.heartbeat atMs version).toValue =
      .object [("version", .string version), ("atMs", .number), ("type", .string "heartbeat")] := by
  show Json.object [(String.ofList "version".toList, .string (String.ofList version.toList)),
    (String.ofList "atMs".toList, .number),
    (String.ofList "type".toList, .string (String.ofList "heartbeat".toList))] = _
  simp only [String.ofList_toList]

theorem Json.ofValue_decommissionAck :
    Json.ofValue AgentToServer.decommissionAck.toValue = .object [("type", .string "decommission_ack")] := by
  show Json.object [(String.ofList "type".toList, .string (String.ofList "decommission_ack".toList))] = _
  simp only [String.ofList_toList]

/-- A text of a frame is handled as the frame. -/
theorem HandleMessage.receive_of_parse {Hash : Type*} {raw : String} {frame : AgentToServer}
    (h : Json.parse raw.toList = some frame.toValue) (w : World Hash) (wait : ℤ) :
    receive jsonParse w wait raw = start w wait (.ofAgent frame) := by
  unfold receive jsonParse
  rw [h, Option.map_some]
  cases frame with
  | heartbeat atMs version =>
    rw [Json.ofValue_heartbeat]
    rfl
  | decommissionAck =>
    rw [Json.ofValue_decommissionAck]
    rfl

end Taymna.Api
