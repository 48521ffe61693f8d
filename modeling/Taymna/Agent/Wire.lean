import Taymna.Agent.Client
import Taymna.Agent.Storage
import Taymna.Text.Serde
import Taymna.Time.Rfc3339

/-!
# What the agent reads and writes as JSON

The records that serde derives from the types of `session.rs`, `client.rs` and `storage.rs`, with their
attributes: the camel case of a session, the tags of the messages, and the default of `decommissioned`. A
`DateTime<Utc>` is a string in the form of RFC 3339; `date` is what chrono writes of it.
-/

namespace Taymna.Agent

open Json Serde Time

/-- A `DateTime<Utc>`, as it is read. -/
def dateTime : Value → Option ℤ
  | .string s => Rfc3339.read s
  | _ => none

/-! ## Sessions -/

namespace SessionStatus

def name : SessionStatus → String
  | .active => "ACTIVE"
  | .expired => "EXPIRED"
  | .ended => "ENDED"

def ofValue (v : Value) : Option SessionStatus :=
  (text v).bind fun s =>
    if s = "ACTIVE" then some .active
    else if s = "EXPIRED" then some .expired
    else if s = "ENDED" then some .ended
    else none

theorem ofValue_name (status : SessionStatus) : ofValue (string status.name) = some status := by
  unfold ofValue
  rw [text_string]
  cases status <;> rfl

end SessionStatus

namespace SessionSnapshot

/-- The object of a session, given the texts of its instants. -/
def record (id startedAt expiresAt : List Char) (status : SessionStatus) (updatedAt : List Char) : Value :=
  object [("id", .string id), ("startedAt", .string startedAt), ("expiresAt", .string expiresAt),
    ("status", string status.name), ("updatedAt", .string updatedAt)]

def toValue (date : ℤ → List Char) (s : SessionSnapshot) : Value :=
  record s.id.toList (date s.startedAt) (date s.expiresAt) s.status (date s.updatedAt)

def ofValue (v : Value) : Option SessionSnapshot := do
  let fields ← members v
  let id ← required "id" text fields
  let startedAt ← required "startedAt" dateTime fields
  let expiresAt ← required "expiresAt" dateTime fields
  let status ← required "status" SessionStatus.ofValue fields
  let updatedAt ← required "updatedAt" dateTime fields
  some ⟨id, startedAt, expiresAt, status, updatedAt⟩

theorem record_ne_null {id startedAt expiresAt updatedAt : List Char} {status : SessionStatus} :
    record id startedAt expiresAt status updatedAt ≠ .null := by
  intro h
  cases h

theorem ofValue_record {startedAt expiresAt updatedAt : List Char} {s : SessionSnapshot}
    (hstarted : Rfc3339.read startedAt = some s.startedAt)
    (hexpires : Rfc3339.read expiresAt = some s.expiresAt)
    (hupdated : Rfc3339.read updatedAt = some s.updatedAt) :
    ofValue (record s.id.toList startedAt expiresAt s.status updatedAt) = some s := by
  have hid : text (.string s.id.toList) = some s.id := text_string s.id
  unfold ofValue record
  simp [required, entry, dateTime, hid, hstarted, hexpires, hupdated, SessionStatus.ofValue_name]

theorem ofValue_toValue {date : ℤ → List Char} {s : SessionSnapshot}
    (hstarted : Rfc3339.read (date s.startedAt) = some s.startedAt)
    (hexpires : Rfc3339.read (date s.expiresAt) = some s.expiresAt)
    (hupdated : Rfc3339.read (date s.updatedAt) = some s.updatedAt) :
    ofValue (s.toValue date) = some s := ofValue_record hstarted hexpires hupdated

end SessionSnapshot

/-! ## Messages -/

/-- A message of the server. `Decommission` has no fields, so whatever is under its tag is passed over. -/
def ServerToAgent.ofValue : Value → Option ServerToAgent :=
  tagged "type" fun variant fields =>
    if variant = "session_state" then do
      let session ← optional "session" SessionSnapshot.ofValue fields
      let serverTime ← required "serverTime" dateTime fields
      some (.sessionState session serverTime)
    else if variant = "heartbeat_ack" then do
      let serverTime ← required "serverTime" dateTime fields
      some (.heartbeatAck serverTime)
    else if variant = "decommission" then some .decommission
    else if variant = "error" then do
      let code ← required "code" text fields
      let message ← required "message" text fields
      some (.error code message)
    else none

def AgentToServer.toValue : AgentToServer → Value
  | .heartbeat atMs version =>
    object [("type", string "heartbeat"), ("atMs", .number (.ofInt atMs)), ("version", string version)]
  | .decommissionAck => object [("type", string "decommission_ack")]

/-! ## The state file -/

namespace Credentials

def toValue (c : Credentials) : Value :=
  object [("server_url", string c.serverUrl), ("machine_id", string c.machineId),
    ("machine_secret", string c.machineSecret)]

def ofValue (v : Value) : Option Credentials := do
  let fields ← members v
  let serverUrl ← required "server_url" text fields
  let machineId ← required "machine_id" text fields
  let machineSecret ← required "machine_secret" text fields
  some ⟨serverUrl, machineId, machineSecret⟩

theorem ofValue_toValue (c : Credentials) : ofValue c.toValue = some c := by
  unfold ofValue toValue
  simp [required, entry]

theorem toValue_ne_null (c : Credentials) : c.toValue ≠ .null := by
  intro h
  cases h

end Credentials

namespace AgentState

variable (date : ℤ → List Char)

/-- The members that all builds write. -/
def commonFields (state : AgentState) : List (String × Value) :=
  [("session", option (SessionSnapshot.toValue date) state.session),
    ("last_applied_at", .string (date state.lastAppliedAt)),
    ("trusted_high_water_mark", .string (date state.trustedHighWaterMark))]

def toValue (state : AgentState) : Value :=
  object (("credentials", option Credentials.toValue state.credentials) ::
    ("decommissioned", .bool state.decommissioned) :: state.commonFields date)

def ofValue (v : Value) : Option AgentState := do
  let fields ← members v
  let credentials ← optional "credentials" Credentials.ofValue fields
  let decommissioned ← defaulted "decommissioned" boolean fields false
  let session ← optional "session" SessionSnapshot.ofValue fields
  let lastAppliedAt ← required "last_applied_at" dateTime fields
  let trustedHighWaterMark ← required "trusted_high_water_mark" dateTime fields
  some ⟨credentials, decommissioned, session, lastAppliedAt, trustedHighWaterMark⟩

/-- All instants of the state are in years of four digits. -/
structure Plain (state : AgentState) : Prop where
  lastAppliedAt : Rfc3339.Plain state.lastAppliedAt
  trustedHighWaterMark : Rfc3339.Plain state.trustedHighWaterMark
  startedAt : ∀ s ∈ state.session, Rfc3339.Plain s.startedAt
  expiresAt : ∀ s ∈ state.session, Rfc3339.Plain s.expiresAt
  updatedAt : ∀ s ∈ state.session, Rfc3339.Plain s.updatedAt

variable {date} (hdate : ∀ t, Rfc3339.Plain t → Rfc3339.read (date t) = some t)
include hdate

/-- A state is read from what there is under the keys of its fields. -/
theorem ofValue_object {state : AgentState} (h : state.Plain) {fields : List (String × Value)}
    (hcredentials : entry "credentials" fields = .found (option Credentials.toValue state.credentials))
    (hdecommissioned : defaulted "decommissioned" boolean fields false = some state.decommissioned)
    (hsession : entry "session" fields = .found (option (SessionSnapshot.toValue date) state.session))
    (hlast : entry "last_applied_at" fields = .found (.string (date state.lastAppliedAt)))
    (hmark : entry "trusted_high_water_mark" fields = .found (.string (date state.trustedHighWaterMark))) :
    ofValue (object fields) = some state := by
  have hread : ∀ s ∈ state.session, SessionSnapshot.ofValue (s.toValue date) = some s := fun s hs =>
    SessionSnapshot.ofValue_toValue (hdate _ (h.startedAt s hs)) (hdate _ (h.expiresAt s hs))
      (hdate _ (h.updatedAt s hs))
  unfold ofValue
  simp only [members_object, Option.bind_eq_bind, Option.bind_some]
  rw [optional_of_entry hcredentials (fun c _ => c.toValue_ne_null) fun c _ => c.ofValue_toValue,
    hdecommissioned, optional_of_entry hsession (fun s _ => SessionSnapshot.record_ne_null) hread,
    required_of_entry hlast, required_of_entry hmark, Option.map_id', Option.map_id']
  show (Rfc3339.read _).bind (fun _ => (Rfc3339.read _).bind _) = _
  rw [hdate _ h.lastAppliedAt, hdate _ h.trustedHighWaterMark]
  rfl

/-- A state is read back. -/
theorem ofValue_toValue {state : AgentState} (h : state.Plain) :
    ofValue (state.toValue date) = some state :=
  ofValue_object hdate h rfl rfl rfl rfl rfl

/-- The names of the fields. -/
def keys : List String :=
  ["credentials", "decommissioned", "session", "last_applied_at", "trusted_high_water_mark"]

/-- A file of a build that knew no `decommissioned` is of a managed machine, whatever else it has. -/
theorem ofValue_commonFields {state : AgentState} (h : state.Plain) {others : List (String × Value)}
    (hothers : ∀ m ∈ others, m.1 ∉ keys) :
    ofValue (object (("credentials", option Credentials.toValue state.credentials) ::
      state.commonFields date ++ others)) = some { state with decommissioned := false } := by
  have hplain : Plain { state with decommissioned := false } :=
    ⟨h.lastAppliedAt, h.trustedHighWaterMark, h.startedAt, h.expiresAt, h.updatedAt⟩
  have hne : ∀ key ∈ keys, ∀ m ∈ others, m.1 ≠ key := by
    rintro key hkey m hm rfl
    exact hothers m hm hkey
  apply ofValue_object hdate hplain
  · exact entry_append (hne _ (by decide))
  · exact defaulted_append (hne _ (by decide)) false
  · exact entry_append (hne _ (by decide))
  · exact entry_append (hne _ (by decide))
  · exact entry_append (hne _ (by decide))

end AgentState

end Taymna.Agent
