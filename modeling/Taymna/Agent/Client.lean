import Taymna.Agent.Session

/-!
# The connection task (`agent/src/client.rs`)

`Link` is the state of `client::run` together with the two channels that join it to the run loop:
`events` carries what the server said to the loop, and `commands` carries the loop's permission to
acknowledge a decommission. One `Link.step` is one turn of the task: a connect, one arm of the
`select!` in `connect_and_serve`, or the end of a connection. What a raw text frame parses to is
the parameter `fromStr`, `serde_json::from_str` at the type `ServerToAgent`.
-/

namespace Taymna.Agent

/-- `AgentToServer`: what the agent sends. -/
inductive AgentToServer
  | heartbeat (atMs : ℤ) (version : String)
  | decommissionAck
deriving DecidableEq, Repr

/-- `ClientCommand`. -/
inductive ClientCommand
  | ackDecommission
deriving DecidableEq, Repr

/-- `ServerToAgent`: what the agent can parse. -/
inductive ServerToAgent
  | sessionState (session : Option SessionSnapshot) (serverTime : ℤ)
  | heartbeatAck (serverTime : ℤ)
  | decommission
  | error (code message : String)
deriving DecidableEq, Repr

/-- What the connection task hands to the run loop. -/
inductive ServerEvent
  | sessionState (session : Option SessionSnapshot) (messageTime : ℤ)
  | serverTime (time : ℤ)
  | decommission
deriving DecidableEq, Repr

/-- How a connection ended. -/
inductive Outcome
  | disconnected
  | finalized
deriving DecidableEq, Repr

/-- The close code of a finalized decommission. -/
def decommissionFinalizedCode : ℕ := 4003

/-- The close code of a rejected machine credential. -/
def invalidCredentialCode : ℕ := 4001

/-- `AGENT_VERSION`, as a local build reports it. -/
def agentVersion : String := "0.0.0-dev"

/-- The time a pushed session is judged by: the row's `updatedAt`, or the server's time when there
is no session. -/
def messageTime (session : Option SessionSnapshot) (serverTime : ℤ) : ℤ :=
  (session.map SessionSnapshot.updatedAt).getD serverTime

/-- The event, if any, that a protocol message becomes. -/
def ServerToAgent.event : ServerToAgent → Option ServerEvent
  | .sessionState session serverTime => some (.sessionState session (messageTime session serverTime))
  | .heartbeatAck serverTime => some (.serverTime serverTime)
  | .decommission => some .decommission
  | .error _ _ => none

/-- Only a `decommission` message becomes a `Decommission` event. -/
theorem ServerToAgent.event_eq_decommission_iff (m : ServerToAgent) :
    m.event = some .decommission ↔ m = .decommission := by
  cases m <;> simp [event]

/-- Where `client::run` is. -/
inductive Connection
  /-- Between two connections: about to connect, or in backoff. -/
  | down
  /-- In `connect_and_serve`'s loop on a socket; `greeted` once a first message has come. -/
  | up (socket : ℕ) (greeted : Bool)
  /-- `client::run` has returned. -/
  | returned
deriving DecidableEq, Repr

/-- The connection task, with its two channels. -/
structure Link where
  ackDecommission : Bool
  connection : Connection
  commands : List ClientCommand
  events : List ServerEvent
deriving DecidableEq, Repr

/-- The connection task as it is spawned. -/
def Link.new : Link :=
  { ackDecommission := false, connection := .down, commands := [], events := [] }

namespace Link

/-- What the connection task waits for. -/
inductive Label (Text : Type*)
  /-- `connect_async` succeeded on a new socket. -/
  | connect (socket : ℕ)
  /-- A text frame was read. -/
  | text (text : Text) (atMs : ℤ)
  /-- A close frame was read. -/
  | close (code : Option ℕ)
  /-- A transport error, or the end of the stream. -/
  | lost
  /-- `cmd_rx.recv()` returned a command. -/
  | command
  /-- The heartbeat interval ticked. -/
  | heartbeat (atMs : ℤ)
deriving DecidableEq, Repr

variable {Text : Type*}

/-- `handle_message`: a frame that does not parse is ignored. -/
def handleMessage (fromStr : Text → Option ServerToAgent) (l : Link) (text : Text) : Link :=
  match (fromStr text).bind ServerToAgent.event with
  | some event => { l with events := l.events ++ [event] }
  | none => l

/-- How `connect_and_serve` ends on a close frame. -/
def onClose (ackDecommission : Bool) (code : Option ℕ) : Outcome :=
  if code = some decommissionFinalizedCode then .finalized
  else if ackDecommission ∧ code = some invalidCredentialCode then .finalized
  else .disconnected

/-- What `run` does with the outcome of a connection. -/
def finish (l : Link) : Outcome → Link
  | .finalized => { l with connection := .returned }
  | .disconnected => { l with connection := .down }

/-- One step of the connection task, and the frames that it sends. -/
def step (fromStr : Text → Option ServerToAgent) (l : Link) :
    Label Text → Option (Link × List AgentToServer)
  | .connect socket =>
    match l.connection with
    | .down =>
      -- The commands that came while disconnected are drained before the first frame.
      let ack := l.ackDecommission || !l.commands.isEmpty
      some ({ l with ackDecommission := ack, connection := .up socket false, commands := [] },
        if ack then [.decommissionAck] else [])
    | _ => none
  | .text text atMs =>
    match l.connection with
    | .up socket greeted =>
      some ({ l.handleMessage fromStr text with connection := .up socket true },
        if greeted then [] else [.heartbeat atMs agentVersion])
    | _ => none
  | .close code =>
    match l.connection with
    | .up _ _ => some (l.finish (onClose l.ackDecommission code), [])
    | _ => none
  | .lost =>
    match l.connection with
    | .up _ _ => some (l.finish .disconnected, [])
    | _ => none
  | .command =>
    match l.connection, l.commands with
    | .up _ _, .ackDecommission :: commands =>
      some ({ l with ackDecommission := true, commands := commands }, [.decommissionAck])
    | _, _ => none
  | .heartbeat atMs =>
    match l.connection with
    | .up _ _ => some (l, [.heartbeat atMs agentVersion])
    | _ => none

/-- The turns of the connection task, one constructor for each place in the code. -/
inductive Step (fromStr : Text → Option ServerToAgent) :
    Link → Label Text → Link → List AgentToServer → Prop
  | connect {l socket} : l.connection = .down →
      Step fromStr l (.connect socket)
        { l with
          ackDecommission := l.ackDecommission || !l.commands.isEmpty
          connection := .up socket false
          commands := [] }
        (if l.ackDecommission || !l.commands.isEmpty then [.decommissionAck] else [])
  | text {l text atMs socket greeted} : l.connection = .up socket greeted →
      Step fromStr l (.text text atMs)
        { l.handleMessage fromStr text with connection := .up socket true }
        (if greeted then [] else [.heartbeat atMs agentVersion])
  | close {l code socket greeted} : l.connection = .up socket greeted →
      Step fromStr l (.close code) (l.finish (onClose l.ackDecommission code)) []
  | lost {l socket greeted} : l.connection = .up socket greeted →
      Step fromStr l .lost (l.finish .disconnected) []
  | command {l commands socket greeted} : l.connection = .up socket greeted →
      l.commands = .ackDecommission :: commands →
      Step fromStr l .command { l with ackDecommission := true, commands := commands }
        [.decommissionAck]
  | heartbeat {l atMs socket greeted} : l.connection = .up socket greeted →
      Step fromStr l (.heartbeat atMs) l [.heartbeat atMs agentVersion]

/-- Every turn is one of `Step`. -/
theorem step_cases {fromStr : Text → Option ServerToAgent} {l l' : Link} {label : Label Text}
    {frames : List AgentToServer} (h : step fromStr l label = some (l', frames)) :
    Step fromStr l label l' frames := by
  cases label with
  | command =>
    simp only [step] at h
    split at h
    · rename_i hc hm
      obtain ⟨rfl, rfl⟩ := Prod.mk.inj (Option.some.inj h)
      exact .command hc hm
    · cases h
  | _ =>
    simp only [step] at h
    split at h
    · rename_i hc
      obtain ⟨rfl, rfl⟩ := Prod.mk.inj (Option.some.inj h)
      constructor
      exact hc
    · cases h

@[simp] theorem handleMessage_ackDecommission (fromStr : Text → Option ServerToAgent) (l : Link)
    (text : Text) : (l.handleMessage fromStr text).ackDecommission = l.ackDecommission := by
  unfold handleMessage
  split <;> rfl

@[simp] theorem handleMessage_commands (fromStr : Text → Option ServerToAgent) (l : Link)
    (text : Text) : (l.handleMessage fromStr text).commands = l.commands := by
  unfold handleMessage
  split <;> rfl

/-- A `Decommission` event that a frame adds comes from a frame that parses as `decommission`. -/
theorem decommission_mem_handleMessage {fromStr : Text → Option ServerToAgent} {l : Link}
    {text : Text} (h : .decommission ∈ (l.handleMessage fromStr text).events) :
    .decommission ∈ l.events ∨ fromStr text = some .decommission := by
  unfold handleMessage at h
  split at h
  · rename_i event he
    rcases List.mem_append.1 h with hm | hm
    · exact Or.inl hm
    · obtain rfl := List.mem_singleton.1 hm
      obtain ⟨m, hf, hm⟩ := Option.bind_eq_some_iff.1 he
      rw [ServerToAgent.event_eq_decommission_iff] at hm
      exact Or.inr (hm ▸ hf)
  · exact Or.inl h

@[simp] theorem finish_ackDecommission (l : Link) (o : Outcome) :
    (l.finish o).ackDecommission = l.ackDecommission := by cases o <;> rfl

@[simp] theorem finish_commands (l : Link) (o : Outcome) : (l.finish o).commands = l.commands := by
  cases o <;> rfl

@[simp] theorem finish_events (l : Link) (o : Outcome) : (l.finish o).events = l.events := by
  cases o <;> rfl

theorem finish_connection_eq_returned_iff (l : Link) (o : Outcome) :
    (l.finish o).connection = .returned ↔ o = .finalized := by
  cases o <;> simp [finish]

/-- A connection that has ended is on no socket. -/
theorem finish_connection_ne_up (l : Link) (o : Outcome) (socket : ℕ) (greeted : Bool) :
    (l.finish o).connection ≠ .up socket greeted := by
  cases o <;> simp [finish]

theorem onClose_eq_finalized_iff (ack : Bool) (code : Option ℕ) :
    onClose ack code = .finalized ↔
      code = some decommissionFinalizedCode ∨ ack = true ∧ code = some invalidCredentialCode := by
  unfold onClose
  split_ifs with h₁ h₂
  · simp [h₁]
  · simp [h₂]
  · simp [h₁, h₂]

end Link

end Taymna.Agent
