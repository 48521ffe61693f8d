import Mathlib.Data.List.TakeDrop
import Mathlib.Data.List.TakeWhile
import Taymna.Api.World
import Taymna.Automata.Run
import Taymna.Text.Percent

/-!
# The gateway and its registry, for all machines

`World` is about one machine. `Hub` is what `realtime.gateway.ts` and `connection-registry.service.ts`
share among all of them: the map from machines to sockets, the set of operators' sockets, and every
socket that has been opened. A step of the hub is a stretch of code between two awaits. What
`verifyMachineCredential` answers, and what the services send through the registry, comes from
outside, and so does the judgement of `jwt.verify` on a token.
-/

namespace Taymna.Api

/-! ## Credentials in a header -/

/-- The two parts of `value`, if neither of them is empty: it is cut at the first dot. -/
def splitCredential (value : List Char) : Option (List Char × List Char) :=
  match value.span (· ≠ '.') with
  | (_, []) => none
  | (machineId, _ :: secret) => if machineId = [] ∨ secret = [] then none else some (machineId, secret)

/-- `MACHINE_AUTH_PREFIX`. -/
def machineAuthPrefix : List Char := "Machine ".toList

theorem splitCredential_eq_some_iff {value machineId secret : List Char} :
    splitCredential value = some (machineId, secret) ↔
      value = machineId ++ '.' :: secret ∧ machineId ≠ [] ∧ '.' ∉ machineId ∧ secret ≠ [] := by
  have hspan : value.span (· ≠ '.') =
      (value.takeWhile (· ≠ '.'), value.dropWhile (· ≠ '.')) :=
    List.span_eq_takeWhile_dropWhile _ _
  unfold splitCredential
  rw [hspan]
  constructor
  · intro h
    split at h
    · cases h
    · rename_i id c rest hpair
      obtain ⟨htake, hdrop⟩ := Prod.mk.inj hpair
      split_ifs at h with hempty
      obtain ⟨rfl, rfl⟩ := Prod.mk.inj (Option.some.inj h)
      rw [not_or] at hempty
      have hdot : c = '.' := by
        have hhead := List.head?_dropWhile_not (fun d : Char => decide (d ≠ '.')) value
        rw [hdrop] at hhead
        simpa using hhead
      have hid : '.' ∉ id := by
        intro hmem
        have := List.mem_takeWhile_imp (htake ▸ hmem)
        simp at this
      refine ⟨?_, hempty.1, hid, hempty.2⟩
      rw [← List.takeWhile_append_dropWhile (p := fun d : Char => decide (d ≠ '.')) (l := value), htake,
        hdrop, hdot]
  · rintro ⟨rfl, hid, hdot, hsecret⟩
    have hpos : ∀ c ∈ machineId, decide (c ≠ '.') = true :=
      fun c hc => decide_eq_true fun h => hdot (h ▸ hc)
    rw [List.takeWhile_append_of_pos hpos, List.dropWhile_append_of_pos hpos]
    simp [hid, hsecret]

/-! ## Sockets -/

/-- What is put on a socket, with the machine that it is about. -/
inductive HubFrame
  | toAgent (machineId : List Char) (message : ServerToAgentMessage)
  | toOperator (machineId : List Char) (message : ServerToOperatorMessage)
  | close (code : ℕ) (reason : String)
deriving DecidableEq, Repr

/-- One WebSocket of the gateway, with what the gateway and the registry note about it. -/
structure Connection where
  readyState : ReadyState
  /-- The machine and the secret that its `Authorization` header presents. -/
  presented : Option (List Char × List Char)
  /-- `verifyMachineCredential` has been asked about them, and has not answered. -/
  awaiting : Bool
  /-- Its entry in `agentIdBySocket`. -/
  agentId : Option (List Char)
  /-- The machine that its `message` listener has been attached for. -/
  listening : Option (List Char)
  /-- Its token has been verified. -/
  operator : Bool
  /-- Everything that has been put on it, in order. -/
  sent : List HubFrame
deriving DecidableEq, Repr

namespace Connection

/-- A socket number that nobody has connected with. -/
def unused : Connection :=
  { readyState := .connecting, presented := none, awaiting := false, agentId := none, listening := none,
    operator := false, sent := [] }

/-- `socket.send`: a socket that is not open takes nothing. -/
def send (c : Connection) (frame : HubFrame) : Connection :=
  if c.readyState = .opened then { c with sent := c.sent ++ [frame] } else c

/-- `socket.close`: the close frame is sent once. -/
def close (c : Connection) (code : ℕ) (reason : String) : Connection :=
  if c.readyState = .opened then
    { c with readyState := .closing, sent := c.sent ++ [.close code reason] }
  else c

end Connection

/-- The gateway and the registry of one API process, with the sockets that have been opened. -/
structure Hub where
  agentSockets : List Char → Option ℕ
  /-- A set, in the order of insertion. -/
  operatorSockets : List ℕ
  sockets : ℕ → Connection
  /-- What has been broadcast to the operators, in order. -/
  broadcasts : List (List Char × ServerToOperatorMessage)

namespace Hub

/-- The API process when it starts. -/
def empty : Hub :=
  { agentSockets := fun _ => none, operatorSockets := [], sockets := fun _ => .unused, broadcasts := [] }

/-- The hub after a change of one socket. -/
def onSocket (h : Hub) (k : ℕ) (f : Connection → Connection) : Hub :=
  { h with sockets := Function.update h.sockets k (f (h.sockets k)) }

/-! ## The registry (`connection-registry.service.ts`) -/

/-- The socket that the machine had before is closed. -/
def registerAgent (h : Hub) (machineId : List Char) (k : ℕ) : Hub :=
  let h :=
    match h.agentSockets machineId with
    | some existing =>
      if existing ≠ k then h.onSocket existing fun c => c.close 4000 "Replaced by newer connection"
      else h
    | none => h
  { h with agentSockets := Function.update h.agentSockets machineId (some k) }

/-- The entry stays where another socket has replaced this one. -/
def unregisterAgent (h : Hub) (machineId : List Char) (k : ℕ) : Hub :=
  if h.agentSockets machineId = some k then
    { h with agentSockets := Function.update h.agentSockets machineId none }
  else h

/-- `operatorSockets.add`. -/
def registerOperator (h : Hub) (k : ℕ) : Hub :=
  if k ∈ h.operatorSockets then h else { h with operatorSockets := h.operatorSockets ++ [k] }

/-- `operatorSockets.delete`. -/
def unregisterOperator (h : Hub) (k : ℕ) : Hub :=
  { h with operatorSockets := h.operatorSockets.filter (· ≠ k) }

/-- A message for a machine that is not connected is lost. -/
def sendToMachine (h : Hub) (machineId : List Char) (message : ServerToAgentMessage) : Hub :=
  match h.agentSockets machineId with
  | some k => h.onSocket k fun c => c.send (.toAgent machineId message)
  | none => h

/-- The loop over the operators' sockets. -/
def broadcastToOperators (h : Hub) (machineId : List Char) (message : ServerToOperatorMessage) : Hub :=
  let h := h.operatorSockets.foldl
    (fun h k => h.onSocket k fun c => c.send (.toOperator machineId message)) h
  { h with broadcasts := h.broadcasts ++ [(machineId, message)] }

/-- The entry is deleted at once, before the socket is gone. -/
def disconnectMachine (h : Hub) (machineId : List Char) (code : ℕ) (reason : String) : Hub :=
  match h.agentSockets machineId with
  | some k =>
    let h := h.onSocket k fun c => c.close code reason
    { h with agentSockets := Function.update h.agentSockets machineId none }
  | none => h

/-! ## The gateway (`realtime.gateway.ts`) -/

/-- The query of a request's URL. -/
def queryOf (url : List Char) : List Char := ((url.takeWhile (· ≠ '#')).dropWhile (· ≠ '?')).drop 1

/-- `replace` is what the URL parser makes of bytes that are not UTF-8. -/
def extractOperatorToken (replace : List UInt8 → List Char) : Option (List Char) → Option (List Char)
  | none | some [] => none
  | some url => Percent.get replace "token".toList (queryOf url)

/-- How `handleConnection` takes a connection: by its header, else by a token that is not empty. -/
inductive Route
  | agent (credential : List Char)
  | operator (token : List Char)
  | unauthorized
deriving DecidableEq, Repr

/-- What `handleConnection` looks at first. -/
def route (authorization token : Option (List Char)) : Route :=
  match authorization.bind fun header => header.dropPrefix? machineAuthPrefix with
  | some credential => .agent credential
  | none =>
    match token with
    | none | some [] => .unauthorized
    | some token => .operator token

/-- `handleConnection` up to its first await; `verify` is `jwt.verify`. -/
def handleConnection (verify : List Char → Bool) (h : Hub) (k : ℕ) : Route → Hub
  | .agent credential =>
    match splitCredential credential with
    | some presented =>
      h.onSocket k fun c => { c with readyState := .opened, presented := some presented, awaiting := true }
    | none =>
      h.onSocket k fun c => { c with readyState := .opened }.close 4001 "Invalid machine credential"
  | .operator token =>
    if verify token then
      (h.onSocket k fun c => { c with readyState := .opened, operator := true }).registerOperator k
    else h.onSocket k fun c => { c with readyState := .opened }.close 4001 "Invalid or expired token"
  | .unauthorized => h.onSocket k fun c => { c with readyState := .opened }.close 4001 "Unauthorized"

/-- `authenticateAgent` behind its first await. -/
def authenticated (h : Hub) (k : ℕ) (machineId : List Char) (ok : Bool) : Hub :=
  let h := h.onSocket k fun c => { c with awaiting := false }
  if ok then
    let h := h.onSocket k fun c => { c with agentId := some machineId }
    let h := h.registerAgent machineId k
    h.onSocket k fun c => { c with listening := some machineId }
  else h.onSocket k fun c => c.close 4001 "Invalid machine credential"

/-- `handleDisconnect`, once the socket is gone. -/
def handleDisconnect (h : Hub) (k : ℕ) : Hub :=
  let h := h.onSocket k fun c => { c with readyState := .closed }
  match (h.sockets k).agentId with
  | some machineId =>
    (h.unregisterAgent machineId k).onSocket k fun c => { c with agentId := none }
  | none => h.unregisterOperator k

/-- What happens to the hub. -/
inductive Event
  /-- A socket is opened, with an `Authorization` header and the token extracted from its URL. -/
  | connect (socket : ℕ) (authorization token : Option (List Char))
  /-- `verifyMachineCredential` answers. -/
  | verified (socket : ℕ) (ok : Bool)
  /-- The gateway answers an agent on the socket that it has been called for. -/
  | reply (socket : ℕ) (message : ServerToAgentMessage)
  /-- The services call the registry. -/
  | sendToMachine (machineId : List Char) (message : ServerToAgentMessage)
  | broadcast (machineId : List Char) (message : ServerToOperatorMessage)
  | disconnectMachine (machineId : List Char) (code : ℕ) (reason : String)
  /-- The other side begins to close. -/
  | hangUp (socket : ℕ)
  /-- The socket is gone. -/
  | disconnect (socket : ℕ)
deriving DecidableEq, Repr

/-- One event, if it can happen: a socket connects once and disconnects once. -/
def step (verify : List Char → Bool) (h : Hub) : Event → Option Hub
  | .connect k authorization token =>
    match (h.sockets k).readyState with
    | .connecting => some (h.handleConnection verify k (route authorization token))
    | _ => none
  | .verified k ok =>
    match (h.sockets k).awaiting, (h.sockets k).presented with
    | true, some (machineId, _) => some (h.authenticated k machineId ok)
    | _, _ => none
  | .reply k message =>
    match (h.sockets k).listening with
    | some machineId => some (h.onSocket k fun c => c.send (.toAgent machineId message))
    | none => none
  | .sendToMachine machineId message => some (h.sendToMachine machineId message)
  | .broadcast machineId message => some (h.broadcastToOperators machineId message)
  | .disconnectMachine machineId code reason => some (h.disconnectMachine machineId code reason)
  | .hangUp k =>
    match (h.sockets k).readyState with
    | .opened => some (h.onSocket k fun c => { c with readyState := .closing })
    | _ => none
  | .disconnect k =>
    match (h.sockets k).readyState with
    | .opened | .closing => some (h.handleDisconnect k)
    | _ => none

end Hub

end Taymna.Api
