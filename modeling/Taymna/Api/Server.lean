import Taymna.Automata.Pool
import Taymna.Api.Gateway

/-!
# The API process, with all the calls about one machine

A state is a `Pool`: the `World` and every call that has been made. The environment opens and
breaks sockets, delivers frames and makes HTTP requests, in any order and number, and each call
goes on whenever what it waits for is there. So a run of `Server.next` is an interleaving of the
calls at their awaits.
-/

namespace Taymna.Api

open Automata

/-- A call about the machine. -/
inductive Call (Hash : Type*)
  | authenticate (client : ℕ) (pc : Authenticate Hash)
  | message (client : ℕ) (pc : HandleMessage Hash)
  | requestDecommission (pc : RequestDecommission Hash)
  | issueEnrollmentToken (pc : IssueEnrollmentToken Hash)
  | enroll (pc : Enroll Hash)
  | revokeCredential (pc : RevokeCredential Hash)
  | start (pc : StartSession)
  | edit (pc : EditSession)
deriving DecidableEq, Repr

/-- The call has returned. -/
def Call.returned {Hash : Type*} : Call Hash → Bool
  | .authenticate _ pc => pc.returned
  | .message _ pc => pc.returned
  | .requestDecommission pc => pc.returned
  | .issueEnrollmentToken pc => pc.returned
  | .enroll pc => pc.returned
  | .revokeCredential pc => pc.returned
  | .start pc => pc.returned
  | .edit pc => pc.returned

/-- An HTTP request about the machine. -/
inductive Request
  | requestDecommission
  | issueEnrollmentToken
  | enroll (tokenId secret : String)
  | revokeCredential
  | start (durationMinutes : ℤ)
  | edit (sessionId : String) (change : Change)
deriving DecidableEq, Repr

/-- What starts a call, and what happens to the sockets. -/
inductive Event
  /-- A socket is opened, and presents `secret` for this machine. -/
  | connect (socket : ℕ) (secret : Option String)
  /-- A frame of the agent arrives. -/
  | receive (socket : ℕ) (frame : AgentToServerMessage) (wait : ℤ)
  /-- The agent's side begins to close. -/
  | hangUp (socket : ℕ)
  /-- The socket is gone: `handleDisconnect`. -/
  | disconnect (socket : ℕ)
  | request (request : Request) (wait : ℤ)
deriving DecidableEq, Repr

namespace Server

variable {Hash : Type*}

/-- `handleConnection` of an agent, up to its first await. -/
def connect (w : World Hash) (k : ℕ) : Option String → World Hash × List (Call Hash)
  | some secret =>
    (w.onSocket k fun s => { s with readyState := .opened, secret := some secret },
      [.authenticate k (.find secret)])
  | none =>
    (w.onSocket k fun s =>
        Socket.close { s with readyState := .opened } 4001 "Invalid machine credential", [])

/-- `handleDisconnect`. -/
def disconnect (w : World Hash) (k : ℕ) : World Hash :=
  if (w.sockets k).agent then
    (w.unregisterAgent k).onSocket k fun s => { s with readyState := .closed, agent := false }
  else w.onSocket k fun s => { s with readyState := .closed }

theorem disconnect_readyState (w : World Hash) (k : ℕ) :
    ((disconnect w k).sockets k).readyState = .closed := by
  unfold disconnect
  split_ifs <;> simp [World.onSocket]

/-- A call up to its first await. -/
def request (w : World Hash) (wait : ℤ) : Request → World Hash × Call Hash
  | .requestDecommission => (w, .requestDecommission .find)
  | .issueEnrollmentToken => (w, .issueEnrollmentToken .find)
  | .enroll tokenId secret => (w, .enroll (.find tokenId secret))
  | .revokeCredential =>
    let w := w.read wait
    (w, .revokeCredential (.update w.clock))
  | .start durationMinutes => (w, .start (.find durationMinutes))
  | .edit sessionId change => (w, .edit (.find sessionId change))

/-- What an event does at once, and the calls that it starts. -/
def event (w : World Hash) : Event → Option (World Hash × List (Call Hash))
  | .connect k secret =>
    match (w.sockets k).readyState with
    | .connecting => some (connect w k secret)
    | _ => none
  | .receive k frame wait =>
    match (w.sockets k).readyState with
    | .opened | .closing =>
      if (w.sockets k).listening then
        let (w, pc) := HandleMessage.start w wait frame
        some (w, [.message k pc])
      -- Without a listener, the frame is dropped.
      else some (w, [])
    | _ => none
  | .hangUp k =>
    match (w.sockets k).readyState with
    | .opened => some (w.onSocket k fun s => { s with readyState := .closing }, [])
    | _ => none
  | .disconnect k =>
    match (w.sockets k).readyState with
    | .opened | .closing => some (disconnect w k, [])
    | _ => none
  | .request r wait =>
    let (w, call) := request w wait r
    some (w, [call])

/-- One step of a call. -/
def step [Argon2 Hash] (w : World Hash) (call : Call Hash) (input : Input) :
    Option (World Hash × Call Hash) :=
  match call with
  | .authenticate k pc => (pc.step w k input).map fun (w, pc) => (w, .authenticate k pc)
  | .message k pc => (pc.step w k input).map fun (w, pc) => (w, .message k pc)
  | .requestDecommission pc => (pc.step w input).map fun (w, pc) => (w, .requestDecommission pc)
  | .issueEnrollmentToken pc => (pc.step w input).map fun (w, pc) => (w, .issueEnrollmentToken pc)
  | .enroll pc => (pc.step w input).map fun (w, pc) => (w, .enroll pc)
  | .revokeCredential pc => (pc.step w input).map fun (w, pc) => (w, .revokeCredential pc)
  | .start pc => (pc.step w input).map fun (w, pc) => (w, .start pc)
  | .edit pc => (pc.step w input).map fun (w, pc) => (w, .edit pc)

/-! ## What one step can do -/

/-- The steps of a call. -/
inductive Step [Argon2 Hash] (w : World Hash) (input : Input) : Call Hash → World Hash → Call Hash → Prop
  | authenticate {k pc w' pc'} : Authenticate.Step w k input pc w' pc' →
      Step w input (.authenticate k pc) w' (.authenticate k pc')
  | message {k pc w' pc'} : HandleMessage.Step w k input pc w' pc' →
      Step w input (.message k pc) w' (.message k pc')
  | requestDecommission {pc w' pc'} : RequestDecommission.Step w input pc w' pc' →
      Step w input (.requestDecommission pc) w' (.requestDecommission pc')
  | issueEnrollmentToken {pc w' pc'} : pc.step w input = some (w', pc') →
      Step w input (.issueEnrollmentToken pc) w' (.issueEnrollmentToken pc')
  | enroll {pc w' pc'} : Enroll.Step w input pc w' pc' → Step w input (.enroll pc) w' (.enroll pc')
  | revokeCredential {pc w' pc'} : RevokeCredential.Step w input pc w' pc' →
      Step w input (.revokeCredential pc) w' (.revokeCredential pc')
  | start {pc w' pc'} : pc.step w input = some (w', pc') → Step w input (.start pc) w' (.start pc')
  | edit {pc w' pc'} : pc.step w input = some (w', pc') → Step w input (.edit pc) w' (.edit pc')

theorem step_cases [Argon2 Hash] {w w' : World Hash} {c c' : Call Hash} {input : Input}
    (h : step w c input = some (w', c')) : Step w input c w' c' := by
  cases c <;> obtain ⟨⟨w'', pc'⟩, hs, he⟩ := Option.map_eq_some_iff.1 h <;>
    obtain ⟨rfl, rfl⟩ := Prod.mk.inj he
  · exact .authenticate (Authenticate.step_cases hs)
  · exact .message (HandleMessage.step_cases hs)
  · exact .requestDecommission (RequestDecommission.step_cases hs)
  · exact .issueEnrollmentToken hs
  · exact .enroll (Enroll.step_cases hs)
  · exact .revokeCredential (RevokeCredential.step_cases hs)
  · exact .start hs
  · exact .edit hs

/-- The events. -/
inductive EventStep (w : World Hash) : Event → World Hash → List (Call Hash) → Prop
  | connect {k secret} : (w.sockets k).readyState = .connecting →
      EventStep w (.connect k secret) (connect w k secret).1 (connect w k secret).2
  | receive {k frame wait} :
      (w.sockets k).readyState = .opened ∨ (w.sockets k).readyState = .closing →
      (w.sockets k).listening = true →
      EventStep w (.receive k frame wait) (HandleMessage.start w wait frame).1
        [.message k (HandleMessage.start w wait frame).2]
  | drop {k frame wait} :
      (w.sockets k).readyState = .opened ∨ (w.sockets k).readyState = .closing →
      (w.sockets k).listening = false → EventStep w (.receive k frame wait) w []
  | hangUp {k} : (w.sockets k).readyState = .opened →
      EventStep w (.hangUp k) (w.onSocket k fun s => { s with readyState := .closing }) []
  | disconnect {k} : (w.sockets k).readyState = .opened ∨ (w.sockets k).readyState = .closing →
      EventStep w (.disconnect k) (disconnect w k) []
  | request {r wait} : EventStep w (.request r wait) (request w wait r).1 [(request w wait r).2]

theorem event_cases {w w' : World Hash} {e : Event} {cs : List (Call Hash)}
    (h : event w e = some (w', cs)) : EventStep w e w' cs := by
  cases e with
  | connect k secret =>
    simp only [event] at h
    split at h
    · rename_i hk
      obtain ⟨rfl, rfl⟩ := Prod.mk.inj (Option.some.inj h)
      exact .connect hk
    · cases h
  | receive k frame wait =>
    have hk : (w.sockets k).readyState = .opened ∨ (w.sockets k).readyState = .closing := by
      simp only [event] at h
      split at h
      · exact Or.inl ‹_›
      · exact Or.inr ‹_›
      · cases h
    have he : (if (w.sockets k).listening = true then
        some ((HandleMessage.start w wait frame).1, [Call.message k (HandleMessage.start w wait frame).2])
        else some (w, [])) = some (w', cs) := by
      rcases hk with hk | hk <;> simpa only [event, hk] using h
    split_ifs at he with hl <;> obtain ⟨rfl, rfl⟩ := Prod.mk.inj (Option.some.inj he)
    · exact .receive hk hl
    · exact .drop hk (by simpa using hl)
  | hangUp k =>
    simp only [event] at h
    split at h
    · rename_i hk
      obtain ⟨rfl, rfl⟩ := Prod.mk.inj (Option.some.inj h)
      exact .hangUp hk
    · cases h
  | disconnect k =>
    simp only [event] at h
    split at h
    · rename_i hk
      obtain ⟨rfl, rfl⟩ := Prod.mk.inj (Option.some.inj h)
      exact .disconnect (Or.inl hk)
    · rename_i hk
      obtain ⟨rfl, rfl⟩ := Prod.mk.inj (Option.some.inj h)
      exact .disconnect (Or.inr hk)
    · cases h
  | request r wait =>
    obtain ⟨rfl, rfl⟩ := Prod.mk.inj (Option.some.inj h)
    exact .request

/-- An event reads the clock and changes sockets, and nothing else. -/
theorem EventStep.world {w w' : World Hash} {e : Event} {cs : List (Call Hash)}
    (h : EventStep w e w' cs) : ∃ clock agentSocket sockets,
      w' = { w with clock := clock, agentSocket := agentSocket, sockets := sockets } := by
  cases h with
  | @connect k secret => cases secret <;> exact ⟨_, _, _, rfl⟩
  | @receive k frame wait => cases frame <;> exact ⟨_, _, _, rfl⟩
  | drop => exact ⟨w.clock, w.agentSocket, w.sockets, rfl⟩
  | hangUp => exact ⟨_, _, _, rfl⟩
  | disconnect =>
    unfold Server.disconnect World.unregisterAgent
    split_ifs <;> exact ⟨_, _, _, rfl⟩
  | @request r wait => cases r <;> exact ⟨_, _, _, rfl⟩

/-- A call that has just been made. -/
inductive Made : Call Hash → Prop
  | authenticate {k secret} : Made (.authenticate k (.find secret))
  | heartbeat {k now agentVersion} : Made (.message k (.heartbeat (.update now agentVersion)))
  | decommissionAck {k} : Made (.message k .finalize)
  | other {k} : Made (.message k .ignored)
  | requestDecommission : Made (.requestDecommission .find)
  | issueEnrollmentToken : Made (.issueEnrollmentToken .find)
  | enroll {tokenId secret} : Made (.enroll (.find tokenId secret))
  | revokeCredential {now} : Made (.revokeCredential (.update now))
  | start {durationMinutes} : Made (.start (.find durationMinutes))
  | edit {sessionId change} : Made (.edit (.find sessionId change))

theorem made_of_event {w w' : World Hash} {e : Event} {cs : List (Call Hash)}
    (h : EventStep w e w' cs) : ∀ c ∈ cs, Made c := by
  intro c hc
  cases h with
  | @connect k secret =>
    cases secret with
    | none => cases hc
    | some secret =>
      obtain rfl := List.mem_singleton.1 hc
      exact .authenticate
  | @receive k frame =>
    obtain rfl := List.mem_singleton.1 hc
    cases frame with
    | heartbeat => exact .heartbeat
    | decommissionAck => exact .decommissionAck
    | other => exact .other
  | drop | hangUp | disconnect => cases hc
  | @request r =>
    obtain rfl := List.mem_singleton.1 hc
    cases r <;> constructor

/-- One atomic step of the API. -/
def next [Argon2 Hash] :
    Pool (World Hash) (Call Hash) → Pool.Label Event Input → Option (Pool (World Hash) (Call Hash)) :=
  Pool.next event step

end Server

end Taymna.Api
