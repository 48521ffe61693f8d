import Taymna.Agent.Decommission
import Taymna.Api.Sockets

/-!
# One machine and the computers that enrol for it

A `Fleet` joins the API with any number of computers. Between them are the sockets, each with the
frames that are still on their way in either direction, and the `enroll` requests whose answers have
not come back. One `Fleet.step` is one step of one party, or the passage of one frame between two.
-/

namespace Taymna

open Automata Agent Api

variable {Hash : Type*}

/-- The API and the computers of one machine, with the frames between them. -/
structure Fleet (Hash : Type*) where
  server : Pool (World Hash) (Call Hash)
  computers : ℕ → Computer
  /-- The frames that an agent has put on a socket, and the API has not received. -/
  toServer : ℕ → List AgentToServer
  /-- How many of the frames on a socket its agent has read. -/
  taken : ℕ → ℕ
  /-- The computer that waits for the answer to a call of `enroll`. -/
  waiting : ℕ → Option ℕ

/-- The id of the machine. -/
def machineId : String := "machine"

namespace Fleet

/-- A step of a computer or of the API, or something that passes between them. -/
inductive Label
  /-- A computer does something on its own. -/
  | computer (i : ℕ) (label : Computer.Label ServerToAgentMessage)
  /-- The agent opens a new socket, and the API takes it in. -/
  | connect (i k : ℕ)
  /-- The agent reads the next frame. -/
  | read (i : ℕ) (atMs : ℤ)
  /-- The next frame of an agent reaches the API. -/
  | deliver (k : ℕ) (wait : ℤ)
  /-- The API finds a socket gone, and with it whatever was under way. -/
  | disconnect (k : ℕ)
  /-- A socket begins to close, or an operator makes a request. -/
  | event (event : Event)
  /-- A call of the API goes on. -/
  | call (j : ℕ) (input : Input)
  /-- The `enroll` command sends its request. -/
  | enroll (i : ℕ) (tokenId secret : String) (wait : ℤ)
  /-- The answer to an `enroll` request comes back. -/
  | enrolled (j : ℕ) (serverUrl : String) (now : ℤ)
deriving DecidableEq, Repr

/-- The computer that moves on its own, or on a frame that it reads. -/
def Label.mover : Label → Option ℕ
  | .computer i _ | .read i _ => some i
  | _ => none

/-- What a computer can do without anybody else. -/
def Alone : Computer.Label ServerToAgentMessage → Bool
  | .host (.enroll _ _) => false
  | .host _ => true
  | .link .lost | .link .command | .link (.heartbeat _) => true
  | .link _ => false

/-- The events that are no frame of an agent, and no request of one. -/
def Apart : Event → Bool
  | .hangUp _ => true
  | .request (.enroll _ _) _ => false
  | .request _ _ => true
  | _ => false

/-- The agent's parser, on what the API has serialized. -/
def parse (message : ServerToAgentMessage) : Option ServerToAgent := some message.read

/-- The secret that a running agent presents. -/
def secret (c : Computer) : Option String :=
  match c.host.process with
  | .running r => r.state.credentials.map Credentials.machineSecret
  | _ => none

/-- The frames among what a computer has put out. -/
def frames (outs : List Output) : List AgentToServer :=
  outs.filterMap fun
    | .send frame => some frame
    | .effect _ => none

/-- The frames on the way to the API, when computer `c` has put out `fs`. -/
def put (toServer : ℕ → List AgentToServer) (c : Computer) (fs : List AgentToServer) :
    ℕ → List AgentToServer :=
  match c.link.connection with
  | .up k _ => Function.update toServer k (toServer k ++ fs)
  | _ => toServer

/-- What a computer's step makes of the fleet. -/
def moved (s : Fleet Hash) (i : ℕ) (c : Computer) (outs : List Output) : Fleet Hash :=
  { s with
    computers := Function.update s.computers i c
    toServer := put s.toServer c (frames outs) }

/-- A step of a computer, with what it puts on its socket. -/
def act (s : Fleet Hash) (i : ℕ) (label : Computer.Label ServerToAgentMessage) : Option (Fleet Hash) :=
  (Computer.step parse (s.computers i) label).map fun (c, outs) => s.moved i c outs

/-- A step of the API. -/
def serve [Argon2 Hash] (s : Fleet Hash) (label : Pool.Label Event Input) : Option (Fleet Hash) :=
  (Server.next s.server label).map fun server => { s with server := server }

/-- What the agent makes of the next frame on its socket. -/
def turn (atMs : ℤ) : Frame → Link.Label ServerToAgentMessage
  | .message message => .text message atMs
  | .close code _ => .close (some code)

def step [Argon2 Hash] (s : Fleet Hash) : Label → Option (Fleet Hash)
  | .computer i label => if Alone label then s.act i label else none
  | .connect i k =>
    match secret (s.computers i) with
    | some secret => (s.serve (.env (.connect k (some secret)))).bind fun s => s.act i (.link (.connect k))
    | none => none
  | .read i atMs =>
    match (s.computers i).link.connection with
    | .up k _ =>
      match (s.server.world.sockets k).sent[s.taken k]? with
      | some frame =>
        (s.act i (.link (turn atMs frame))).map fun s =>
          { s with taken := Function.update s.taken k (s.taken k + 1) }
      | none => none
    | _ => none
  | .deliver k wait =>
    match s.toServer k with
    | frame :: rest =>
      serve { s with toServer := Function.update s.toServer k rest }
        (.env (.receive k (.ofAgent frame) wait))
    | [] => none
  | .disconnect k =>
    serve { s with toServer := Function.update s.toServer k [] } (.env (.disconnect k))
  | .event event => if Apart event then s.serve (.env event) else none
  | .call j input => s.serve (.call j input)
  | .enroll i tokenId secret wait =>
    (s.serve (.env (.request (.enroll tokenId secret) wait))).map fun s' =>
      { s' with waiting := Function.update s.waiting s.server.calls.length (some i) }
  | .enrolled j serverUrl now =>
    match s.waiting j, s.server.calls[j]? with
    | some i, some (.enroll (.done secret)) =>
      act { s with waiting := Function.update s.waiting j none } i
        (.host (.enroll ⟨serverUrl, machineId, secret⟩ now))
    | _, _ => none

/-- The machine has just been created, and computer `i`, which has never enrolled, has `disks i`. -/
def init (clock : ℤ) (disks : ℕ → Disk) : Fleet Hash :=
  { server := ⟨World.created clock, []⟩
    computers := fun i => Computer.off (disks i)
    toServer := fun _ => []
    taken := fun _ => 0
    waiting := fun _ => none }

/-- The state directory of a computer that has never enrolled. -/
def Blank (disk : Disk) : Prop :=
  ∀ state, disk.stateJson = .readable state → state.credentials = none ∧ state.decommissioned = false

/-! ## What one step can do -/

/-- The steps of a fleet, by who moves. -/
inductive Step [Argon2 Hash] (s : Fleet Hash) : Label → Fleet Hash → Prop
  /-- One computer: on its own, or on a frame that was put on its socket. -/
  | computer {label i l c outs taken} : label.mover = some i →
      (∀ credentials now, l ≠ .host (.enroll credentials now)) → (∀ k, l ≠ .link (.connect k)) →
      (∀ m atMs, l = .link (.text m atMs) → ∃ k, .message m ∈ (s.server.world.sockets k).sent) →
      Computer.step parse (s.computers i) l = some (c, outs) →
      Step s label { s.moved i c outs with taken := taken }
  | connect {i k r credentials c outs w cs} : (s.computers i).host.process = .running r →
      r.state.credentials = some credentials → (s.server.world.sockets k).readyState = .connecting →
      Server.EventStep s.server.world (.connect k (some credentials.machineSecret)) w cs →
      Computer.step parse (s.computers i) (.link (.connect k)) = some (c, outs) →
      Step s (.connect i k)
        (moved { s with server := ⟨w, s.server.calls ++ cs⟩ } i c outs)
  | deliver {k wait frame rest w cs} : s.toServer k = frame :: rest →
      Server.EventStep s.server.world (.receive k (.ofAgent frame) wait) w cs →
      Step s (.deliver k wait)
        { s with
          toServer := Function.update s.toServer k rest
          server := ⟨w, s.server.calls ++ cs⟩ }
  | disconnect {k w cs} : Server.EventStep s.server.world (.disconnect k) w cs →
      Step s (.disconnect k)
        { s with
          toServer := Function.update s.toServer k []
          server := ⟨w, s.server.calls ++ cs⟩ }
  | event {e w cs} : Apart e = true → Server.EventStep s.server.world e w cs →
      Step s (.event e) { s with server := ⟨w, s.server.calls ++ cs⟩ }
  | call {j input c w c'} : s.server.calls[j]? = some c → Server.Step s.server.world input c w c' →
      Step s (.call j input) { s with server := ⟨w, s.server.calls.set j c'⟩ }
  | enroll {i tokenId secret wait w cs} :
      Server.EventStep s.server.world (.request (.enroll tokenId secret) wait) w cs →
      Step s (.enroll i tokenId secret wait)
        { s with
          server := ⟨w, s.server.calls ++ cs⟩
          waiting := Function.update s.waiting s.server.calls.length (some i) }
  | enrolled {j i serverUrl now secret} : s.waiting j = some i →
      s.server.calls[j]? = some (.enroll (.done secret)) → (s.computers i).host.process = .stopped →
      Step s (.enrolled j serverUrl now)
        { s with
          waiting := Function.update s.waiting j none
          computers := Function.update s.computers i
            (.off (Host.enrolled (s.computers i).host.disk ⟨serverUrl, machineId, secret⟩ now)) }

theorem act_eq_some {s t : Fleet Hash} {i : ℕ} {l : Computer.Label ServerToAgentMessage}
    (h : s.act i l = some t) :
    ∃ c outs, Computer.step parse (s.computers i) l = some (c, outs) ∧ t = s.moved i c outs := by
  obtain ⟨⟨c, outs⟩, hs, rfl⟩ := Option.map_eq_some_iff.1 h
  exact ⟨c, outs, hs, rfl⟩

theorem serve_env_eq_some [Argon2 Hash] {s t : Fleet Hash} {e : Event}
    (h : s.serve (.env e) = some t) :
    ∃ w cs, Server.EventStep s.server.world e w cs ∧
      t = { s with server := ⟨w, s.server.calls ++ cs⟩ } := by
  obtain ⟨p, hp, rfl⟩ := Option.map_eq_some_iff.1 h
  cases Pool.next_iff.1 hp with
  | env he => exact ⟨_, _, Server.event_cases he, rfl⟩

theorem step_cases [Argon2 Hash] {s t : Fleet Hash} {label : Label} (h : step s label = some t) :
    Step s label t := by
  cases label with
  | computer i l =>
    simp only [step] at h
    split_ifs at h with halone
    obtain ⟨c, outs, hs, rfl⟩ := act_eq_some h
    refine .computer rfl (fun credentials now hl => ?_) (fun k hl => ?_) (fun m atMs hl => ?_) hs <;>
      subst hl <;> cases halone
  | connect i k =>
    simp only [step] at h
    split at h
    · rename_i secret hsecret
      obtain ⟨s', hs', hact⟩ := Option.bind_eq_some_iff.1 h
      obtain ⟨w, cs, he, rfl⟩ := serve_env_eq_some hs'
      obtain ⟨c, outs, hs, rfl⟩ := act_eq_some hact
      unfold Fleet.secret at hsecret
      split at hsecret
      · rename_i r hr
        obtain ⟨credentials, hc, rfl⟩ := Option.map_eq_some_iff.1 hsecret
        cases he with
        | connect hk => exact .connect hr hc hk (.connect hk) hs
      · cases hsecret
    · cases h
  | read i atMs =>
    simp only [step] at h
    split at h
    · rename_i k greeted hup
      split at h
      · rename_i frame hframe
        obtain ⟨s', hs', rfl⟩ := Option.map_eq_some_iff.1 h
        obtain ⟨c, outs, hs, rfl⟩ := act_eq_some hs'
        refine .computer rfl (by cases frame <;> simp [turn]) (by cases frame <;> simp [turn])
          (fun m atMs' hl => ⟨k, ?_⟩) hs
        cases frame with
        | message message =>
          obtain ⟨rfl, rfl⟩ : message = m ∧ atMs = atMs' := by simpa [turn] using hl
          exact List.mem_of_getElem? hframe
        | close code reason => simp [turn] at hl
      · cases h
    · cases h
  | deliver k wait =>
    simp only [step] at h
    split at h
    · rename_i frame rest hwire
      obtain ⟨w, cs, he, rfl⟩ := serve_env_eq_some h
      exact .deliver hwire he
    · cases h
  | disconnect k =>
    obtain ⟨w, cs, he, rfl⟩ := serve_env_eq_some h
    exact .disconnect he
  | event e =>
    simp only [step] at h
    split_ifs at h with hapart
    obtain ⟨w, cs, he, rfl⟩ := serve_env_eq_some h
    exact .event hapart he
  | call j input =>
    obtain ⟨p, hp, rfl⟩ := Option.map_eq_some_iff.1 h
    cases Pool.next_iff.1 hp with
    | call hc hs => exact .call hc (Server.step_cases hs)
  | enroll i tokenId secret wait =>
    simp only [step] at h
    obtain ⟨s', hs', rfl⟩ := Option.map_eq_some_iff.1 h
    obtain ⟨w, cs, he, rfl⟩ := serve_env_eq_some hs'
    exact .enroll he
  | enrolled j serverUrl now =>
    simp only [step] at h
    split at h
    · rename_i i secret hi hj
      obtain ⟨c, outs, hs, rfl⟩ := act_eq_some h
      rcases Computer.step_cases hs with ⟨l, host, effects, hl, hh, -, rfl, rfl⟩ |
        ⟨l, r, link, fs, hl, -⟩
      · obtain rfl := Computer.Label.host.inj hl
        obtain ⟨hstop, rfl⟩ := Host.step_enroll_cases hh
        exact .enrolled hi hj hstop
      · cases hl
    · cases h

/-! ## The frames of the agents -/

@[simp] theorem mem_frames {outs : List Output} {frame : AgentToServer} :
    frame ∈ frames outs ↔ .send frame ∈ outs := by
  unfold frames
  rw [List.mem_filterMap]
  constructor
  · rintro ⟨out, hout, h⟩
    cases out with
    | effect effect => cases h
    | send frame' =>
      obtain rfl := Option.some.inj h
      exact hout
  · exact fun h => ⟨_, h, rfl⟩

variable {toServer : ℕ → List AgentToServer} {c : Computer} {fs : List AgentToServer}
  {frame : AgentToServer} {k : ℕ}

theorem put_of_up {greeted : Bool} (hup : c.link.connection = .up k greeted) :
    put toServer c fs = Function.update toServer k (toServer k ++ fs) := by rw [put, hup]

theorem put_of_not_up (h : ∀ k greeted, c.link.connection ≠ .up k greeted) :
    put toServer c fs = toServer := by
  rcases hc : c.link.connection with _ | ⟨k, greeted⟩ | _
  · rw [put, hc]
  · exact absurd hc (h k greeted)
  · rw [put, hc]

theorem mem_put_iff : frame ∈ put toServer c fs k ↔
    frame ∈ toServer k ∨ frame ∈ fs ∧ ∃ greeted, c.link.connection = .up k greeted := by
  rcases hc : c.link.connection with _ | ⟨k', greeted⟩ | _
  · simp [put_of_not_up, hc]
  · rw [put_of_up hc]
    rcases eq_or_ne k k' with rfl | hne
    · simp
    · simp [Function.update_of_ne hne, hne.symm]
  · simp [put_of_not_up, hc]

/-! ## Every computer keeps its own invariant -/

/-- The flags agree on every computer. -/
def Sound (s : Fleet Hash) : Prop := ∀ i, (s.computers i).Sound

theorem sound_update {computers : ℕ → Computer} (h : ∀ i, (computers i).Sound) {i : ℕ} {c : Computer}
    (hc : c.Sound) (j : ℕ) : (Function.update computers i c j).Sound := by
  rcases eq_or_ne j i with rfl | hne
  · rwa [Function.update_self]
  · rw [Function.update_of_ne hne]
    exact h j

theorem Sound.step [Argon2 Hash] {s t : Fleet Hash} {label : Label} (hs : s.Sound)
    (h : Step s label t) : t.Sound := by
  cases h with
  | computer _ _ _ _ hstep => exact sound_update hs ((hs _).step hstep)
  | connect _ _ _ _ hstep => exact sound_update hs ((hs _).step hstep)
  | deliver | disconnect | event | call | enroll => exact hs
  | enrolled => exact sound_update hs (Computer.sound_off _)

theorem sound_init (clock : ℤ) (disks : ℕ → Disk) : (init clock disks : Fleet Hash).Sound :=
  fun i => Computer.sound_off (disks i)

/-- Every socket goes on as a socket may. -/
theorem evolves_step [Argon2 Hash] {s t : Fleet Hash} {label : Label} (h : Step s label t) :
    s.server.world.Evolves (fun _ => True) t.server.world := by
  cases h with
  | computer | enrolled => exact .refl _
  | connect _ _ _ he | deliver _ he | disconnect he | event _ he | enroll he =>
    exact evolves_of_event he
  | call _ hstep => exact fun k => (evolves_of_step hstep k).mono fun _ _ => trivial

end Fleet

end Taymna
