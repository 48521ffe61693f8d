import Taymna.Api.Wire
import Taymna.System.Acknowledgement

/-!
# The fleet on texts

What goes over a socket is a text. `stepText` is a step of the fleet in which the agent reads the text of
the message, and the gateway that of the frame; serde_json is a parameter, as far as `client.rs` uses it. As
long as the instants that are read are in years of four digits, nothing is lost on the way: the fleet on
texts has the runs of the fleet on messages.
-/

namespace Taymna

open Automata Agent Api

variable {Hash : Type*}

/-- `serde_json::to_string` at `AgentToServer`, and `serde_json::from_str` at `ServerToAgent`. -/
structure WireJson where
  toString : AgentToServer → List Char
  fromStr : List Char → Option ServerToAgent

/-- Texts are JSON, and are read by what JSON they are, whoever wrote them. -/
structure WireJson.Lawful (j : WireJson) : Prop where
  parse_toString : ∀ frame, Json.parse (j.toString frame) = some frame.toValue
  fromStr_of_parse : ∀ s v m, Json.parse s = some v → v.shallow 100 = true →
    ServerToAgent.ofValue v = some m → j.fromStr s = some m

namespace Fleet

variable (j : WireJson)

/-- What the agent makes of the next frame on its socket. -/
def turnText (atMs : ℤ) : Frame → Link.Label (List Char)
  | .message message => .text message.stringify atMs
  | .close code _ => .close (some code)

def stepText [Argon2 Hash] (s : Fleet Hash) : Label → Option (Fleet Hash)
  | .read i atMs =>
    match (s.computers i).link.connection with
    | .up k _ =>
      match (s.server.world.sockets k).sent[s.taken k]? with
      | some frame =>
        (Computer.step j.fromStr (s.computers i) (.link (turnText atMs frame))).map fun (c, outs) =>
          { s.moved i c outs with taken := Function.update s.taken k (s.taken k + 1) }
      | none => none
    | _ => none
  | .deliver k wait =>
    match s.toServer k with
    | frame :: rest =>
      (Server.nextArrival jsonParse s.server
        (.env (.text k (String.ofList (j.toString frame)) wait))).map fun server =>
          { s with server := server, toServer := Function.update s.toServer k rest }
    | [] => none
  | label => s.step label

/-- The frame that a step has an agent read. -/
def frame? (s : Fleet Hash) : Label → Option Frame
  | .read i _ =>
    match (s.computers i).link.connection with
    | .up k _ => (s.server.world.sockets k).sent[s.taken k]?
    | _ => none
  | _ => none

/-- Its instants are in years of four digits. -/
def ReadsPlain (s : Fleet Hash) (label : Label) : Prop := ∀ frame ∈ s.frame? label, frame.Plain

instance (s : Fleet Hash) (label : Label) : Decidable (ReadsPlain s label) :=
  inferInstanceAs (Decidable (∀ frame ∈ s.frame? label, frame.Plain))

variable {j}

theorem fromStr_stringify (hj : j.Lawful) {m : ServerToAgentMessage} (h : m.Plain) :
    j.fromStr m.stringify = parse m :=
  hj.fromStr_of_parse _ _ _ (Json.parse_render Json.compact m.toValue) m.shallow_toValue
    (m.ofValue_toValue h)

theorem link_text (hj : j.Lawful) {m : ServerToAgentMessage} (h : m.Plain) (l : Link) (atMs : ℤ) :
    Link.step j.fromStr l (.text m.stringify atMs) = Link.step parse l (.text m atMs) := by
  have hhandle : l.handleMessage j.fromStr m.stringify = l.handleMessage parse m := by
    unfold Link.handleMessage
    rw [fromStr_stringify hj h]
  simp only [Link.step, hhandle]

/-- The agent does on a text what it does on the message. -/
theorem computer_turnText (hj : j.Lawful) (c : Computer) (atMs : ℤ) {frame : Frame}
    (h : frame.Plain) :
    Computer.step j.fromStr c (.link (turnText atMs frame)) =
      Computer.step parse c (.link (turn atMs frame)) := by
  cases frame with
  | message m =>
    simp only [turnText, turn, Computer.step, link_text hj h]
  | close code reason => rfl

/-- The gateway does on a text what it does on the frame. -/
theorem nextArrival_text [Argon2 Hash] (hj : j.Lawful) (p : Pool (World Hash) (Call Hash)) (k : ℕ)
    (frame : AgentToServer) (wait : ℤ) :
    Server.nextArrival jsonParse p (.env (.text k (String.ofList (j.toString frame)) wait)) =
      Server.next p (.env (.receive k (.ofAgent frame) wait)) := by
  have hparse : Json.parse (String.ofList (j.toString frame)).toList = some frame.toValue := by
    rw [String.toList_ofList]
    exact hj.parse_toString frame
  have harrive : Server.arrive jsonParse p.world (.text k (String.ofList (j.toString frame)) wait) =
      Server.event p.world (.receive k (.ofAgent frame) wait) := by
    cases hready : (p.world.sockets k).readyState with
    | _ => simp only [Server.arrive, Server.event, hready, HandleMessage.receive_of_parse hparse]
  exact congrArg (Option.map fun started => (⟨started.1, p.calls ++ started.2⟩ : Pool _ _)) harrive

theorem stepText_eq [Argon2 Hash] (hj : j.Lawful) {s : Fleet Hash} {label : Label}
    (h : ReadsPlain s label) : stepText j s label = step s label := by
  cases label with
  | read i atMs =>
    cases hup : (s.computers i).link.connection with
    | up k greeted =>
      cases hframe : (s.server.world.sockets k).sent[s.taken k]? with
      | some frame =>
        have hnext : s.frame? (.read i atMs) = some frame := by
          simp only [frame?, hup, hframe]
        have hturn := computer_turnText hj (s.computers i) atMs (h frame hnext)
        simp only [stepText, step, hup, hframe, hturn, act, Option.map_map]
        rfl
      | none => simp only [stepText, step, hup, hframe]
    | down => simp only [stepText, step, hup]
    | returned => simp only [stepText, step, hup]
  | deliver k wait =>
    cases hframes : s.toServer k with
    | nil => simp only [stepText, step, hframes]
    | cons frame rest =>
      simp only [stepText, step, hframes, nextArrival_text hj]
      rfl
  | _ => rfl

/-- The fleet on texts has the runs of the fleet on messages. -/
theorem run_stepText [Argon2 Hash] (hj : j.Lawful) {s : Fleet Hash} {labels : List Label}
    (h : Along step ReadsPlain s labels) : run (stepText j) s labels = run step s labels :=
  run_congr (fun _ _ => stepText_eq hj) h

/-! ## A removal, on texts -/

/-- Texts without blanks, which are read as they are written. -/
def compact : WireJson where
  toString frame := Json.render Json.compact 0 frame.toValue
  fromStr s := (Json.parse s).bind ServerToAgent.ofValue

theorem lawful_compact : compact.Lawful where
  parse_toString frame := Json.parse_render Json.compact frame.toValue
  fromStr_of_parse s v m hparse _ hm := by
    show (Json.parse s).bind ServerToAgent.ofValue = some m
    rw [hparse]
    exact hm

theorem run_stepText_acknowledged : run (stepText compact) start acknowledged = some accepted := by
  have hrun : run step start acknowledged = some accepted := rfl
  rw [run_stepText lawful_compact (by decide), hrun]

end Fleet

end Taymna
