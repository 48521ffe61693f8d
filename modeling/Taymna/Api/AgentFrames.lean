import Taymna.Api.Removal

/-!
# The text of an agent's frames

`handleAgentMessage` parses the text of a frame and trusts its shape: of everything that parses,
only `null` has no `type` to ask for. The row that a heartbeat updates may be gone by then. Both
reject the handler's promise, which nobody awaits, and nothing else does (`handlers_reject_iff`). -/

namespace Taymna.Api

open Automata

variable {Hash : Type*}

/-- A JavaScript value that `JSON.parse` returns, as far as the gateway looks at it: an object has
one entry for each of its keys. -/
inductive Json
  | null
  | boolean
  | number
  | array
  | string (value : String)
  | object (fields : List (String × Json))

namespace Json

def isNull : Json → Bool
  | null => true
  | _ => false

/-- `value[key]`, for a value other than `null`: only objects have the keys that the gateway asks
for. -/
def member (key : String) : Json → Option Json
  | object fields => fields.lookup key
  | _ => none

/-- The text, if the value is one. -/
def text : Json → Option String
  | string value => some value
  | _ => none

/-- `value.type === type`. -/
def hasType (type : String) (value : Json) : Bool := (value.member "type").bind text = some type

/-- The value is an object of one of the two types that an agent sends. -/
def isAgentMessage (value : Json) : Bool :=
  value.hasType "heartbeat" || value.hasType "decommission_ack"

end Json

/-- `handleAgentMessage` up to its first await, for a frame with this text. -/
def HandleMessage.receive (parse : String → Option Json) (w : World Hash) (wait : ℤ)
    (raw : String) : World Hash × HandleMessage Hash :=
  match parse raw with
  | none => (w, .ignored)
  -- `message.type` throws.
  | some .null => (w, .failed)
  | some message =>
    if message.hasType "heartbeat" then
      let w := w.read wait
      (w, .heartbeat (.update w.clock (sanitizeAgentVersion ((message.member "version").bind Json.text))))
    else if message.hasType "decommission_ack" then (w, .finalize)
    else (w, .ignored)

/-- Unless it is `null`, a text is handled as one of the messages of the protocol. -/
theorem HandleMessage.receive_eq_start (parse : String → Option Json) (w : World Hash) (wait : ℤ)
    {raw : String} (h : (parse raw).any Json.isNull = false) (atMs : ℤ) :
    ∃ frame ∈ [.heartbeat atMs (((parse raw).bind (Json.member "version")).bind Json.text),
      .decommissionAck, .other], receive parse w wait raw = start w wait frame := by
  unfold receive
  split
  · exact ⟨.other, by simp, rfl⟩
  · rename_i he
    simp [he, Json.isNull] at h
  · rename_i message hmessage he
    split_ifs
    · exact ⟨_, List.mem_cons_self, by simp [start, he]⟩
    · exact ⟨.decommissionAck, by simp, rfl⟩
    · exact ⟨.other, by simp, rfl⟩

/-- What the gateway is told of: the text of an agent's frame, or anything else. -/
inductive Arrival
  | text (socket : ℕ) (raw : String) (wait : ℤ)
  | event (event : Event)
deriving DecidableEq, Repr

/-- The promise of the handler has rejected, or the query that it awaits has. -/
def Call.rejects : Call Hash → Bool
  | .message _ .failed | .message _ (.heartbeat (.updated none)) => true
  | .authenticate _ .failed | .authenticate _ (.heartbeat (.updated none)) => true
  | _ => false

/-- The call is about to update the row for a heartbeat. -/
def Call.beats : Call Hash → Bool
  | .message _ (.heartbeat (.update _ _)) | .authenticate _ (.heartbeat (.update _ _)) => true
  | _ => false

namespace Server

/-- The events, with the frames as they come. -/
def arrive (parse : String → Option Json) (w : World Hash) :
    Arrival → Option (World Hash × List (Call Hash))
  | .text k raw wait =>
    match (w.sockets k).readyState with
    | .opened | .closing =>
      if (w.sockets k).listening then
        let (w, pc) := HandleMessage.receive parse w wait raw
        some (w, [.message k pc])
      else some (w, [])
    | _ => none
  | .event e => event w e

/-- One atomic step of the API, with the frames as they come. -/
def nextArrival [Argon2 Hash] (parse : String → Option Json) :
    Pool (World Hash) (Call Hash) → Pool.Label Arrival Input →
      Option (Pool (World Hash) (Call Hash)) :=
  Pool.next (arrive parse) step

/-- The step handles no `null`, and updates no row that is gone. -/
def Handled (parse : String → Option Json) (p : Pool (World Hash) (Call Hash)) :
    Pool.Label Arrival Input → Prop
  | .env (.text k raw _) => (parse raw).any Json.isNull = true → (p.world.sockets k).listening = false
  | .env (.event _) => True
  | .call i _ => ∀ c ∈ p.calls[i]?, c.beats = true → p.world.machine.isSome = true

instance (parse : String → Option Json) (p : Pool (World Hash) (Call Hash)) :
    ∀ label, Decidable (Handled parse p label)
  | .env (.text _ _ _) => inferInstanceAs (Decidable (_ → _))
  | .env (.event _) => instDecidableTrue
  | .call _ _ => inferInstanceAs (Decidable (∀ c ∈ _, _))

/-- A handler rejects by updating a row that is gone, and does not recover. -/
theorem rejects_of_step [Argon2 Hash] {w w' : World Hash} {c c' : Call Hash} {input : Input}
    (h : Step w input c w' c') : c'.rejects = (c.rejects || c.beats && w.machine.isNone) := by
  cases h with
  | authenticate h =>
    cases h with
    | heartbeat => cases hw : w.machine <;> simp [Call.rejects, Call.beats]
    | _ => rfl
  | message h =>
    cases h with
    | heartbeat => cases hw : w.machine <;> simp [Call.rejects, Call.beats]
    | _ => rfl
  | _ => rfl

/-- No event starts a call that has rejected. -/
theorem Made.rejects {c : Call Hash} (h : Made c) : c.rejects = false := by
  cases h <;> rfl

/-- A handler rejects at once if its frame is `null`. -/
theorem rejects_receive (parse : String → Option Json) (w : World Hash) (k : ℕ) (wait : ℤ)
    (raw : String) :
    (Call.message k (HandleMessage.receive parse w wait raw).2).rejects =
      (parse raw).any Json.isNull := by
  unfold HandleMessage.receive
  split
  · rename_i he
    rw [he]
    rfl
  · rename_i he
    rw [he]
    rfl
  · rename_i message hmessage he
    have hnull : message.isNull = false := by
      cases message with
      | null => exact absurd rfl hmessage
      | _ => rfl
    rw [he, Option.any_some, hnull]
    split_ifs <;> rfl

/-- The frames as they come. -/
inductive ArriveStep (parse : String → Option Json) (w : World Hash) :
    Arrival → World Hash → List (Call Hash) → Prop
  | text {k raw wait} : (w.sockets k).listening = true →
      ArriveStep parse w (.text k raw wait) (HandleMessage.receive parse w wait raw).1
        [.message k (HandleMessage.receive parse w wait raw).2]
  | drop {k raw wait} : (w.sockets k).listening = false → ArriveStep parse w (.text k raw wait) w []
  | event {e w' cs} : EventStep w e w' cs → ArriveStep parse w (.event e) w' cs

theorem arrive_cases {parse : String → Option Json} {w w' : World Hash} {a : Arrival}
    {cs : List (Call Hash)} (h : arrive parse w a = some (w', cs)) : ArriveStep parse w a w' cs := by
  cases a with
  | text k raw wait =>
    have hsome : (if (w.sockets k).listening = true then
        some ((HandleMessage.receive parse w wait raw).1,
          [Call.message k (HandleMessage.receive parse w wait raw).2])
        else some (w, [])) = some (w', cs) := by
      simp only [arrive] at h
      split at h
      · exact h
      · exact h
      · cases h
    split_ifs at hsome with hl <;> obtain ⟨rfl, rfl⟩ := Prod.mk.inj (Option.some.inj hsome)
    · exact .text hl
    · exact .drop (by simpa using hl)
  | event e => exact .event (event_cases h)

/-- A step leads to a state without rejections just if it comes from one and handles what it
should. -/
theorem rejects_iff_of_next [Argon2 Hash] {parse : String → Option Json}
    {p q : Pool (World Hash) (Call Hash)} {label : Pool.Label Arrival Input}
    (h : nextArrival parse p label = some q) :
    (∀ c ∈ q.calls, c.rejects = false) ↔
      (∀ c ∈ p.calls, c.rejects = false) ∧ Handled parse p label := by
  cases Pool.next_iff.1 h with
  | env he =>
    simp only [List.forall_mem_append]
    refine and_congr_right fun _ => ?_
    cases arrive_cases he with
    | text hl => simp [rejects_receive, Handled, hl]
    | drop hl => simp [Handled, hl]
    | event h => simpa [Handled] using fun c hc => (made_of_event h c hc).rejects
  | @call i input c w' c' hc hs =>
    have hmem := List.mem_of_getElem? hc
    have hlt : i < p.calls.length := (List.getElem?_eq_some_iff.1 hc).1
    have hreject := rejects_of_step (step_cases hs)
    have hhandled : Handled parse p (.call i input) ↔ (c.beats && p.world.machine.isNone) = false := by
      simp [Handled, hc, Option.isSome_iff_ne_none]
    rw [hhandled]
    constructor
    · intro hq
      have hc' := hq c' (List.mem_set hlt c')
      rw [hreject, Bool.or_eq_false_iff] at hc'
      refine ⟨fun d hd => ?_, hc'.2⟩
      by_contra hrejects
      have hkeep : c.rejects = true → c'.rejects = true := fun hr => by rw [hreject, hr, Bool.true_or]
      obtain ⟨d', hd', hr⟩ := Pool.exists_mem_set (Q := fun c => c.rejects = true) hc hkeep
        ⟨d, hd, by simpa using hrejects⟩
      exact absurd hr (by simp [hq d' hd'])
    · rintro ⟨hp, hbeats⟩ d hd
      rcases Pool.mem_set_cases hd with rfl | hd
      · rw [hreject, hp c hmem, hbeats]
        rfl
      · exact hp d hd

/-- A frame that is not an object of one of the agent's types leaves everything as it is, now and
later. -/
theorem arrive_ignores [Argon2 Hash] {parse : String → Option Json} {w w' : World Hash} {k : ℕ}
    {raw : String} {wait : ℤ} {cs : List (Call Hash)}
    (hraw : (parse raw).any Json.isAgentMessage = false)
    (h : arrive parse w (.text k raw wait) = some (w', cs)) :
    w' = w ∧ ∀ c ∈ cs, ∀ v input, step v c input = none := by
  have hreceive : HandleMessage.receive parse w wait raw = (w, .ignored) ∨
      HandleMessage.receive parse w wait raw = (w, .failed) := by
    unfold HandleMessage.receive
    split
    · exact Or.inl rfl
    · exact Or.inr rfl
    · rename_i message hmessage he
      rw [he, Option.any_some, Json.isAgentMessage, Bool.or_eq_false_iff] at hraw
      rw [hraw.1, hraw.2]
      exact Or.inl rfl
  cases arrive_cases h with
  | text hl =>
    refine ⟨by rcases hreceive with he | he <;> rw [he], fun c hc v input => ?_⟩
    obtain rfl := List.mem_singleton.1 hc
    rcases hreceive with he | he <;> rw [he] <;> rfl
  | drop hl => exact ⟨rfl, by simp⟩

/-- Whatever an agent sends and however the calls interleave: no handler rejects if and only if no
frame that is handled is `null` and every heartbeat's update finds the row; and a frame that is not
an object of type `heartbeat` or `decommission_ack` changes no state. -/
theorem handlers_reject_iff [Argon2 Hash] (parse : String → Option Json) {w : World Hash}
    {es : List (Pool.Label Arrival Input)} {p : Pool (World Hash) (Call Hash)}
    (h : run (nextArrival parse) ⟨w, []⟩ es = some p) :
    ((∀ c ∈ p.calls, c.rejects = false) ↔ Along (nextArrival parse) (Handled parse) ⟨w, []⟩ es) ∧
    ∀ k raw wait w' cs, (parse raw).any Json.isAgentMessage = false →
      arrive parse p.world (.text k raw wait) = some (w', cs) →
      w' = p.world ∧ ∀ c ∈ cs, ∀ v input, step v c input = none := by
  refine ⟨?_, fun k raw wait w' cs hraw h => arrive_ignores hraw h⟩
  have hrun := run_iff_along (I := fun _ => True)
    (G := fun p : Pool (World Hash) (Call Hash) => ∀ c ∈ p.calls, c.rejects = false)
    (fun _ _ _ _ h => ⟨trivial, rejects_iff_of_next h⟩) trivial h
  simpa using hrun

/-- A parser that knows the frames of an agent, and `null`. -/
def parseKnown (raw : String) : Option Json :=
  if raw = "null" then some .null
  else if raw = "\x7b\"type\":\"heartbeat\"\x7d" then some (.object [("type", .string "heartbeat")])
  else if raw = "\x7b\"type\":\"decommission_ack\"\x7d" then
    some (.object [("type", .string "decommission_ack")])
  else none

/-- A heartbeat, an acknowledgement that nobody has asked for, and a text that does not parse. -/
def chatter : List (Pool.Label Arrival Input) :=
  let go (i : ℕ) : Pool.Label Arrival Input := .call i ⟨0, 0, "", "", 0⟩
  [.env (.event (.connect 0 (some "s1"))), go 0, go 0, go 0, go 0,
    .env (.text 0 "\x7b\"type\":\"heartbeat\"\x7d" 0), go 1, go 1,
    .env (.text 0 "\x7b\"type\":\"decommission_ack\"\x7d" 0), go 2, .env (.text 0 "hello" 0)]

theorem handlers_reject_iff_chatter :
    ∃ p, run (nextArrival parseKnown) (⟨enrolledWorld, []⟩ : Pool (World PlainHash) (Call PlainHash))
      chatter = some p ∧ ∀ c ∈ p.calls, c.rejects = false :=
  ⟨_, rfl, (@handlers_reject_iff _ _ parseKnown enrolledWorld chatter _ rfl).1.2 (by decide)⟩

/-- An agent that is being removed sends its acknowledgement and a heartbeat. -/
def lateHeartbeat : List (Pool.Label Arrival Input) :=
  let go (i : ℕ) : Pool.Label Arrival Input := .call i ⟨0, 0, "", "", 0⟩
  [.env (.event (.connect 0 (some "s1"))), go 0, go 0, go 0, go 0,
    .env (.event (.request .requestDecommission 0)), go 1, go 1, go 1,
    .env (.text 0 "\x7b\"type\":\"decommission_ack\"\x7d" 0),
    .env (.text 0 "\x7b\"type\":\"heartbeat\"\x7d" 0), go 2, go 3, go 3]

/-- An agent that sends `null`. -/
def nullFrame : List (Pool.Label Arrival Input) :=
  let go (i : ℕ) : Pool.Label Arrival Input := .call i ⟨0, 0, "", "", 0⟩
  [.env (.event (.connect 0 (some "s1"))), go 0, go 0, go 0, go 0, .env (.text 0 "null" 0)]

/-- The handlers of the heartbeat and of `null` reject. -/
theorem handlers_rejected :
    (∃ p, run (nextArrival parseKnown) (⟨enrolledWorld, []⟩ : Pool (World PlainHash) (Call PlainHash))
      nullFrame = some p ∧ .message 0 .failed ∈ p.calls) ∧
    ∃ p, run (nextArrival parseKnown) (⟨enrolledWorld, []⟩ : Pool (World PlainHash) (Call PlainHash))
      lateHeartbeat = some p ∧ .message 0 .failed ∈ p.calls :=
  ⟨⟨_, rfl, by decide⟩, ⟨_, rfl, by decide⟩⟩

end Server

end Taymna.Api
