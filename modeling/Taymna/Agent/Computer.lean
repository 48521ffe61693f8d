import Taymna.Automata.Run
import Taymna.Agent.RunLoop

/-!
# One computer: the run loop, the connection task and the channels between them

A `Computer` joins a `Host` with the `Link` that its process spawns. The run loop takes its events
from `link.events`, and its permission to acknowledge goes into `link.commands`. The link lives and
dies with the process.
-/

namespace Taymna.Agent

/-- The agent: its run loop and its connection task. -/
structure Computer where
  host : Host
  link : Link
deriving DecidableEq, Repr

/-- What a step of a computer does outside: an effect of the run loop, or a frame on the socket. -/
inductive Output
  | effect (effect : Effect)
  | send (frame : AgentToServer)
deriving DecidableEq, Repr

namespace Computer

/-- A step of either. -/
inductive Label (Text : Type*)
  | host (label : Host.Label)
  | link (label : Link.Label Text)
deriving DecidableEq, Repr

variable {Text : Type*}

/-- A computer on which the agent is not running. -/
def off (disk : Disk) : Computer := { host := ⟨disk, .stopped⟩, link := Link.new }

/-- The acknowledgements that the run loop has allowed. -/
def acks (effects : List Effect) : List ClientCommand :=
  effects.filterMap fun
    | .ackDecommission => some .ackDecommission
    | _ => none

/-- Whether the run loop can receive `event` from the channel. -/
def Receives (l : Link) : Option ServerEvent → Prop
  | some event => l.events.head? = some event
  | none => l.events = [] ∧ l.connection = .returned

instance (l : Link) (event : Option ServerEvent) : Decidable (Receives l event) := by
  cases event <;> unfold Receives <;> infer_instance

/-- The link after a step of the run loop that left the process as `process`. -/
def relink (l : Link) (label : Host.Label) (process : Process) (effects : List Effect) : Link :=
  match process with
  | .running _ =>
    match label with
    | .start _ _ => { Link.new with commands := acks effects }
    | .event (some _) _ => { l with events := l.events.tail, commands := l.commands ++ acks effects }
    | _ => { l with commands := l.commands ++ acks effects }
  | _ => Link.new

/-- A step of the run loop. -/
def hostStep (c : Computer) (label : Host.Label) : Option (Computer × List Output) :=
  (Host.step c.host label).map fun (host, effects) =>
    (⟨host, relink c.link label host.process effects⟩, effects.map .effect)

/-- A step of a computer, and what it does outside. -/
def step (fromStr : Text → Option ServerToAgent) (c : Computer) :
    Label Text → Option (Computer × List Output)
  | .host (.event event instant) =>
    if Receives c.link event then c.hostStep (.event event instant) else none
  | .host label => c.hostStep label
  | .link label =>
    match c.host.process with
    | .running _ =>
      (Link.step fromStr c.link label).map fun (link, frames) =>
        (⟨c.host, link⟩, frames.map .send)
    | _ => none

/-- What a step of a computer can be: a step of its host, on an event that the channel holds if it
receives one, or a step of its link while the process runs. -/
theorem step_cases {fromStr : Text → Option ServerToAgent} {c c' : Computer} {label : Label Text}
    {outs : List Output} (h : step fromStr c label = some (c', outs)) :
    (∃ l host effects, label = .host l ∧ Host.step c.host l = some (host, effects) ∧
        (∀ event instant, l = .event event instant → Receives c.link event) ∧
        c' = ⟨host, relink c.link l host.process effects⟩ ∧ outs = effects.map .effect) ∨
      ∃ l r link frames, label = .link l ∧ c.host.process = .running r ∧
        Link.step fromStr c.link l = some (link, frames) ∧ c' = ⟨c.host, link⟩ ∧
        outs = frames.map .send := by
  cases label with
  | host l =>
    refine Or.inl ?_
    have hstep : c.hostStep l = some (c', outs) ∧
        ∀ event instant, l = .event event instant → Receives c.link event := by
      cases l with
      | event event instant =>
        simp only [step] at h
        split_ifs at h with hr
        refine ⟨h, fun e i he => ?_⟩
        obtain ⟨rfl, rfl⟩ := Host.Label.event.inj he
        exact hr
      | _ => exact ⟨h, fun e i he => by cases he⟩
    obtain ⟨⟨host, effects⟩, hh, he⟩ := Option.map_eq_some_iff.1 hstep.1
    obtain ⟨rfl, rfl⟩ := Prod.mk.inj he
    exact ⟨l, host, effects, rfl, hh, hstep.2, rfl, rfl⟩
  | link l =>
    refine Or.inr ?_
    simp only [step] at h
    split at h
    · rename_i r hr
      obtain ⟨⟨link, frames⟩, hl, he⟩ := Option.map_eq_some_iff.1 h
      obtain ⟨rfl, rfl⟩ := Prod.mk.inj he
      exact ⟨l, r, link, frames, rfl, hr, hl, rfl, rfl⟩
    · cases h

end Computer

end Taymna.Agent
