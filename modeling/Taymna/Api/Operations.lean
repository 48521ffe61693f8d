import Taymna.Api.Server

/-!
# The operations on a machine (`machines.service.ts`, `sessions.service.ts`)

`get` and `rename` next to the calls of `Server`, which have no need of the machine's name. A
`NamedWorld` is a `World` with the `name` column of the machine's row, as long as there is a row.
-/

namespace Taymna.Api

open Automata

variable {Hash : Type*}

/-- The API with the name of the machine, which only the two operations here touch. -/
structure NamedWorld (Hash : Type*) where
  world : World Hash
  name : String

/-- The machine's row with its name. -/
structure NamedMachine (Hash : Type*) where
  machine : Machine Hash
  name : String
deriving DecidableEq, Repr

/-- A `MachineDto` with its name. -/
structure NamedMachineDto where
  name : String
  dto : MachineDto
deriving DecidableEq, Repr

namespace NamedWorld

/-- The row of the machine, if it is there. -/
def row (n : NamedWorld Hash) : Option (NamedMachine Hash) :=
  n.world.machine.map fun m => { machine := m, name := n.name }

/-- `machine.update` of the name by id: the row after it, unless it is gone. -/
def updateName (n : NamedWorld Hash) (name : String) : NamedWorld Hash × Option (NamedMachine Hash) :=
  match n.world.machine with
  | some m => ({ n with name := name }, some { machine := m, name := name })
  | none => (n, none)

end NamedWorld

/-- `toDto`, once the active session is known. -/
def NamedMachine.toDto (row : NamedMachine Hash) (session : Option Session) : NamedMachineDto :=
  { name := row.name, dto := row.machine.toDto session }

/-! ## `get` -/

/-- Where `get` is between two awaits, and how it ends. -/
inductive GetMachine (Hash : Type*)
  /-- `machine.findUnique` in flight. -/
  | find
  | found (row : Option (NamedMachine Hash))
  | toDto (row : NamedMachine Hash) (query : GetActiveSession)
  | done (machine : NamedMachineDto)
  | notFound
deriving DecidableEq, Repr

namespace GetMachine

def step (n : NamedWorld Hash) (input : Input) :
    GetMachine Hash → Option (NamedWorld Hash × GetMachine Hash)
  | .find => some (n, .found n.row)
  | .found none => some (n, .notFound)
  | .found (some row) =>
    let w := n.world.read input.wait
    some ({ n with world := w }, .toDto row (.expire w.clock))
  | .toDto row (.found session) => some (n, .done (row.toDto session))
  | .toDto row query =>
    (query.step n.world input).map fun (w, query) => ({ n with world := w }, .toDto row query)
  | .done _ | .notFound => none

/-- The steps of the call, one constructor for each place in the code. -/
inductive Step (n : NamedWorld Hash) (input : Input) :
    GetMachine Hash → NamedWorld Hash → GetMachine Hash → Prop
  | find : Step n input .find n (.found n.row)
  | unknown : Step n input (.found none) n .notFound
  | found {row} : Step n input (.found (some row)) { n with world := n.world.read input.wait }
      (.toDto row (.expire (n.world.clock + input.wait)))
  | query {row query w query'} : query.step n.world input = some (w, query') →
      Step n input (.toDto row query) { n with world := w } (.toDto row query')
  | done {row session} : Step n input (.toDto row (.found session)) n (.done (row.toDto session))

theorem step_cases {n n' : NamedWorld Hash} {input : Input} {pc pc' : GetMachine Hash}
    (h : pc.step n input = some (n', pc')) : Step n input pc n' pc' := by
  cases pc with
  | find =>
    obtain ⟨rfl, rfl⟩ := Prod.mk.inj (Option.some.inj h)
    exact .find
  | found row =>
    cases row <;> obtain ⟨rfl, rfl⟩ := Prod.mk.inj (Option.some.inj h)
    · exact .unknown
    · exact .found
  | toDto row query =>
    cases query with
    | found session =>
      obtain ⟨rfl, rfl⟩ := Prod.mk.inj (Option.some.inj h)
      exact .done
    | expire | expired | find =>
      simp only [step] at h
      obtain ⟨⟨w, query'⟩, hq, he⟩ := Option.map_eq_some_iff.1 h
      obtain ⟨rfl, rfl⟩ := Prod.mk.inj he
      exact .query hq
  | done | notFound => cases h

end GetMachine

/-! ## `rename` -/

/-- Where `rename` is between two awaits, and how it ends. -/
inductive RenameMachine (Hash : Type*)
  /-- `machine.findUnique` in flight. -/
  | find (name : String)
  | found (name : String) (machine : Bool)
  /-- `machine.update` in flight. -/
  | update (name : String)
  | updated (row : Option (NamedMachine Hash))
  | toDto (row : NamedMachine Hash) (query : GetActiveSession)
  | done (machine : NamedMachineDto)
  | notFound
  | failed
deriving DecidableEq, Repr

namespace RenameMachine

def step (n : NamedWorld Hash) (input : Input) :
    RenameMachine Hash → Option (NamedWorld Hash × RenameMachine Hash)
  | .find name => some (n, .found name n.world.machine.isSome)
  | .found _ false => some (n, .notFound)
  | .found name true => some (n, .update name)
  | .update name =>
    let (n, row) := n.updateName name
    some (n, .updated row)
  | .updated none => some (n, .failed)
  | .updated (some row) =>
    let w := n.world.read input.wait
    some ({ n with world := w }, .toDto row (.expire w.clock))
  | .toDto row (.found session) => some (n, .done (row.toDto session))
  | .toDto row query =>
    (query.step n.world input).map fun (w, query) => ({ n with world := w }, .toDto row query)
  | .done _ | .notFound | .failed => none

/-- The steps of the call, one constructor for each place in the code. -/
inductive Step (n : NamedWorld Hash) (input : Input) :
    RenameMachine Hash → NamedWorld Hash → RenameMachine Hash → Prop
  | find {name} : Step n input (.find name) n (.found name n.world.machine.isSome)
  | unknown {name} : Step n input (.found name false) n .notFound
  | found {name} : Step n input (.found name true) n (.update name)
  | update {name} : Step n input (.update name) (n.updateName name).1 (.updated (n.updateName name).2)
  | rejected : Step n input (.updated none) n .failed
  | updated {row} : Step n input (.updated (some row)) { n with world := n.world.read input.wait }
      (.toDto row (.expire (n.world.clock + input.wait)))
  | query {row query w query'} : query.step n.world input = some (w, query') →
      Step n input (.toDto row query) { n with world := w } (.toDto row query')
  | done {row session} : Step n input (.toDto row (.found session)) n (.done (row.toDto session))

theorem step_cases {n n' : NamedWorld Hash} {input : Input} {pc pc' : RenameMachine Hash}
    (h : pc.step n input = some (n', pc')) : Step n input pc n' pc' := by
  cases pc with
  | find =>
    obtain ⟨rfl, rfl⟩ := Prod.mk.inj (Option.some.inj h)
    exact .find
  | found name machine =>
    cases machine <;> obtain ⟨rfl, rfl⟩ := Prod.mk.inj (Option.some.inj h)
    · exact .unknown
    · exact .found
  | update =>
    obtain ⟨rfl, rfl⟩ := Prod.mk.inj (Option.some.inj h)
    exact .update
  | updated row =>
    cases row <;> obtain ⟨rfl, rfl⟩ := Prod.mk.inj (Option.some.inj h)
    · exact .rejected
    · exact .updated
  | toDto row query =>
    cases query with
    | found session =>
      obtain ⟨rfl, rfl⟩ := Prod.mk.inj (Option.some.inj h)
      exact .done
    | expire | expired | find =>
      simp only [step] at h
      obtain ⟨⟨w, query'⟩, hq, he⟩ := Option.map_eq_some_iff.1 h
      obtain ⟨rfl, rfl⟩ := Prod.mk.inj he
      exact .query hq
  | done | notFound | failed => cases h

end RenameMachine

/-! ## All of them together -/

/-- A call in flight. -/
inductive ServiceCall (Hash : Type*)
  | get (pc : GetMachine Hash)
  | rename (pc : RenameMachine Hash)
  | call (call : Call Hash)
deriving DecidableEq, Repr

/-- What starts a call. -/
inductive ServiceEvent
  | get
  | rename (name : String)
  | server (event : Event)
deriving DecidableEq, Repr

namespace Service

/-- What an event does at once, and the calls that it starts. -/
def event (n : NamedWorld Hash) : ServiceEvent → Option (NamedWorld Hash × List (ServiceCall Hash))
  | .get => some (n, [.get .find])
  | .rename name => some (n, [.rename (.find name)])
  | .server e =>
    (Server.event n.world e).map fun (w, calls) => ({ n with world := w }, calls.map .call)

def step [Argon2 Hash] (n : NamedWorld Hash) (operation : ServiceCall Hash) (input : Input) :
    Option (NamedWorld Hash × ServiceCall Hash) :=
  match operation with
  | .get pc => (pc.step n input).map fun (n, pc) => (n, .get pc)
  | .rename pc => (pc.step n input).map fun (n, pc) => (n, .rename pc)
  | .call c => (Server.step n.world c input).map fun (w, c) => ({ n with world := w }, .call c)

/-- The steps of an operation. -/
inductive Step [Argon2 Hash] (n : NamedWorld Hash) (input : Input) :
    ServiceCall Hash → NamedWorld Hash → ServiceCall Hash → Prop
  | get {pc n' pc'} : GetMachine.Step n input pc n' pc' → Step n input (.get pc) n' (.get pc')
  | rename {pc n' pc'} : RenameMachine.Step n input pc n' pc' →
      Step n input (.rename pc) n' (.rename pc')
  | call {c w c'} : Server.Step n.world input c w c' →
      Step n input (.call c) { n with world := w } (.call c')

theorem step_cases [Argon2 Hash] {n n' : NamedWorld Hash} {c c' : ServiceCall Hash} {input : Input}
    (h : step n c input = some (n', c')) : Step n input c n' c' := by
  cases c with
  | get pc =>
    obtain ⟨⟨n'', pc'⟩, hs, he⟩ := Option.map_eq_some_iff.1 h
    obtain ⟨rfl, rfl⟩ := Prod.mk.inj he
    exact .get (GetMachine.step_cases hs)
  | rename pc =>
    obtain ⟨⟨n'', pc'⟩, hs, he⟩ := Option.map_eq_some_iff.1 h
    obtain ⟨rfl, rfl⟩ := Prod.mk.inj he
    exact .rename (RenameMachine.step_cases hs)
  | call c =>
    obtain ⟨⟨w, c'⟩, hs, he⟩ := Option.map_eq_some_iff.1 h
    obtain ⟨rfl, rfl⟩ := Prod.mk.inj he
    exact .call (Server.step_cases hs)

/-- One atomic step of the API. -/
def next [Argon2 Hash] : Pool (NamedWorld Hash) (ServiceCall Hash) →
    Pool.Label ServiceEvent Input → Option (Pool (NamedWorld Hash) (ServiceCall Hash)) :=
  Pool.next event step

end Service

end Taymna.Api
