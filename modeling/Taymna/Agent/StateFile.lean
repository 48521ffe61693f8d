import Taymna.Agent.RunLoop
import Taymna.Agent.Wire
import Taymna.Automata.Run

/-!
# The state file as a text

`Store` with the texts that are in its directory, and the run loop over it. serde_json is a parameter, as
far as `storage.rs` uses it; what it is relied on for is `StateJson.Lawful`. Whatever a crash leaves of a
text that it was writing, the agent does what it does with a `Disk`, which holds the states themselves.
-/

namespace Taymna.Agent

open Automata Json Serde Time

/-- `serde_json::to_string_pretty` and `serde_json::from_str`, at `AgentState`. -/
structure StateJson where
  toStringPretty : AgentState → List Char
  fromStr : List Char → Option AgentState

/-- Texts are JSON, and are read by what JSON they are, whoever wrote them. -/
structure StateJson.Lawful (j : StateJson) (date : ℤ → List Char) : Prop where
  /-- What chrono writes of an instant is of RFC 3339. -/
  read_date : ∀ t, Rfc3339.Plain t → Rfc3339.read (date t) = some t
  parse_toStringPretty : ∀ state, Json.parse (j.toStringPretty state) = some (state.toValue date)
  fromStr_of_parse : ∀ s v state, Json.parse s = some v → v.shallow 100 = true →
    AgentState.ofValue v = some state → j.fromStr s = some state

/-- What is in a file. -/
inductive Contents
  | absent
  /-- Bytes that are no UTF-8, which `read_to_string` refuses. -/
  | garbled
  | text (s : List Char)
deriving DecidableEq, Repr

/-- The state directory: `state.json`, `state.json.tmp` and `state.json.corrupt`. -/
structure Directory where
  stateJson : Contents
  tmp : Contents
  corrupt : Contents
deriving DecidableEq, Repr

namespace StateJson

variable (j : StateJson)

/-! ## The store -/

/-- `Store::load`. -/
def load (d : Directory) (now : ℤ) : Except ErrorKind AgentState :=
  match d.stateJson with
  | .text contents =>
    match j.fromStr contents with
    | some state => .ok state
    | none => .error .invalidData
  | .garbled => .error .invalidData
  | .absent => .ok (AgentState.default now)

/-- `Store::load_for_enroll`. -/
def loadForEnroll (d : Directory) (now : ℤ) : Directory × AgentState :=
  match j.load d now with
  | .ok state => (d, state)
  | .error .invalidData =>
    ({ d with stateJson := .absent, corrupt := d.stateJson }, AgentState.default now)

/-- `Store::save` up to its rename. -/
def writeTmp (d : Directory) (state : AgentState) : Directory :=
  { d with tmp := .text (j.toStringPretty state) }

end StateJson

/-- The rename of `Store::save`. -/
def Directory.rename (d : Directory) : Directory := { d with stateJson := d.tmp, tmp := .absent }

/-! ## The run loop -/

/-- A computer whose state directory holds texts. -/
structure FileHost where
  directory : Directory
  process : Process
deriving DecidableEq, Repr

namespace FileHost

variable (j : StateJson)

/-- `run` up to its loop. -/
def boot (d : Directory) (now : ℤ) (instant : ℕ) : Option (Process × List Effect) :=
  match j.load d now with
  | .error _ => none
  | .ok state =>
    match state.credentials with
    | none => if state.decommissioned then some (.inert, []) else none
    | some _ =>
      some (.running (RunLoop.start state instant), if state.decommissioned then [.ackDecommission] else [])

/-- The state directory after a successful `enroll`. -/
def enrolled (d : Directory) (credentials : Credentials) (now : ℤ) : Directory :=
  let (d, state) := j.loadForEnroll d now
  (j.writeTmp d (Host.enrolledState state credentials)).rename

/-- The state directory that a crash leaves: `left` is what there is of a text that was being written. -/
def crashed (d : Directory) (process : Process) (torn : Bool) (left : Contents) : Directory :=
  match process with
  | .running r =>
    match r.pc with
    | .save _ => if torn then { d with tmp := left } else d
    | _ => d
  | _ => d

/-- A step that has nothing to do with the directory. -/
def elsewhere (h : FileHost) (label : Host.Label) : Option (FileHost × List Effect) :=
  (Host.step ⟨⟨.absent, .absent⟩, h.process⟩ label).map fun (host, effects) =>
    (⟨h.directory, host.process⟩, effects)

def step (h : FileHost) : Host.Label × Contents → Option (FileHost × List Effect)
  | (.start now instant, _) =>
    match h.process with
    | .stopped =>
      (boot j h.directory now instant).map fun (process, effects) => (⟨h.directory, process⟩, effects)
    | _ => none
  | (.enroll credentials now, _) =>
    match h.process with
    | .stopped => some (⟨enrolled j h.directory credentials now, .stopped⟩, [])
    | _ => none
  | (.crash torn, left) =>
    match h.process with
    | .stopped => none
    | process => some (⟨crashed h.directory process torn left, .stopped⟩, [])
  | (.proceed, _) =>
    match h.process with
    | .running r =>
      match r.pc with
      | .save next => some (⟨j.writeTmp h.directory r.state, .running { r with pc := .rename next }⟩, [])
      | .rename .loop => some (⟨h.directory.rename, .running { r with pc := .select }⟩, [])
      | .rename .accept => some (⟨h.directory.rename, .running { r with pc := .acceptWarn }⟩, [])
      | .rename .exit => some (⟨h.directory.rename, .stopped⟩, [])
      | _ => h.elsewhere .proceed
    | _ => none
  | (label, _) => h.elsewhere label

end FileHost

/-! ## What the texts stand for -/

section

variable (j : StateJson)

def StateJson.read : Contents → StateFile
  | .absent => .absent
  | .garbled => .corrupt
  | .text s =>
    match j.fromStr s with
    | some state => .readable state
    | none => .corrupt

/-- The computer does what the model of its states does. The temporary file counts only between its
writing and the rename. -/
structure FileHost.Refines (h : FileHost) (host : Host) : Prop where
  process : h.process = host.process
  stateJson : j.read h.directory.stateJson = host.disk.stateJson
  tmp : ∀ r next, host.process = .running r → r.pc = .rename next →
    j.read h.directory.tmp = host.disk.tmp

/-- What the step saves can be written in the form of RFC 3339. -/
def Host.SavesPlain (h : Host) : Host.Label → Prop
  | .proceed =>
    match h.process with
    | .running r =>
      match r.pc with
      | .save _ => r.state.Plain
      | _ => True
    | _ => True
  | .enroll credentials now => (Host.enrolledState (Store.loadForEnroll h.disk now).2 credentials).Plain
  | _ => True

end

variable {j : StateJson} {date : ℤ → List Char}

namespace StateJson

/-- A state is read back from the text that is written of it. -/
theorem Lawful.fromStr_toStringPretty (hj : j.Lawful date) {state : AgentState} (h : state.Plain) :
    j.fromStr (j.toStringPretty state) = some state := by
  have hshallow : (state.toValue date).shallow 100 = true := by
    unfold AgentState.toValue AgentState.commonFields
    cases state.credentials <;> cases state.session <;> rfl
  exact hj.fromStr_of_parse _ _ _ (hj.parse_toStringPretty state) hshallow
    (AgentState.ofValue_toValue hj.read_date h)

theorem Lawful.read_writeTmp (hj : j.Lawful date) (d : Directory) {state : AgentState}
    (h : state.Plain) : j.read (j.writeTmp d state).tmp = .readable state := by
  show (match j.fromStr (j.toStringPretty state) with
    | some state => .readable state
    | none => .corrupt) = StateFile.readable state
  rw [hj.fromStr_toStringPretty h]

theorem load_eq {d : Directory} {disk : Disk} (h : j.read d.stateJson = disk.stateJson) (now : ℤ) :
    j.load d now = Store.load disk now := by
  unfold load Store.load
  rw [← h]
  cases hd : d.stateJson with
  | absent => rfl
  | garbled => rfl
  | text s =>
    show (match j.fromStr s with
      | some state => Except.ok state
      | none => Except.error ErrorKind.invalidData) = _
    unfold read
    cases hs : j.fromStr s <;> simp [hs]

theorem loadForEnroll_eq {d : Directory} {disk : Disk} (h : j.read d.stateJson = disk.stateJson)
    (now : ℤ) : (j.loadForEnroll d now).2 = (Store.loadForEnroll disk now).2 := by
  unfold loadForEnroll Store.loadForEnroll
  rw [load_eq h]
  cases Store.load disk now with
  | ok state => rfl
  | error kind =>
    cases kind
    rfl

end StateJson

namespace FileHost

theorem boot_eq {d : Directory} {disk : Disk} (h : j.read d.stateJson = disk.stateJson) (now : ℤ)
    (instant : ℕ) : boot j d now instant = Host.boot disk now instant := by
  have hload := StateJson.load_eq h now
  unfold boot Host.boot
  generalize j.load d now = loaded at hload ⊢
  subst hload
  rfl

/-- Where no rename is due, the temporary file does not count. -/
theorem Refines.of_apart {d : Directory} {disk : Disk} {process : Process}
    (hstate : j.read d.stateJson = disk.stateJson)
    (hpc : ∀ r next, process = .running r → r.pc ≠ .rename next) :
    Refines j ⟨d, process⟩ ⟨disk, process⟩ :=
  ⟨rfl, hstate, fun r next hr hn => absurd hn (hpc r next hr)⟩

theorem Refines.of_running {d : Directory} {disk : Disk} {r : RunLoop}
    (hstate : j.read d.stateJson = disk.stateJson) (hpc : ∀ next, r.pc ≠ .rename next) :
    Refines j ⟨d, .running r⟩ ⟨disk, .running r⟩ := by
  refine .of_apart hstate fun r' next hr => ?_
  obtain rfl := Process.running.inj hr
  exact hpc next

/-- Two steps that do the same outside and lead to computers of which one refines the other. -/
def Alike (j : StateJson) (p : FileHost × List Effect) (q : Host × List Effect) : Prop :=
  p.1.Refines j q.1 ∧ p.2 = q.2

variable {d : Directory} {disk : Disk} {process : Process}

theorem rel_start (hstate : j.read d.stateJson = disk.stateJson) (now : ℤ) (instant : ℕ)
    (left : Contents) : Option.Rel (Alike j) (step j ⟨d, process⟩ (.start now instant, left))
      (Host.step ⟨disk, process⟩ (.start now instant)) := by
  cases process with
  | stopped =>
    show Option.Rel (Alike j) ((boot j d now instant).map _) ((Host.boot disk now instant).map _)
    rw [boot_eq hstate]
    cases hboot : Host.boot disk now instant with
    | none => exact .none
    | some booted =>
      refine .some ⟨.of_apart hstate fun r next hr => ?_, rfl⟩
      obtain ⟨process, effects⟩ := booted
      cases Host.boots_of_boot hboot with
      | inert => cases hr
      | running =>
        obtain rfl := Process.running.inj hr
        intro hpc
        cases hpc
  | inert => exact .none
  | running r => exact .none

theorem rel_enroll (hj : j.Lawful date) (hstate : j.read d.stateJson = disk.stateJson)
    {credentials : Credentials} {now : ℤ}
    (hplain : (Host.enrolledState (Store.loadForEnroll disk now).2 credentials).Plain)
    (left : Contents) : Option.Rel (Alike j) (step j ⟨d, process⟩ (.enroll credentials now, left))
      (Host.step ⟨disk, process⟩ (.enroll credentials now)) := by
  cases process with
  | stopped =>
    refine .some ⟨.of_apart ?_ fun r next hr => (by cases hr), rfl⟩
    show j.read (j.writeTmp (j.loadForEnroll d now).1
      (Host.enrolledState (j.loadForEnroll d now).2 credentials)).tmp = _
    rw [StateJson.loadForEnroll_eq hstate, hj.read_writeTmp _ hplain]
    rfl
  | inert => exact .none
  | running r => exact .none

theorem rel_crash (hstate : j.read d.stateJson = disk.stateJson) (torn : Bool) (left : Contents) :
    Option.Rel (Alike j) (step j ⟨d, process⟩ (.crash torn, left))
      (Host.step ⟨disk, process⟩ (.crash torn)) := by
  have hcrashed : j.read (crashed d process torn left).stateJson =
      (Host.crashed disk process torn).stateJson := by
    rw [Host.crashed_stateJson, ← hstate]
    unfold crashed
    split
    · split
      · split_ifs <;> rfl
      · rfl
    · rfl
  cases process with
  | stopped => exact .none
  | inert => exact .some ⟨.of_apart hcrashed fun r next hr => (by cases hr), rfl⟩
  | running r => exact .some ⟨.of_apart hcrashed fun r next hr => (by cases hr), rfl⟩

theorem rel_proceed (hj : j.Lawful date) {r : RunLoop} (hstate : j.read d.stateJson = disk.stateJson)
    (htmp : ∀ next, r.pc = .rename next → j.read d.tmp = disk.tmp)
    (hplain : ∀ next, r.pc = .save next → r.state.Plain) (left : Contents) :
    Option.Rel (Alike j) (step j ⟨d, .running r⟩ (.proceed, left))
      (Host.step ⟨disk, .running r⟩ .proceed) := by
  cases hpc : r.pc with
  | select =>
    simp only [step, Host.step, Host.proceed, elsewhere, hpc, Option.map_none]
    exact .none
  | warn trustedNow =>
    simp only [step, Host.step, Host.proceed, elsewhere, hpc, Option.map_some]
    exact .some ⟨.of_running hstate fun next h => (by cases h), rfl⟩
  | save next =>
    simp only [step, Host.step, Host.proceed, hpc]
    refine .some ⟨⟨rfl, hstate, fun r' next' hr hnext => ?_⟩, rfl⟩
    exact hj.read_writeTmp d (hplain next hpc)
  | rename next =>
    have hrenamed : j.read d.rename.stateJson = (Store.rename disk).stateJson := htmp next hpc
    cases next with
    | loop =>
      simp only [step, Host.step, Host.proceed, hpc]
      exact .some ⟨.of_running hrenamed fun next h => (by cases h), rfl⟩
    | accept =>
      simp only [step, Host.step, Host.proceed, hpc]
      exact .some ⟨.of_running hrenamed fun next h => (by cases h), rfl⟩
    | exit =>
      simp only [step, Host.step, Host.proceed, hpc]
      exact .some ⟨.of_apart hrenamed fun r' next hr => (by cases hr), rfl⟩
  | acceptWarn =>
    simp only [step, Host.step, Host.proceed, elsewhere, hpc, Option.map_some]
    exact .some ⟨.of_running hstate fun next h => (by cases h), rfl⟩
  | acceptAck =>
    simp only [step, Host.step, Host.proceed, elsewhere, hpc, Option.map_some]
    exact .some ⟨.of_running hstate fun next h => (by cases h), rfl⟩

theorem rel_step (hj : j.Lawful date) {h : FileHost} {host : Host} (hR : h.Refines j host)
    {l : Host.Label × Contents} (hplain : host.SavesPlain l.1) :
    Option.Rel (Alike j) (step j h l) (Host.step host l.1) := by
  obtain ⟨d, process⟩ := h
  obtain ⟨disk, process'⟩ := host
  obtain ⟨hprocess, hstate, htmp⟩ := hR
  obtain rfl : process = process' := hprocess
  obtain ⟨label, left⟩ := l
  cases label with
  | start now instant => exact rel_start hstate now instant left
  | crash torn => exact rel_crash hstate torn left
  | enroll credentials now => exact rel_enroll hj hstate hplain left
  | proceed =>
    cases process with
    | stopped => exact .none
    | inert => exact .none
    | running r =>
      refine rel_proceed hj hstate (fun next hpc => htmp r next rfl hpc) (fun next hpc => ?_) left
      unfold Host.SavesPlain at hplain
      simpa only [hpc] using hplain
  | shutdown =>
    cases process with
    | stopped => exact .none
    | inert => exact .some ⟨.of_apart hstate fun r next hr => (by cases hr), rfl⟩
    | running r =>
      cases hpc : r.pc with
      | select =>
        simp only [step, Host.step, elsewhere, hpc, Option.map_some]
        exact .some ⟨.of_running hstate fun next h => (by cases h), rfl⟩
      | _ =>
        simp only [step, Host.step, elsewhere, hpc, Option.map_none]
        exact .none
  | tick osNow instants =>
    cases process with
    | stopped => exact .none
    | inert => exact .none
    | running r =>
      cases hpc : r.pc with
      | select =>
        simp only [step, Host.step, elsewhere, hpc, Option.map_some]
        exact .some ⟨.of_running hstate (RunLoop.onTick_pc_ne_rename hpc osNow instants), rfl⟩
      | _ =>
        simp only [step, Host.step, elsewhere, hpc, Option.map_none]
        exact .none
  | event event instant =>
    cases process with
    | stopped => exact .none
    | inert => exact .none
    | running r =>
      cases hpc : r.pc with
      | select =>
        cases event with
        | some event =>
          simp only [step, Host.step, elsewhere, hpc, Option.map_some]
          exact .some ⟨.of_running hstate (RunLoop.onEvent_pc_ne_rename hpc event instant), rfl⟩
        | none =>
          cases hclosed : r.eventsClosed with
          | true =>
            simp only [step, Host.step, elsewhere, hpc, hclosed, if_true, Option.map_none]
            exact .none
          | false =>
            simp only [step, Host.step, elsewhere, hpc, hclosed, Bool.false_eq_true, if_false,
              Option.map_some]
            exact .some ⟨.of_running hstate fun next h => (by cases h), rfl⟩
      | _ =>
        simp only [step, Host.step, elsewhere, hpc, Option.map_none]
        exact .none

/-- What was put out so far is carried along. -/
theorem rel_logged (hj : j.Lawful date) {p : FileHost × List Effect} {q : Host × List Effect}
    (h : Alike j p q) {l : Host.Label × Contents} (hplain : q.1.SavesPlain l.1) :
    Option.Rel (Alike j) (logged (step j) p l) (logged Host.step q l.1) := by
  obtain ⟨hR, hout⟩ := h
  have hrel := rel_step hj hR hplain
  unfold logged
  generalize step j p.1 l = next at hrel ⊢
  generalize Host.step q.1 l.1 = next' at hrel ⊢
  cases hrel with
  | some hnext => exact .some ⟨hnext.1, congrArg₂ List.append hout hnext.2⟩
  | none => exact .none

end FileHost

/-- The states that the texts of a directory stand for. -/
def StateJson.disk (j : StateJson) (d : Directory) : Disk := ⟨j.read d.stateJson, j.read d.tmp⟩

/-- The agent on texts does what it does with the states that they stand for, whatever its crashes leave of
a text. And a text that no `decommissioned` is in, of an older build, is of a managed machine. -/
theorem runs_on_texts (hj : j.Lawful date) :
    (∀ (d : Directory) (labels : List (Host.Label × Contents)),
      Along (silent Host.step) Host.SavesPlain ⟨j.disk d, .stopped⟩ (labels.map Prod.fst) →
        Option.Rel (FileHost.Alike j) (run (logged (FileHost.step j)) (⟨d, .stopped⟩, []) labels)
          (run (logged Host.step) (⟨j.disk d, .stopped⟩, []) (labels.map Prod.fst))) ∧
    ∀ (s : List Char) (state : AgentState) (others : List (String × Value)), state.Plain →
      (∀ m ∈ others, m.1 ∉ AgentState.keys ∧ m.2.shallow 99 = true) →
      Json.parse s = some (object (("credentials", option Credentials.toValue state.credentials) ::
        state.commonFields date ++ others)) → j.fromStr s = some { state with decommissioned := false } := by
  refine ⟨fun d labels hplain => ?_, fun s state others hplain hothers hparse => ?_⟩
  · have halong : Along (logged Host.step) (fun p label => p.1.SavesPlain label)
        ((⟨j.disk d, .stopped⟩ : Host), ([] : List Effect)) (labels.map Prod.fst) := along_logged_iff.2 hplain
    have hR : FileHost.Refines j ⟨d, .stopped⟩ ⟨j.disk d, .stopped⟩ :=
      .of_apart rfl fun r next hr => (by cases hr)
    exact run_rel (f := Prod.fst) (fun p q l h hsaves => FileHost.rel_logged hj h hsaves) ⟨hR, rfl⟩ halong
  · refine hj.fromStr_of_parse s _ _ hparse ?_
      (AgentState.ofValue_commonFields hj.read_date hplain fun m hm => (hothers m hm).1)
    have hwritten : (object (("credentials", option Credentials.toValue state.credentials) ::
        state.commonFields date)).shallow 100 = true := by
      unfold AgentState.commonFields
      cases state.credentials <;> cases state.session <;> rfl
    rw [shallow_object] at hwritten ⊢
    rw [List.all_append, hwritten, List.all_eq_true.2 fun m hm => (hothers m hm).2]
    rfl

/-- Texts in the layout of `to_string_pretty`, which are read as they are written. -/
def StateJson.pretty : StateJson where
  toStringPretty state := render Json.pretty 0 (state.toValue Rfc3339.write)
  fromStr s := (Json.parse s).bind AgentState.ofValue

theorem StateJson.lawful_pretty : StateJson.pretty.Lawful Rfc3339.write where
  read_date _ h := Rfc3339.read_write h
  parse_toStringPretty state := parse_render Json.pretty (state.toValue Rfc3339.write)
  fromStr_of_parse s v state hparse _ hstate := by
    show (Json.parse s).bind AgentState.ofValue = some state
    rw [hparse]
    exact hstate

/-- A computer is enrolled, and its service started. -/
def firstStart : List (Host.Label × Contents) :=
  [(.enroll ⟨"https://taymna.example.com", "machine", "secret"⟩ 0, .absent), (.start 5 7, .absent)]

theorem runs_on_texts_firstStart :
    ∃ h, run (logged (FileHost.step .pretty)) (⟨⟨.absent, .absent, .absent⟩, .stopped⟩, []) firstStart =
      some h ∧ h.1.process = .running (RunLoop.start (Host.enrolledState (AgentState.default 0)
        ⟨"https://taymna.example.com", "machine", "secret"⟩) 7) := by
  have hplain : (Host.enrolledState (AgentState.default 0)
      ⟨"https://taymna.example.com", "machine", "secret"⟩).Plain :=
    ⟨by decide, by decide, fun s hs => (by cases hs), fun s hs => (by cases hs), fun s hs => (by cases hs)⟩
  have hrel := (runs_on_texts StateJson.lawful_pretty).1 ⟨.absent, .absent, .absent⟩ firstStart
    ⟨hplain, trivial, trivial⟩
  generalize run (logged (FileHost.step .pretty)) (⟨⟨.absent, .absent, .absent⟩, .stopped⟩, []) firstStart =
    reached at hrel ⊢
  cases hrel with
  | some h => exact ⟨_, rfl, h.1.process⟩

end Taymna.Agent
