import Taymna.Automata.Register
import Taymna.Web.MachineCard

/-!
# What an operator does on a card (`web/src/components/machine-card.tsx`)

A click can be made while its button is there and not disabled (`Card.offers`), and some clicks send a
request, which settles at any time later. What can be relied on is what stands behind a request when it
is sent (`requests_warranted`): that no other one about the session or the machine's place in the list is
under way, that the operator has asked for a destructive one and nothing has happened to that question
since, and that the API takes what is in it.
-/

namespace Taymna.Web.MachineCard

open Automata
open Api (Platform)

/-! ## The card -/

/-- A mutation with its variables; the id of the machine goes without saying. -/
inductive Request
  | start (durationMinutes : ℤ)
  | extend (sessionId : String) (additionalMinutes : ℤ)
  | end (sessionId : String)
  | revoke
  | remove
  | rename (name : String)
  | issueEnrollmentToken
deriving DecidableEq, Repr

/-- The destructive actions. -/
inductive Confirm
  | end
  | revoke
  | remove
deriving DecidableEq, Repr

/-- The state of `StartSessionControl`. The browser keeps the value of a number input empty while it is
none. -/
structure StartControl where
  opened : Bool
  customMinutes : Option ℤ
deriving DecidableEq, Repr

/-- As it is first rendered. -/
def StartControl.closed : StartControl := { opened := false, customMinutes := none }

/-- The state of a `MachineCard`, with the requests that are in flight. -/
structure Card where
  machine : Machine
  now : ℤ
  busy : Bool
  enrollCommand : Option String
  copied : Bool
  draftName : Option String
  confirm : Option Confirm
  startControl : StartControl
  /-- The mutations that have not settled. -/
  inFlight : List Request
deriving DecidableEq, Repr

/-- What the card waits for with `busy`. -/
def Request.guarded : Request → Bool
  | .start _ | .extend _ _ | .end _ | .revoke | .remove => true
  | .rename _ | .issueEnrollmentToken => false

/-- What an action is that has to be confirmed. -/
def Request.confirm? : Request → Option Confirm
  | .end _ => some .end
  | .revoke => some .revoke
  | .remove => some .remove
  | .start _ | .extend _ _ | .rename _ | .issueEnrollmentToken => none

/-! ## Names -/

/-- `WhiteSpace` and `LineTerminator` of ECMAScript. -/
def isWhiteSpace (c : Char) : Bool :=
  (9 ≤ c.toNat && c.toNat ≤ 13) || (8192 ≤ c.toNat && c.toNat ≤ 8202) ||
    [32, 160, 5760, 8232, 8233, 8239, 8287, 12288, 65279].contains c.toNat

/-- `String.prototype.trim`. -/
def trim (s : String) : String :=
  String.ofList (((s.toList.dropWhile isWhiteSpace).reverse.dropWhile isWhiteSpace).reverse)

/-- What `maxLength` counts. -/
def utf16Length (s : String) : ℕ := (s.toList.map fun c => if c.toNat < 65536 then 1 else 2).sum

/-! ## Buttons -/

/-- What an operator can click or press. -/
inductive Click
  | extend (additionalMinutes : ℤ)
  | endSession
  | end
  | cancelEnd
  | startSession
  | preset (minutes : ℤ)
  | customMinutes (value : Option ℤ)
  | submitStart
  | cancelStart
  | revokeCredential
  | removeMachine
  | revoke
  | remove
  | cancel
  | rename
  | type (draftName : String)
  | saveName
  | cancelName
  | installationCommand
  | copyCommand
  | done
deriving DecidableEq, Repr

/-- The minutes of the presets. -/
def presetMinutes : List ℤ := [30, 60, 120, 240, 480]

namespace Card

variable (c : Card)

/-- `hasActiveSession` of the card. -/
def active : Bool := hasActiveSession c.machine c.now

/-- `StartSessionControl` is on the card. -/
def startable : Bool := !c.active && c.machine.online

/-- `renameMachine.isPending`. -/
def renamePending : Bool := c.inFlight.any fun r => r matches .rename _

/-- `issueEnrollmentToken.isPending`. -/
def issuePending : Bool := c.inFlight.any fun r => r matches .issueEnrollmentToken

/-- The button, or the input, is there and is not disabled. -/
def offers : Click → Bool
  | .extend additionalMinutes =>
    c.active && c.confirm != some .end && !c.busy && (additionalMinutes == 30 || additionalMinutes == 60)
  | .endSession => c.active && c.confirm != some .end && !c.busy
  | .end => c.active && c.confirm == some .end && !c.busy
  | .cancelEnd => c.active && c.confirm == some .end
  | .startSession => c.startable && !c.startControl.opened
  | .preset minutes => c.startable && c.startControl.opened && !c.busy && presetMinutes.contains minutes
  | .customMinutes _ => c.startable && c.startControl.opened
  -- The form is submitted with a value between `min` and `max` only.
  | .submitStart => c.startable && c.startControl.opened && !c.busy &&
      c.startControl.customMinutes.any fun minutes => 1 ≤ minutes && minutes ≤ 10080
  | .cancelStart => c.startable && c.startControl.opened
  | .revokeCredential | .removeMachine => c.confirm != some .revoke && c.confirm != some .remove
  | .revoke => c.confirm == some .revoke && !c.busy
  | .remove => c.confirm == some .remove && !c.busy
  | .cancel => c.confirm == some .revoke || c.confirm == some .remove
  | .rename => c.draftName.isNone
  | .type draftName => c.draftName.isSome && utf16Length draftName ≤ 100
  | .saveName => c.draftName.any (fun draftName => trim draftName != "") && !c.renamePending
  | .cancelName => c.draftName.isSome
  | .installationCommand => c.enrollCommand.isNone && !c.issuePending
  | .copyCommand | .done => c.enrollCommand.isSome

/-- `setBusy(true)`, and the call of a mutation. -/
def send (r : Request) : Card × Option Request :=
  ({ c with busy := true, inFlight := c.inFlight ++ [r] }, some r)

/-- `start` of `StartSessionControl`. -/
def start (minutes : ℤ) : Card × Option Request :=
  if minutes > 0 then { c with startControl := .closed }.send (.start minutes) else (c, none)

/-- `handleExtend`. -/
def handleExtend (additionalMinutes : ℤ) : Card × Option Request :=
  match c.machine.activeSession with
  | some session => c.send (.extend session.id additionalMinutes)
  | none => (c, none)

/-- `handleEnd`. -/
def handleEnd : Card × Option Request :=
  match c.machine.activeSession with
  | some session => c.send (.end session.id)
  | none => (c, none)

/-- `handleRename`. -/
def handleRename : Card × Option Request :=
  match c.draftName.map trim with
  | none => (c, none)
  | some name =>
    if name = "" ∨ name = c.machine.name then ({ c with draftName := none }, none)
    else ({ c with inFlight := c.inFlight ++ [.rename name] }, some (.rename name))

/-- What a click does, and what it sends. -/
def handle : Click → Card × Option Request
  | .extend additionalMinutes => c.handleExtend additionalMinutes
  | .endSession => ({ c with confirm := some .end }, none)
  | .end => c.handleEnd
  | .cancelEnd | .cancel => ({ c with confirm := none }, none)
  | .startSession => ({ c with startControl := { c.startControl with opened := true } }, none)
  | .preset minutes => c.start minutes
  | .customMinutes value => ({ c with startControl := { c.startControl with customMinutes := value } }, none)
  | .submitStart => c.start (c.startControl.customMinutes.getD 0)
  | .cancelStart => ({ c with startControl := { c.startControl with opened := false } }, none)
  | .revokeCredential => ({ c with confirm := some .revoke }, none)
  | .removeMachine => ({ c with confirm := some .remove }, none)
  | .revoke => c.send .revoke
  | .remove => c.send .remove
  | .rename => ({ c with draftName := some c.machine.name }, none)
  | .type draftName => ({ c with draftName := some draftName }, none)
  | .saveName => c.handleRename
  | .cancelName => ({ c with draftName := none }, none)
  | .installationCommand =>
    ({ c with copied := false, inFlight := c.inFlight ++ [.issueEnrollmentToken] },
      some .issueEnrollmentToken)
  | .copyCommand => ({ c with copied := true }, none)
  | .done => ({ c with enrollCommand := none }, none)

/-- A click on something that the card offers. -/
def click (k : Click) : Option (Card × Option Request) := if c.offers k then some (c.handle k) else none

/-- The card of a machine comes on the screen. -/
def mount (machine : Machine) (now : ℤ) : Card :=
  { machine := machine, now := now, busy := false, enrollCommand := none, copied := false,
    draftName := none, confirm := none, startControl := .closed, inFlight := [] }

/-- The card is rendered for what is in the cache, at another time. Where `StartSessionControl` is not on
it, its state is lost. -/
def render (machine : Machine) (now : ℤ) : Card :=
  let c := { c with machine := machine, now := now }
  if c.startable then c else { c with startControl := .closed }

/-- The `finally` of the handlers. -/
def settle (r : Request) : Card :=
  let c := { c with inFlight := c.inFlight.erase r }
  match r with
  | .start _ | .extend _ _ => { c with busy := false }
  | .end _ | .revoke | .remove => { c with busy := false, confirm := none }
  | .rename _ | .issueEnrollmentToken => c

end Card

/-- `installCommand`. -/
def installCommand (agentServerUrl : String) (platform : Platform) (token : String) : String :=
  let installBase := "https://raw.githubusercontent.com/jaylordibe/taymna/main/install"
  match platform with
  | .windows =>
    "$env:TAYMNA_SERVER = '" ++ agentServerUrl ++ "'; $env:TAYMNA_TOKEN = '" ++ token ++ "'; irm " ++
      installBase ++ "/install.ps1 | iex"
  | .linux | .macos =>
    "curl -fsSL " ++ installBase ++ "/install.sh | sudo TAYMNA_SERVER=" ++ agentServerUrl ++
      " TAYMNA_TOKEN=" ++ token ++ " bash"

/-- What happens to a card. -/
inductive Event
  | shown (machine : Machine) (now : ℤ)
  | clicked (k : Click)
  /-- A mutation other than `issueEnrollmentToken` has succeeded. -/
  | fulfilled (r : Request)
  | issued (token : String)
  | rejected (r : Request)
deriving DecidableEq, Repr

/-- A card is that of one machine, and what settles has been sent. -/
def Card.step (agentServerUrl : String) (c : Card) : Event → Option Card
  | .shown machine now => if machine.id = c.machine.id then some (c.render machine now) else none
  | .clicked k => (c.click k).map Prod.fst
  | .fulfilled r =>
    if r ∈ c.inFlight then
      match r with
      | .rename _ => some { c.settle r with draftName := none }
      | .issueEnrollmentToken => none
      | _ => some (c.settle r)
    else none
  | .issued token =>
    if .issueEnrollmentToken ∈ c.inFlight then
      some { c.settle .issueEnrollmentToken with
        enrollCommand := some (installCommand agentServerUrl c.machine.platform token) }
    else none
  | .rejected r => if r ∈ c.inFlight then some (c.settle r) else none

/-! ## One request at a time -/

variable {agentServerUrl : String} {c c' : Card}

/-- The card is busy just while one of the requests it waits for is under way. -/
def Card.Single (c : Card) : Prop := c.inFlight.countP Request.guarded = if c.busy then 1 else 0

theorem Card.Single.idle (h : c.Single) (hbusy : c.busy = false) : ∀ r ∈ c.inFlight, r.guarded = false := by
  unfold Card.Single at h
  rw [hbusy] at h
  intro r hr
  simpa using List.countP_eq_zero.1 h r hr

theorem Card.Single.send (h : c.Single) (hbusy : c.busy = false) {r : Request} (hr : r.guarded = true) :
    (c.send r).1.Single := by
  unfold Card.Single at h
  rw [hbusy] at h
  show (c.inFlight ++ [r]).countP Request.guarded = 1
  rw [List.countP_append, h, List.countP_singleton, hr]
  rfl

theorem Card.Single.settle (h : c.Single) {r : Request} (hr : r ∈ c.inFlight) : (c.settle r).Single := by
  have hinFlight : (c.settle r).inFlight = c.inFlight.erase r := by cases r <;> rfl
  have hcount := (List.perm_cons_erase hr).countP_eq Request.guarded
  unfold Card.Single at h ⊢
  rw [List.countP_cons, h] at hcount
  rw [hinFlight]
  cases hguarded : r.guarded with
  | true =>
    -- What has settled is the one that the card has waited for.
    have hidle : (c.settle r).busy = false := by
      cases r with
      | start _ | extend _ _ | «end» _ | revoke | remove => rfl
      | rename _ | issueEnrollmentToken => cases hguarded
    have hle : (if c.busy = true then 1 else 0) ≤ 1 := by split_ifs <;> decide
    rw [hguarded, if_pos rfl] at hcount
    rw [hidle, if_neg (by decide)]
    omega
  | false =>
    have hsame : (c.settle r).busy = c.busy := by
      cases r with
      | start _ | extend _ _ | «end» _ | revoke | remove => cases hguarded
      | rename _ | issueEnrollmentToken => rfl
    rw [hguarded] at hcount
    rw [hsame, hcount]
    rfl

/-! ## What stands behind a request -/

/-- What the card shows when it sends a request. -/
def Sound (c : Card) : Request → Prop
  | .start durationMinutes =>
    c.machine.online = true ∧ c.active = false ∧ 1 ≤ durationMinutes ∧ durationMinutes ≤ 10080
  | .extend sessionId additionalMinutes =>
    (∃ session, c.machine.activeSession = some session ∧ session.id = sessionId ∧ c.now < session.expiresAt) ∧
      1 ≤ additionalMinutes ∧ additionalMinutes ≤ 10080
  | .end sessionId =>
    (∃ session, c.machine.activeSession = some session ∧ session.id = sessionId ∧ c.now < session.expiresAt) ∧
      c.confirm = some .end
  | .revoke => c.confirm = some .revoke
  | .remove => c.confirm = some .remove
  | .rename name => name ≠ "" ∧ name ≠ c.machine.name ∧ ∃ draftName, c.draftName = some draftName ∧
      name = trim draftName ∧ ∀ name', Request.rename name' ∉ c.inFlight
  | .issueEnrollmentToken => c.enrollCommand = none ∧ .issueEnrollmentToken ∉ c.inFlight

/-- What a click can do: it sends nothing, or it sends what its button is for. -/
inductive Clicked (c : Card) : Card → Option Request → Prop
  | quiet {d : Card} (hinFlight : d.inFlight = c.inFlight) (hbusy : d.busy = c.busy) : Clicked c d none
  | guarded {d : Card} {r : Request} (hidle : c.busy = false) (hr : r.guarded = true)
      (hinFlight : d.inFlight = c.inFlight ++ [r]) (hbusy : d.busy = true) (hsound : Sound c r) :
      Clicked c d (some r)
  | unguarded {d : Card} {r : Request} (hr : r.guarded = false)
      (hinFlight : d.inFlight = c.inFlight ++ [r]) (hbusy : d.busy = c.busy) (hsound : Sound c r) :
      Clicked c d (some r)

theorem Card.active_session (h : c.active = true) :
    ∃ session, c.machine.activeSession = some session ∧ c.now < session.expiresAt :=
  (hasActiveSession_iff c.machine c.now).1 h

theorem clicked_start {minutes : ℤ} (hstart : c.startable = true) (hidle : c.busy = false)
    (hlow : 1 ≤ minutes) (hhigh : minutes ≤ 10080) :
    Clicked c (c.start minutes).1 (c.start minutes).2 := by
  unfold Card.startable at hstart
  rw [Bool.and_eq_true, Bool.not_eq_true'] at hstart
  unfold Card.start
  rw [if_pos (by omega)]
  exact .guarded hidle rfl rfl rfl ⟨hstart.2, hstart.1, hlow, hhigh⟩

theorem clicked_of_click {k : Click} {d : Card} {sent : Option Request} (h : c.click k = some (d, sent)) :
    Clicked c d sent := by
  unfold Card.click at h
  split_ifs at h with hoffers
  obtain ⟨rfl, rfl⟩ := Prod.mk.inj (Option.some.inj h)
  cases k with
  | extend additionalMinutes =>
    simp only [Card.offers, Bool.and_eq_true, Bool.not_eq_true', Bool.or_eq_true, beq_iff_eq] at hoffers
    obtain ⟨⟨⟨hactive, -⟩, hidle⟩, hminutes⟩ := hoffers
    obtain ⟨session, hsession, hnow⟩ := Card.active_session hactive
    show Clicked c (c.handleExtend additionalMinutes).1 (c.handleExtend additionalMinutes).2
    simp only [Card.handleExtend, hsession]
    exact .guarded hidle rfl rfl rfl ⟨⟨session, hsession, rfl, hnow⟩, by omega, by omega⟩
  | «end» =>
    simp only [Card.offers, Bool.and_eq_true, Bool.not_eq_true', beq_iff_eq] at hoffers
    obtain ⟨⟨hactive, hconfirm⟩, hidle⟩ := hoffers
    obtain ⟨session, hsession, hnow⟩ := Card.active_session hactive
    show Clicked c c.handleEnd.1 c.handleEnd.2
    simp only [Card.handleEnd, hsession]
    exact .guarded hidle rfl rfl rfl ⟨⟨session, hsession, rfl, hnow⟩, hconfirm⟩
  | preset minutes =>
    simp only [Card.offers, Bool.and_eq_true, Bool.not_eq_true', presetMinutes, List.contains_eq_mem,
      decide_eq_true_eq, List.mem_cons, List.not_mem_nil, or_false] at hoffers
    obtain ⟨⟨⟨hstart, -⟩, hidle⟩, hminutes⟩ := hoffers
    exact clicked_start hstart hidle (by omega) (by omega)
  | submitStart =>
    simp only [Card.offers, Bool.and_eq_true, Bool.not_eq_true', Option.any_eq_true, decide_eq_true_eq]
      at hoffers
    obtain ⟨⟨⟨hstart, -⟩, hidle⟩, minutes, hminutes, hlow, hhigh⟩ := hoffers
    show Clicked c (c.start (c.startControl.customMinutes.getD 0)).1
      (c.start (c.startControl.customMinutes.getD 0)).2
    rw [hminutes]
    exact clicked_start hstart hidle hlow hhigh
  | revoke =>
    simp only [Card.offers, Bool.and_eq_true, Bool.not_eq_true', beq_iff_eq] at hoffers
    exact .guarded hoffers.2 rfl rfl rfl hoffers.1
  | remove =>
    simp only [Card.offers, Bool.and_eq_true, Bool.not_eq_true', beq_iff_eq] at hoffers
    exact .guarded hoffers.2 rfl rfl rfl hoffers.1
  | saveName =>
    simp only [Card.offers, Bool.and_eq_true, Bool.not_eq_true', Option.any_eq_true] at hoffers
    obtain ⟨⟨draftName, hdraft, -⟩, hpending⟩ := hoffers
    have hpending' : ∀ name', Request.rename name' ∉ c.inFlight := by
      intro name' hmem
      exact List.any_eq_false.1 hpending _ hmem rfl
    show Clicked c c.handleRename.1 c.handleRename.2
    simp only [Card.handleRename, hdraft, Option.map_some]
    split_ifs with hsame
    · exact .quiet rfl rfl
    · rw [not_or] at hsame
      exact .unguarded rfl rfl rfl ⟨hsame.1, hsame.2, draftName, hdraft, rfl, hpending'⟩
  | installationCommand =>
    simp only [Card.offers, Bool.and_eq_true, Bool.not_eq_true', Option.isNone_iff_eq_none] at hoffers
    refine .unguarded rfl rfl rfl ⟨hoffers.1, fun hmem => ?_⟩
    exact List.any_eq_false.1 hoffers.2 _ hmem rfl
  | endSession | cancelEnd | startSession | customMinutes | cancelStart | revokeCredential
  | removeMachine | cancel | rename | type | cancelName | copyCommand | done => exact .quiet rfl rfl

/-! ## Over a run -/

theorem Card.Single.step (h : c.Single) {e : Event} (hs : c.step agentServerUrl e = some c') : c'.Single := by
  cases e with
  | shown machine now =>
    simp only [Card.step, Option.ite_none_right_eq_some, Option.some.injEq] at hs
    obtain ⟨-, rfl⟩ := hs
    unfold Card.render
    dsimp only
    split_ifs <;> exact h
  | clicked k =>
    simp only [Card.step, Option.map_eq_some_iff] at hs
    obtain ⟨⟨d, sent⟩, hclick, rfl⟩ := hs
    cases clicked_of_click hclick with
    | quiet hinFlight hbusy =>
      unfold Card.Single
      rw [hinFlight, hbusy]
      exact h
    | guarded hidle hr hinFlight hbusy _ =>
      unfold Card.Single at h ⊢
      rw [hidle] at h
      rw [hinFlight, hbusy, List.countP_append, h, List.countP_singleton, hr]
      rfl
    | unguarded hr hinFlight hbusy _ =>
      unfold Card.Single at h ⊢
      rw [hinFlight, hbusy, List.countP_append, h, List.countP_singleton, hr]
      rfl
  | fulfilled r =>
    simp only [Card.step, Option.ite_none_right_eq_some] at hs
    obtain ⟨hr, hs⟩ := hs
    have hsettle := h.settle hr
    cases r with
    | issueEnrollmentToken => cases hs
    | start | extend | «end» | revoke | remove | rename =>
      obtain rfl := Option.some.inj hs
      exact hsettle
  | issued token =>
    simp only [Card.step, Option.ite_none_right_eq_some, Option.some.injEq] at hs
    obtain ⟨hr, rfl⟩ := hs
    exact h.settle hr
  | rejected r =>
    simp only [Card.step, Option.ite_none_right_eq_some, Option.some.injEq] at hs
    obtain ⟨hr, rfl⟩ := hs
    exact h.settle hr

/-- The button that asks for a destructive action. -/
def Confirm.button : Confirm → Click
  | .end => .endSession
  | .revoke => .revokeCredential
  | .remove => .removeMachine

/-- What becomes of the question whether to go on: it is put, or dropped, or neither. -/
def asked : Event → Option (Option Confirm)
  | .clicked .endSession => some (some .end)
  | .clicked .revokeCredential => some (some .revoke)
  | .clicked .removeMachine => some (some .remove)
  | .clicked .cancelEnd | .clicked .cancel => some none
  | .fulfilled r | .rejected r => if r.confirm?.isSome then some none else none
  | .clicked _ | .shown _ _ | .issued _ => none

theorem asked_eq_some {e : Event} {kind : Confirm} (h : asked e = some (some kind)) :
    e = .clicked kind.button := by
  unfold asked at h
  split at h
  · obtain rfl := Option.some.inj (Option.some.inj h)
    rfl
  · obtain rfl := Option.some.inj (Option.some.inj h)
    rfl
  · obtain rfl := Option.some.inj (Option.some.inj h)
    rfl
  · cases h
  · cases h
  · split_ifs at h
    cases h
  · split_ifs at h
    cases h
  · cases h
  · cases h
  · cases h

theorem confirm_settle (r : Request) :
    (c.settle r).confirm = if r.confirm?.isSome then none else c.confirm := by
  cases r <;> rfl

theorem confirm_handle (k : Click) : (c.handle k).1.confirm = (asked (.clicked k)).getD c.confirm := by
  have hstart : ∀ minutes, (c.start minutes).1.confirm = c.confirm := by
    intro minutes
    unfold Card.start
    split_ifs <;> rfl
  cases k with
  | extend additionalMinutes =>
    show (c.handleExtend additionalMinutes).1.confirm = c.confirm
    unfold Card.handleExtend
    cases c.machine.activeSession <;> rfl
  | «end» =>
    show c.handleEnd.1.confirm = c.confirm
    unfold Card.handleEnd
    cases c.machine.activeSession <;> rfl
  | preset minutes => exact hstart minutes
  | submitStart => exact hstart _
  | saveName =>
    show c.handleRename.1.confirm = c.confirm
    unfold Card.handleRename
    split
    · rfl
    · split_ifs <;> rfl
  | endSession | cancelEnd | startSession | customMinutes | cancelStart | revokeCredential | removeMachine
  | revoke | remove | cancel | rename | type | cancelName | installationCommand | copyCommand | done => rfl

theorem confirm_step (c : Card) (e : Event) (c' : Card) (hs : c.step agentServerUrl e = some c') :
    c'.confirm = (asked e).getD c.confirm := by
  cases e with
  | shown machine now =>
    simp only [Card.step, Option.ite_none_right_eq_some, Option.some.injEq] at hs
    obtain ⟨-, rfl⟩ := hs
    unfold Card.render
    dsimp only
    split_ifs <;> rfl
  | clicked k =>
    simp only [Card.step, Option.map_eq_some_iff] at hs
    obtain ⟨⟨d, sent⟩, hclick, rfl⟩ := hs
    unfold Card.click at hclick
    split_ifs at hclick
    rw [← confirm_handle k, Option.some.inj hclick]
  | fulfilled r =>
    simp only [Card.step, Option.ite_none_right_eq_some] at hs
    obtain ⟨-, hs⟩ := hs
    cases r with
    | issueEnrollmentToken => cases hs
    | start | extend | «end» | revoke | remove | rename =>
      obtain rfl := Option.some.inj hs
      rfl
  | issued token =>
    simp only [Card.step, Option.ite_none_right_eq_some, Option.some.injEq] at hs
    obtain ⟨-, rfl⟩ := hs
    rfl
  | rejected r =>
    simp only [Card.step, Option.ite_none_right_eq_some, Option.some.injEq] at hs
    obtain ⟨-, rfl⟩ := hs
    rw [confirm_settle]
    show _ = (if r.confirm?.isSome then some none else none : Option (Option Confirm)).getD c.confirm
    split_ifs <;> rfl

/-! ## Names -/

/-- The names on the card are short enough for the API. -/
structure Card.Named (c : Card) : Prop where
  machine : c.machine.name.length ≤ 100
  draft : ∀ draftName, c.draftName = some draftName → draftName.length ≤ 100

theorem length_le_utf16Length (s : String) : s.length ≤ utf16Length s := by
  have hsum : ∀ cs : List Char, cs.length ≤ (cs.map fun c => if c.toNat < 65536 then 1 else 2).sum := by
    intro cs
    induction cs with
    | nil => exact le_rfl
    | cons c cs ih =>
      rw [List.length_cons, List.map_cons, List.sum_cons]
      split_ifs <;> omega
  exact hsum s.toList

theorem length_trim_le (s : String) : (trim s).length ≤ s.length := by
  have hdrop : ∀ cs : List Char, (cs.dropWhile isWhiteSpace).length ≤ cs.length :=
    fun cs => (List.dropWhile_sublist _).length_le
  unfold trim
  rw [String.length_ofList, List.length_reverse]
  refine (hdrop _).trans ?_
  rw [List.length_reverse]
  exact hdrop _

/-- Every name that is rendered on the card is one that the API takes. -/
def Event.Named : Event → Prop
  | .shown machine _ => machine.name.length ≤ 100
  | .clicked _ | .fulfilled _ | .issued _ | .rejected _ => True

theorem Card.Named.handle (h : c.Named) {k : Click} (hk : c.offers k = true) : (c.handle k).1.Named := by
  have hsame : ∀ d : Card, d.machine = c.machine → d.draftName = c.draftName ∨ d.draftName = none →
      d.Named := by
    intro d hmachine hdraft
    refine ⟨hmachine ▸ h.machine, fun draftName hd => ?_⟩
    rcases hdraft with heq | heq
    · exact h.draft draftName (heq ▸ hd)
    · rw [heq] at hd
      cases hd
  have hstart : ∀ minutes, (c.start minutes).1.Named := by
    intro minutes
    unfold Card.start
    split_ifs
    · exact hsame _ rfl (.inl rfl)
    · exact h
  cases k with
  | extend additionalMinutes =>
    show (c.handleExtend additionalMinutes).1.Named
    unfold Card.handleExtend
    cases c.machine.activeSession <;> exact hsame _ rfl (.inl rfl)
  | «end» =>
    show c.handleEnd.1.Named
    unfold Card.handleEnd
    cases c.machine.activeSession <;> exact hsame _ rfl (.inl rfl)
  | preset minutes => exact hstart minutes
  | submitStart => exact hstart _
  | rename =>
    refine ⟨h.machine, fun draftName hd => ?_⟩
    obtain rfl := Option.some.inj hd
    exact h.machine
  | type draft =>
    refine ⟨h.machine, fun draftName hd => ?_⟩
    obtain rfl := Option.some.inj hd
    simp only [Card.offers, Bool.and_eq_true, decide_eq_true_eq] at hk
    exact (length_le_utf16Length draft).trans hk.2
  | saveName =>
    show c.handleRename.1.Named
    unfold Card.handleRename
    split
    · exact h
    · split_ifs
      · exact hsame _ rfl (.inr rfl)
      · exact hsame _ rfl (.inl rfl)
  | cancelName => exact hsame _ rfl (.inr rfl)
  | endSession | cancelEnd | startSession | customMinutes | cancelStart | revokeCredential | removeMachine
  | revoke | remove | cancel | installationCommand | copyCommand | done => exact hsame _ rfl (.inl rfl)

theorem Card.Named.step (h : c.Named) {e : Event} (he : e.Named) (hs : c.step agentServerUrl e = some c') :
    c'.Named := by
  have hsettle : ∀ r, (c.settle r).Named := by
    intro r
    cases r <;> exact ⟨h.machine, h.draft⟩
  cases e with
  | shown machine now =>
    simp only [Card.step, Option.ite_none_right_eq_some, Option.some.injEq] at hs
    obtain ⟨-, rfl⟩ := hs
    unfold Card.render
    dsimp only
    split_ifs <;> exact ⟨he, h.draft⟩
  | clicked k =>
    simp only [Card.step, Option.map_eq_some_iff] at hs
    obtain ⟨⟨d, sent⟩, hclick, rfl⟩ := hs
    unfold Card.click at hclick
    split_ifs at hclick with hoffers
    have hhandle := h.handle hoffers
    rwa [Option.some.inj hclick] at hhandle
  | fulfilled r =>
    simp only [Card.step, Option.ite_none_right_eq_some] at hs
    obtain ⟨-, hs⟩ := hs
    cases r with
    | issueEnrollmentToken => cases hs
    | rename name =>
      obtain rfl := Option.some.inj hs
      exact ⟨h.machine, fun draftName hd => by cases hd⟩
    | start | extend | «end» | revoke | remove =>
      obtain rfl := Option.some.inj hs
      exact hsettle _
  | issued token =>
    simp only [Card.step, Option.ite_none_right_eq_some, Option.some.injEq] at hs
    obtain ⟨-, rfl⟩ := hs
    exact ⟨h.machine, h.draft⟩
  | rejected r =>
    simp only [Card.step, Option.ite_none_right_eq_some, Option.some.injEq] at hs
    obtain ⟨-, rfl⟩ := hs
    exact hsettle r

/-! ## What a request can be relied on for -/

/-- The validation of `StartSessionDto`, `ExtendSessionDto` and `UpdateMachineDto`; the other requests have
no body. -/
def Request.accepted : Request → Bool
  | .start minutes | .extend _ minutes => 1 ≤ minutes && minutes ≤ 10080
  | .rename name => 1 ≤ name.length && name.length ≤ 100
  | .end _ | .revoke | .remove | .issueEnrollmentToken => true

/-- What stands behind a request that is sent after some events. -/
structure Warranted (es : List Event) (c : Card) (r : Request) : Prop where
  sound : Sound c r
  accepted : r.accepted = true
  /-- Nothing that the card waits for is under way. -/
  alone : r.guarded = true → ∀ r' ∈ c.inFlight, r'.guarded = false
  /-- The operator has asked for it, and since then has neither asked for something else nor gone back,
  and no destructive request has settled. -/
  asked : ∀ kind, r.confirm? = some kind → ∃ before after,
    es = before ++ .clicked kind.button :: after ∧ ∀ e ∈ after, asked e = none

theorem Card.Named.accepted (h : c.Named) {r : Request} (hr : Sound c r) : r.accepted = true := by
  cases r with
  | start minutes => simpa [Request.accepted] using hr.2.2
  | extend sessionId minutes => simpa [Request.accepted] using hr.2
  | rename name =>
    obtain ⟨hne, -, draftName, hdraft, rfl, -⟩ := hr
    have hlen := (length_trim_le draftName).trans (h.draft draftName hdraft)
    have hpos : 0 < (trim draftName).length :=
      Nat.pos_of_ne_zero fun hzero => hne (String.length_eq_zero_iff.1 hzero)
    simp only [Request.accepted, Bool.and_eq_true, decide_eq_true_eq]
    omega
  | «end» | revoke | remove | issueEnrollmentToken => rfl

theorem Sound.confirm {r : Request} (h : Sound c r) {kind : Confirm} (hkind : r.confirm? = some kind) :
    c.confirm = some kind := by
  cases r with
  | «end» sessionId =>
    obtain rfl := Option.some.inj hkind
    exact h.2
  | revoke | remove =>
    obtain rfl := Option.some.inj hkind
    exact h
  | start | extend | rename | issueEnrollmentToken => cases hkind

/-- Whatever has happened before, a request that the card waits for is sent while no other such one is
under way, and each request as the card shows it, after the operator has asked for it where that is
needed, and with a body that the API takes. -/
theorem requests_warranted {machine : Machine} {now : ℤ} {es : List Event}
    (hname : machine.name.length ≤ 100) (hnamed : ∀ e ∈ es, e.Named)
    (hrun : run (Card.step agentServerUrl) (Card.mount machine now) es = some c) {k : Click} {r : Request}
    (hclick : c.click k = some (c', some r)) : Warranted es c r := by
  have hsingle : c.Single :=
    run_invariant (I := Card.Single) (fun _ _ _ h hs => h.step hs) (by rfl) hrun
  have hnames : c.Named := by
    refine run_history_invariant (I := fun es c => (∀ e ∈ es, e.Named) → c.Named) ?_ ?_ hrun hnamed
    · exact fun _ => ⟨hname, fun draftName hd => by cases hd⟩
    · intro es u e t hu ht hes
      exact (hu fun f hf => hes f (List.mem_append_left _ hf)).step (hes e (by simp)) ht
  have hconfirm : c.confirm = (lastWrite asked es).getD none := register_run confirm_step hrun
  have hsound : Sound c r ∧ (r.guarded = true → c.busy = false) := by
    cases clicked_of_click hclick with
    | guarded hidle hr _ _ hsound => exact ⟨hsound, fun _ => hidle⟩
    | unguarded hr _ _ hsound =>
      rw [hr]
      exact ⟨hsound, fun h => by cases h⟩
  refine ⟨hsound.1, hnames.accepted hsound.1, fun hr => hsingle.idle (hsound.2 hr), fun kind hkind => ?_⟩
  rw [hsound.1.confirm hkind] at hconfirm
  cases hlast : lastWrite asked es with
  | none =>
    rw [hlast] at hconfirm
    cases hconfirm
  | some v =>
    rw [hlast, Option.getD_some] at hconfirm
    subst hconfirm
    obtain ⟨before, e, after, hes, he, hafter⟩ := exists_lastWrite hlast
    rw [asked_eq_some he] at hes
    exact ⟨before, after, hes, hafter⟩

/-- The end of a session is asked for while the minutes of an extension are under way, and the request for
it goes out when they are there. -/
theorem requests_warranted_frontDesk :
    Warranted [.clicked (.extend 30), .clicked .revokeCredential, .fulfilled (.extend "s1" 30),
        .clicked .cancel, .clicked .endSession]
      { Card.mount (frontDesk .active) 60000 with confirm := some .end } (.end "s1") := by
  have hrun : run (Card.step "http://localhost:3000") (Card.mount (frontDesk .active) 60000)
      [.clicked (.extend 30), .clicked .revokeCredential, .fulfilled (.extend "s1" 30), .clicked .cancel,
        .clicked .endSession] =
      some { Card.mount (frontDesk .active) 60000 with confirm := some .end } := by decide
  have hclick : ({ Card.mount (frontDesk .active) 60000 with confirm := some .end } : Card).click .end =
      some ({ Card.mount (frontDesk .active) 60000 with
        busy := true, confirm := some .end, inFlight := [.end "s1"] }, some (.end "s1")) := by decide
  refine requests_warranted (by decide) (fun e he => ?_) hrun hclick
  simp only [List.mem_cons, List.not_mem_nil, or_false] at he
  rcases he with rfl | rfl | rfl | rfl | rfl <;> trivial

end Taymna.Web.MachineCard
