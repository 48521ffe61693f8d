import Taymna.Api.Registry
import Taymna.Api.Removal

/-!
# Which connection the registry keeps

A socket is registered once its credential has been checked, whatever has happened since it was
opened: its own disconnect may have been handled, or a socket that was opened later may have been
registered. The registry prefers the live and the newer connection in exactly those runs in which
the checks are through in time and in turn (`registry_prefers_iff`). -/

namespace Taymna.Api

open Automata

variable {Hash : Type*}

/-- What `registerAgent` closes a socket with. -/
def Frame.replaced : Frame := .close 4000 "Replaced by newer connection"

/-! ## What is put on the socket that is registered -/

theorem Socket.sent_send_ne_replaced (s : Socket) (m : ServerToAgentMessage) :
    (s.send m).sent ≠ s.sent ++ [Frame.replaced] := by
  unfold send
  split_ifs <;> simp [Frame.replaced]

theorem Socket.sent_close_ne_replaced (s : Socket) {code : ℕ} (reason : String) (hcode : code ≠ 4000) :
    (s.close code reason).sent ≠ s.sent ++ [Frame.replaced] := by
  unfold close
  split_ifs <;> simp [Frame.replaced, hcode]

/-- Only a socket whose credential has been verified replaces another one. -/
theorem RegistryStep.replaced {w w' : World Hash} {c : Call Hash} (h : RegistryStep w c w') {old : ℕ}
    (hsent : (w'.sockets old).sent = (w.sockets old).sent ++ [Frame.replaced]) :
    ∃ k, c = .authenticate k (.verified true) ∧ old ≠ k ∧ w.agentSocket = some old := by
  have hself : ∀ s : Socket, s.sent ≠ s.sent ++ [Frame.replaced] := fun s => by simp
  cases h with
  | keep _ hs =>
    rw [hs] at hsent
    exact absurd hsent (hself _)
  | send k m _ hs =>
    rw [hs] at hsent
    split_ifs at hsent
    · exact absurd hsent (Socket.sent_send_ne_replaced _ _)
    · exact absurd hsent (hself _)
  | reject _ hs =>
    rw [hs] at hsent
    split_ifs at hsent
    · exact absurd hsent (Socket.sent_close_ne_replaced _ _ (by decide))
    · exact absurd hsent (hself _)
  | @accept k _ _ hs =>
    rw [hs] at hsent
    split_ifs at hsent with hk hold
    · subst hk
      exact absurd hsent (hself _)
    · exact ⟨k, rfl, hk, hold⟩
    · exact absurd hsent (hself _)
  | drop code reason hcode _ hs =>
    rw [hs] at hsent
    split_ifs at hsent
    · exact absurd hsent (Socket.sent_close_ne_replaced _ _ hcode)
    · exact absurd hsent (hself _)

/-- A socket that is accepted replaces the one that is registered and open. -/
theorem Authenticate.accept_replaces {w : World Hash} {k old : ℕ} (hold : w.agentSocket = some old)
    (hne : old ≠ k) (ho : (w.sockets old).readyState = .opened) (input : Input) :
    ((accept w k input).1.sockets old).sent = (w.sockets old).sent ++ [Frame.replaced] := by
  rw [accept_sockets, if_neg hne, if_pos hold, Socket.close, if_pos ho]
  rfl

/-! ## What an event leaves of a socket -/

/-- No event puts anything on a socket that is there. -/
theorem Server.sent_of_event {w w' : World Hash} {e : Event} {cs : List (Call Hash)}
    (h : EventStep w e w' cs) {k : ℕ} (hknown : (w.sockets k).readyState ≠ .connecting) :
    (w'.sockets k).sent = (w.sockets k).sent := by
  have hs := socket_of_event h k
  generalize w'.sockets k = s at hs ⊢
  cases hs with
  | connect hconnecting => exact absurd hconnecting hknown
  | same | hangUp | disconnect => rfl

/-- A socket that stays registered has not been disconnected. -/
theorem Server.registered_of_event {w w' : World Hash} {e : Event} {cs : List (Call Hash)}
    (h : EventStep w e w' cs) {k : ℕ} (hk : w'.agentSocket = some k)
    (hknown : (w.sockets k).readyState ≠ .connecting) (hagent : (w.sockets k).agent = true) :
    (w'.sockets k).agent = true ∧
      ((w'.sockets k).readyState = .closed → (w.sockets k).readyState = .closed) := by
  cases h with
  | @connect k' secret hk' =>
    have hne : k ≠ k' := by
      rintro rfl
      exact hknown hk'
    cases secret <;> simp [Server.connect, World.onSocket_sockets, hne, hagent]
  | @receive k' frame wait => cases frame <;> exact ⟨hagent, id⟩
  | drop => exact ⟨hagent, id⟩
  | @hangUp k' =>
    rw [World.onSocket_sockets]
    split_ifs with hkk
    · subst hkk
      exact ⟨hagent, by simp⟩
    · exact ⟨hagent, id⟩
  | @disconnect k' =>
    have hne : k ≠ k' := by
      rintro rfl
      simp only [Server.disconnect, hagent, if_true, World.onSocket_agentSocket,
        World.unregisterAgent] at hk
      split_ifs at hk with hreg
      exact hreg hk
    rw [Server.disconnect_sockets_of_ne w hne]
    exact ⟨hagent, id⟩
  | @request r wait => cases r <;> exact ⟨hagent, id⟩

/-! ## In which order the sockets were opened -/

/-- `k` was opened before `k'`. -/
def Older (g : List ℕ) (k k' : ℕ) : Prop := g.idxOf k < g.idxOf k'

instance (g : List ℕ) (k k' : ℕ) : Decidable (Older g k k') := inferInstanceAs (Decidable (_ < _))

theorem older_of_not_older {g : List ℕ} {k k' : ℕ} (hk : k ∈ g) (hne : k ≠ k') (h : ¬ Older g k' k) :
    Older g k k' := by
  have hidx : g.idxOf k ≠ g.idxOf k' := fun he => hne ((List.idxOf_inj hk).1 he)
  unfold Older at h ⊢
  omega

/-- A call whose credential has been verified is in time and in its turn: the disconnect of its
socket has not been handled, and no socket that was opened after it is registered and open. -/
def Call.InTurn (w : World Hash) (g : List ℕ) (c : Call Hash) : Prop :=
  ∀ k ∈ c.accepts, (w.sockets k).readyState ≠ .closed ∧
    ∀ k' ∈ w.agentSocket, (w.sockets k').readyState = .opened → ¬ Older g k k'

instance (w : World Hash) (g : List ℕ) (c : Call Hash) : Decidable (c.InTurn w g) :=
  inferInstanceAs (Decidable (∀ k ∈ c.accepts, _))

namespace Server

/-- The sockets that have been opened, oldest first. -/
def connections (_ : Pool (World Hash) (Call Hash)) (label : Pool.Label Event Input) (g : List ℕ) :
    List ℕ :=
  match label with
  | .env (.connect k _) => g ++ [k]
  | _ => g

theorem mem_connections {p : Pool (World Hash) (Call Hash)} {label : Pool.Label Event Input}
    {g : List ℕ} {k : ℕ} (hk : k ∈ g) : k ∈ connections p label g := by
  unfold connections
  split
  · exact List.mem_append_left _ hk
  · exact hk

/-- After the step, the entry is no socket whose disconnect has been handled; and if the step closes
a registered open socket as replaced, then for a socket that was opened after it. -/
structure Prefers [Argon2 Hash] (s : Pool (World Hash) (Call Hash) × List ℕ)
    (label : Pool.Label Event Input) : Prop where
  live : ∀ q k, next s.1 label = some q → q.world.agentSocket = some k →
    (q.world.sockets k).readyState ≠ .closed
  newer : ∀ q old, next s.1 label = some q → s.1.world.agentSocket = some old →
    (s.1.world.sockets old).readyState = .opened →
    (q.world.sockets old).sent = (s.1.world.sockets old).sent ++ [Frame.replaced] →
    ∃ i input k, label = .call i input ∧ s.1.calls[i]? = some (.authenticate k (.verified true)) ∧
      Older s.2 old k

/-- The step accepts no socket out of turn. -/
def AcceptsInTurn (s : Pool (World Hash) (Call Hash) × List ℕ) : Pool.Label Event Input → Prop
  | .call i _ => ∀ c ∈ s.1.calls[i]?, c.InTurn s.1.world s.2
  | .env _ => True

instance (s : Pool (World Hash) (Call Hash) × List ℕ) : ∀ label, Decidable (AcceptsInTurn s label)
  | .call _ _ => inferInstanceAs (Decidable (∀ c ∈ _, _))
  | .env _ => instDecidableTrue

/-- The opening of the sockets that the calls and the registry refer to is on record. -/
structure Connected (p : Pool (World Hash) (Call Hash)) (g : List ℕ) : Prop where
  opened : Opened p
  authenticating : ∀ k pc, .authenticate k pc ∈ p.calls → k ∈ g
  registered : ∀ k, p.world.agentSocket = some k → k ∈ g ∧ (p.world.sockets k).agent = true

theorem Connected.event {p : Pool (World Hash) (Call Hash)} {g : List ℕ} (hp : Connected p g)
    {e : Event} {w : World Hash} {cs : List (Call Hash)} (h : EventStep p.world e w cs) :
    Connected ⟨w, p.calls ++ cs⟩ (connections p (.env e) g) where
  opened := hp.opened.event h
  authenticating k pc hc := by
    rcases List.mem_append.1 hc with hold | hnew
    · exact mem_connections (hp.authenticating k pc hold)
    · obtain ⟨secret, rfl, -⟩ := authenticate_of_event h hnew
      simp [connections]
  registered k hk := by
    have hold := agentSocket_of_event h hk
    obtain ⟨hmem, hagent⟩ := hp.registered k hold
    exact ⟨mem_connections hmem, (registered_of_event h hk (hp.opened.registered k hold) hagent).1⟩

theorem Connected.call [Argon2 Hash] {p : Pool (World Hash) (Call Hash)} {g : List ℕ}
    (hp : Connected p g) {j : ℕ} {input : Input} {c c' : Call Hash} {w : World Hash}
    (hc : p.calls[j]? = some c) (h : Step p.world input c w c') :
    Connected ⟨w, p.calls.set j c'⟩ g where
  opened := hp.opened.call hc h
  authenticating k pc hd := by
    rcases Pool.mem_set_cases hd with rfl | hd
    · cases h with
      | authenticate => exact hp.authenticating k _ (List.mem_of_getElem? hc)
    · exact hp.authenticating k pc hd
  registered k hk := by
    rcases agentSocket_of_step h hk with hold | rfl
    · obtain ⟨hmem, hagent⟩ := hp.registered k hold
      exact ⟨hmem, ((registryStep_of_step h).kept k).agent hagent⟩
    · refine ⟨hp.authenticating k _ (List.mem_of_getElem? hc), ?_⟩
      cases h with
      | authenticate h =>
        cases h with
        | accept => rw [Authenticate.accept_sockets, if_pos rfl]

theorem Connected.step [Argon2 Hash] {s t : Pool (World Hash) (Call Hash) × List ℕ}
    {label : Pool.Label Event Input} (hp : Connected s.1 s.2)
    (h : annotated next connections s label = some t) : Connected t.1 t.2 := by
  obtain ⟨q, hq, rfl⟩ := annotated_eq_some.1 h
  cases Pool.next_iff.1 hq with
  | env he => exact hp.event (event_cases he)
  | call hc hs => exact hp.call hc (step_cases hs)

/-- The entry is no socket whose disconnect has been handled. -/
def Live (w : World Hash) : Prop := ∀ k, w.agentSocket = some k → (w.sockets k).readyState ≠ .closed

theorem live_of_event {p : Pool (World Hash) (Call Hash)} {g : List ℕ} (hp : Connected p g)
    (hlive : Live p.world) {e : Event} {w : World Hash} {cs : List (Call Hash)}
    (h : EventStep p.world e w cs) : Live w := by
  intro k hk hclosed
  have hold := agentSocket_of_event h hk
  obtain ⟨-, hagent⟩ := hp.registered k hold
  exact hlive k hold ((registered_of_event h hk (hp.opened.registered k hold) hagent).2 hclosed)

theorem live_of_step [Argon2 Hash] {w w' : World Hash} {g : List ℕ} (hlive : Live w) {c c' : Call Hash}
    {input : Input} (hturn : c.InTurn w g) (h : Step w input c w' c') : Live w' := by
  intro k hk hclosed
  have hold := ((registryStep_of_step h).kept k).closed hclosed
  rcases agentSocket_of_step h hk with hreg | rfl
  · exact hlive k hreg hold
  · exact (hturn k rfl).1 hold

theorem prefers_of_acceptsInTurn [Argon2 Hash] {s : Pool (World Hash) (Call Hash) × List ℕ}
    (hp : Connected s.1 s.2) (hlive : Live s.1.world) {label : Pool.Label Event Input}
    (hturn : AcceptsInTurn s label) : Prefers s label where
  live q k hq := by
    cases Pool.next_iff.1 hq with
    | env he => exact live_of_event hp hlive (event_cases he) k
    | call hc hs => exact live_of_step hlive (hturn _ hc) (step_cases hs) k
  newer q old hq hreg ho hsent := by
    obtain ⟨hmem, -⟩ := hp.registered old hreg
    cases Pool.next_iff.1 hq with
    | env he =>
      rw [sent_of_event (event_cases he) (hp.opened.registered old hreg)] at hsent
      exact absurd hsent (by simp)
    | @call i input c w c' hc hs =>
      obtain ⟨k, rfl, hne, -⟩ := (registryStep_of_step (step_cases hs)).replaced hsent
      exact ⟨i, input, k, rfl, hc, older_of_not_older hmem hne ((hturn _ hc k rfl).2 old hreg ho)⟩

theorem acceptsInTurn_of_prefers [Argon2 Hash] {s : Pool (World Hash) (Call Hash) × List ℕ}
    {label : Pool.Label Event Input} (h : Prefers s label) : AcceptsInTurn s label := by
  cases label with
  | env e => trivial
  | call i input =>
    intro c hc k hk
    obtain rfl := Call.accepts_eq_some.1 hk
    have hi : s.1.calls[i]? = some (.authenticate k (.verified true)) := hc
    -- The check has succeeded, so the step accepts the socket.
    have hnext : next s.1 (.call i input) = some ⟨(Authenticate.accept s.1.world k input).1,
        s.1.calls.set i (.authenticate k (Authenticate.accept s.1.world k input).2)⟩ :=
      Pool.next_iff.2 (.call hi rfl)
    constructor
    · have hopen := h.live _ k hnext rfl
      rwa [Authenticate.accept_sockets, if_pos rfl] at hopen
    · intro old hold ho holder
      have hne : old ≠ k := by
        rintro rfl
        exact lt_irrefl _ holder
      have hsent := Authenticate.accept_replaces hold hne ho input
      obtain ⟨i', input', k', he, hk', hnewer⟩ := h.newer _ old hnext hold ho hsent
      obtain ⟨rfl, -⟩ := Pool.Label.call.inj he
      obtain ⟨rfl, -⟩ := Call.authenticate.inj (Option.some.inj (hi.symm.trans hk'))
      exact lt_asymm holder hnewer

/-- However the calls interleave, from a moment at which nobody is connected: the entry is never a
socket whose disconnect has been handled, and a registered open socket is replaced by one that was
opened later only, if and only if each credential check succeeds in time and in its turn. -/
theorem registry_prefers_iff [Argon2 Hash] {w : World Hash} (hw : w.agentSocket = none)
    (es : List (Pool.Label Event Input)) :
    Along (annotated next connections) Prefers (⟨w, []⟩, []) es ↔
      Along (annotated next connections) AcceptsInTurn
        ((⟨w, []⟩, []) : Pool (World Hash) (Call Hash) × List ℕ) es := by
  refine ⟨Along.mono fun s label => acceptsInTurn_of_prefers, fun hturn => ?_⟩
  have hconnected : Connected (⟨w, []⟩ : Pool (World Hash) (Call Hash)) [] :=
    ⟨opened_of_agentSocket_eq_none hw, by simp, by simp [hw]⟩
  have hlive : Live w := by simp [Live, hw]
  refine along_of_invariant (I := fun s => Connected s.1 s.2 ∧ Live s.1.world) ?_ ?_
    ⟨hconnected, hlive⟩ hturn
  · intro s label t hs hturn h
    refine ⟨hs.1.step h, fun k hk => ?_⟩
    obtain ⟨q, hq, rfl⟩ := annotated_eq_some.1 h
    exact (prefers_of_acceptsInTurn hs.1 hs.2 hturn).live q k hq hk
  · exact fun s label hs hturn => prefers_of_acceptsInTurn hs.1 hs.2 hturn

/-- An agent that connects, and connects again before its first socket is gone. -/
def reconnected : List (Pool.Label Event Input) :=
  let go (i : ℕ) : Pool.Label Event Input := .call i ⟨0, 0, "", "", 0⟩
  [.env (.connect 0 (some "s1")), go 0, go 0, go 0, go 0, .env (.connect 1 (some "s1")),
    go 1, go 1, go 1, go 1, .env (.disconnect 0)]

theorem registry_prefers_reconnected :
    Along (annotated next connections) Prefers
      ((⟨enrolledWorld, []⟩, []) : Pool (World PlainHash) (Call PlainHash) × List ℕ) reconnected :=
  (registry_prefers_iff rfl reconnected).2 (by decide)

/-- A socket that is gone before its credential has been checked. -/
def lost : List (Pool.Label Event Input) :=
  let go (i : ℕ) : Pool.Label Event Input := .call i ⟨0, 0, "", "", 0⟩
  [.env (.connect 0 (some "s1")), go 0, go 0, .env (.disconnect 0), go 0]

/-- Two sockets of an agent, and the check of the first takes longer. -/
def overtaking : List (Pool.Label Event Input) :=
  let go (i : ℕ) : Pool.Label Event Input := .call i ⟨0, 0, "", "", 0⟩
  [.env (.connect 0 (some "s1")), .env (.connect 1 (some "s1")),
    go 0, go 0, go 1, go 1, go 1, go 1, go 0]

/-- The first check's success registers a socket that is gone, and the second one's closes the newer
socket as replaced by a newer one. -/
theorem registry_prefers_stale :
    ¬ Along (annotated next connections) Prefers
      ((⟨enrolledWorld, []⟩, []) : Pool (World PlainHash) (Call PlainHash) × List ℕ)
      (lost ++ [.call 0 ⟨0, 0, "", "", 0⟩]) ∧
    ¬ Along (annotated next connections) Prefers
      ((⟨enrolledWorld, []⟩, []) : Pool (World PlainHash) (Call PlainHash) × List ℕ)
      (overtaking ++ [.call 0 ⟨0, 0, "", "", 0⟩]) := by
  constructor
  · intro h
    have hlast := (along_cons_iff.1 ((along_append_iff.1 h).2 _ rfl)).1
    exact hlast.live _ 0 rfl rfl rfl
  · intro h
    have hlast := (along_cons_iff.1 ((along_append_iff.1 h).2 _ rfl)).1
    obtain ⟨i, input, k, he, hk, holder⟩ := hlast.newer _ 1 rfl rfl rfl rfl
    obtain ⟨rfl, -⟩ := Pool.Label.call.inj he
    obtain ⟨rfl, -⟩ := Call.authenticate.inj (Option.some.inj hk)
    exact absurd holder (by decide)

end Server

end Taymna.Api
