import Taymna.Api.HubSockets

/-!
# Who gets what from the gateway

Over any order of connections, verifications, pushes and disconnections: a socket is sent what is
about a machine only if it has presented a credential of that machine which was verified, and
broadcasts only if it has presented a token that was (`Admitted`, `OperatorOf`), and nothing at all
after it has been closed. At most one open socket is of a machine, the registered one.
-/

namespace Taymna.Api

open Automata

namespace Hub

variable {verify : List Char → Bool} {h h' : Hub} {machineId : List Char} {k k' : ℕ}

/-! ## The steps -/

/-- The steps of the hub, one constructor for each place in the code. -/
inductive Step (verify : List Char → Bool) (h : Hub) : Event → Hub → Prop
  | agent {i authorization token credential presented} : (h.sockets i).readyState = .connecting →
      route authorization token = .agent credential → splitCredential credential = some presented →
      Step verify h (.connect i authorization token)
        (h.onSocket i fun c =>
          { c with readyState := .opened, presented := some presented, awaiting := true })
  | operator {i authorization token jwt} : (h.sockets i).readyState = .connecting →
      route authorization token = .operator jwt → verify jwt = true →
      Step verify h (.connect i authorization token)
        ((h.onSocket i fun c => { c with readyState := .opened, operator := true }).registerOperator i)
  | turnedAway {i authorization token reason} : (h.sockets i).readyState = .connecting →
      Step verify h (.connect i authorization token)
        (h.onSocket i fun c => { c with readyState := .opened }.close 4001 reason)
  | admitted {i id secret} : (h.sockets i).awaiting = true →
      (h.sockets i).presented = some (id, secret) →
      Step verify h (.verified i true) (h.authenticated i id true)
  | refused {i id secret} : (h.sockets i).awaiting = true →
      (h.sockets i).presented = some (id, secret) →
      Step verify h (.verified i false) (h.authenticated i id false)
  | reply {i id message} : (h.sockets i).listening = some id →
      Step verify h (.reply i message) (h.onSocket i fun c => c.send (.toAgent id message))
  | sendToMachine {id message} :
      Step verify h (.sendToMachine id message) (h.sendToMachine id message)
  | broadcast {id message} : Step verify h (.broadcast id message) (h.broadcastToOperators id message)
  | disconnectMachine {id code reason} :
      Step verify h (.disconnectMachine id code reason) (h.disconnectMachine id code reason)
  | hangUp {i} : (h.sockets i).readyState = .opened →
      Step verify h (.hangUp i) (h.onSocket i fun c => { c with readyState := .closing })
  | disconnect {i} : (h.sockets i).readyState = .opened ∨ (h.sockets i).readyState = .closing →
      Step verify h (.disconnect i) (h.handleDisconnect i)

theorem step_cases {e : Event} (hs : step verify h e = some h') : Step verify h e h' := by
  cases e with
  | connect k authorization token =>
    simp only [step] at hs
    split at hs
    · rename_i hnew
      obtain rfl := Option.some.inj hs
      unfold handleConnection
      cases hroute : route authorization token with
      | agent credential =>
        cases hsplit : splitCredential credential with
        | none => simpa only [hsplit] using Step.turnedAway hnew
        | some presented => simpa only [hsplit] using Step.agent hnew hroute hsplit
      | operator jwt =>
        dsimp only
        split_ifs with hverify
        · exact .operator hnew hroute hverify
        · exact .turnedAway hnew
      | unauthorized => exact .turnedAway hnew
    · cases hs
  | verified k ok =>
    simp only [step] at hs
    split at hs
    · rename_i id secret hawaiting hpresented
      obtain rfl := Option.some.inj hs
      cases ok with
      | true => exact .admitted hawaiting hpresented
      | false => exact .refused hawaiting hpresented
    · cases hs
  | reply k message =>
    simp only [step] at hs
    split at hs
    · rename_i id hlistening
      obtain rfl := Option.some.inj hs
      exact .reply hlistening
    · cases hs
  | sendToMachine id message =>
    obtain rfl := Option.some.inj hs
    exact .sendToMachine
  | broadcast id message =>
    obtain rfl := Option.some.inj hs
    exact .broadcast
  | disconnectMachine id code reason =>
    obtain rfl := Option.some.inj hs
    exact .disconnectMachine
  | hangUp k =>
    simp only [step] at hs
    split at hs
    · rename_i hopen
      obtain rfl := Option.some.inj hs
      exact .hangUp hopen
    · cases hs
  | disconnect k =>
    simp only [step] at hs
    split at hs
    · rename_i hopen
      obtain rfl := Option.some.inj hs
      exact .disconnect (Or.inl hopen)
    · rename_i hclosing
      obtain rfl := Option.some.inj hs
      exact .disconnect (Or.inr hclosing)
    · cases hs

/-! ## Admission -/

/-- Among the events, a socket has presented a credential of the machine, and it was verified. -/
def Admitted (es : List Event) (k : ℕ) (machineId : List Char) : Prop :=
  (∃ secret token, .connect k (some (machineAuthPrefix ++ (machineId ++ '.' :: secret))) token ∈ es) ∧
    .verified k true ∈ es

/-- Among the events, a socket has presented a token which `jwt.verify` accepts. -/
def OperatorOf (verify : List Char → Bool) (es : List Event) (k : ℕ) : Prop :=
  ∃ authorization token jwt, .connect k authorization token ∈ es ∧
    route authorization token = .operator jwt ∧ verify jwt = true

/-- What the fields of a socket say about the events so far. -/
structure Vouched (verify : List Char → Bool) (es : List Event) (k : ℕ) (c : Connection) : Prop where
  fresh : c.readyState = .connecting → c = .unused
  presented : ∀ id secret, c.presented = some (id, secret) →
    ∃ token, .connect k (some (machineAuthPrefix ++ (id ++ '.' :: secret))) token ∈ es
  listening : ∀ id, c.listening = some id → .verified k true ∈ es ∧ ∃ secret, c.presented = some (id, secret)
  awaiting : c.awaiting = true → c.listening = none
  agentId : ∀ id, c.agentId = some id → c.listening = some id
  operator : c.operator = true → OperatorOf verify es k ∧ c.presented = none
  toAgent : ∀ id message, .toAgent id message ∈ c.sent → c.listening = some id
  toOperator : ∀ id message, .toOperator id message ∈ c.sent → c.operator = true
  closed : ∀ front code reason back, c.sent = front ++ .close code reason :: back →
    c.readyState ≠ .opened ∧ back = []

variable {es es' : List Event} {c : Connection}

theorem Admitted.mono (hsub : es ⊆ es') (ha : Admitted es k machineId) : Admitted es' k machineId := by
  obtain ⟨⟨secret, token, hconnect⟩, hverified⟩ := ha
  exact ⟨⟨secret, token, hsub hconnect⟩, hsub hverified⟩

theorem OperatorOf.mono (hsub : es ⊆ es') (ho : OperatorOf verify es k) : OperatorOf verify es' k := by
  obtain ⟨authorization, token, jwt, hconnect, hroute⟩ := ho
  exact ⟨authorization, token, jwt, hsub hconnect, hroute⟩

theorem vouched_unused (k : ℕ) : Vouched verify es k .unused where
  fresh _ := rfl
  presented := fun _ _ h => by cases h
  listening := fun _ h => by cases h
  awaiting _ := rfl
  agentId := fun _ h => by cases h
  operator := fun h => by cases h
  toAgent := fun _ _ h => by cases h
  toOperator := fun _ _ h => by cases h
  closed := fun _ _ _ _ h => by simp [Connection.unused] at h

theorem Vouched.mono (hv : Vouched verify es k c) (hsub : es ⊆ es') : Vouched verify es' k c where
  fresh := hv.fresh
  presented := fun id secret h => (hv.presented id secret h).imp fun _ h => hsub h
  listening := fun id h => (hv.listening id h).imp_left fun h => hsub h
  awaiting := hv.awaiting
  agentId := hv.agentId
  operator := fun h => (hv.operator h).imp_left fun h => h.mono hsub
  toAgent := hv.toAgent
  toOperator := hv.toOperator
  closed := hv.closed

/-- An element of a list to which one has been added is the new one, or has been there before. -/
theorem append_singleton_eq_append_cons {α : Type*} {l front back : List α} {a b : α}
    (heq : l ++ [a] = front ++ b :: back) : a = b ∧ back = [] ∨ ∃ mid, l = front ++ b :: mid := by
  rcases List.eq_nil_or_concat back with rfl | ⟨mid, x, rfl⟩
  · exact Or.inl ⟨List.singleton_inj.1 (List.append_inj_right' heq rfl), rfl⟩
  · rw [List.concat_eq_append, ← List.cons_append, ← List.append_assoc] at heq
    exact Or.inr ⟨mid, List.append_inj_left' heq rfl⟩

/-- A frame that its socket may be sent. -/
def Fits (c : Connection) : HubFrame → Prop
  | .toAgent id _ => c.listening = some id
  | .toOperator _ _ => c.operator = true
  | .close _ _ => False

theorem Vouched.send (hv : Vouched verify es k c) {frame : HubFrame} (hfits : Fits c frame) :
    Vouched verify es k (c.send frame) where
  fresh := by
    intro hnew
    rw [Connection.send_readyState] at hnew
    unfold Connection.send
    rw [if_neg (by rw [hnew]; decide)]
    exact hv.fresh hnew
  presented := by simpa using hv.presented
  listening := by simpa using hv.listening
  awaiting := by simpa using hv.awaiting
  agentId := by simpa using hv.agentId
  operator := by simpa using hv.operator
  toAgent := by
    intro id message hmem
    rw [Connection.send_listening]
    rcases Connection.mem_send hmem with h | ⟨rfl, -⟩
    · exact hv.toAgent id message h
    · exact hfits
  toOperator := by
    intro id message hmem
    rw [Connection.send_operator]
    rcases Connection.mem_send hmem with h | ⟨rfl, -⟩
    · exact hv.toOperator id message h
    · exact hfits
  closed := by
    intro front code reason back hsent
    unfold Connection.send at hsent ⊢
    split_ifs at hsent ⊢ with hopen
    · rcases append_singleton_eq_append_cons hsent with ⟨rfl, -⟩ | ⟨mid, hmid⟩
      · exact absurd hfits id
      · exact absurd hopen (hv.closed front code reason mid hmid).1
    · exact hv.closed front code reason back hsent

theorem Vouched.close (hv : Vouched verify es k c) (code : ℕ) (reason : String) :
    Vouched verify es k (c.close code reason) where
  fresh := by
    intro hnew
    rw [Connection.close_readyState_connecting_iff] at hnew
    unfold Connection.close
    rw [if_neg (by rw [hnew]; decide)]
    exact hv.fresh hnew
  presented := by simpa using hv.presented
  listening := by simpa using hv.listening
  awaiting := by simpa using hv.awaiting
  agentId := by simpa using hv.agentId
  operator := by simpa using hv.operator
  toAgent := by
    intro id message hmem
    rw [Connection.close_listening]
    rcases Connection.mem_close hmem with h | h
    · exact hv.toAgent id message h
    · cases h
  toOperator := by
    intro id message hmem
    rw [Connection.close_operator]
    rcases Connection.mem_close hmem with h | h
    · exact hv.toOperator id message h
    · cases h
  closed := by
    intro front code' reason' back hsent
    refine ⟨Connection.close_readyState_ne c code reason, ?_⟩
    unfold Connection.close at hsent
    split_ifs at hsent with hopen
    · rcases append_singleton_eq_append_cons hsent with ⟨-, hback⟩ | ⟨mid, hmid⟩
      · exact hback
      · exact absurd hopen (hv.closed front code' reason' mid hmid).1
    · exact (hv.closed front code' reason' back hsent).2

/-- The other side closes, or the socket is gone. -/
theorem Vouched.shut (hv : Vouched verify es k c) {state : ReadyState} (hne : state ≠ .connecting)
    (hopen : state ≠ .opened) : Vouched verify es k { c with readyState := state } where
  fresh := fun h => absurd h hne
  presented := hv.presented
  listening := hv.listening
  awaiting := hv.awaiting
  agentId := hv.agentId
  operator := hv.operator
  toAgent := hv.toAgent
  toOperator := hv.toOperator
  closed := fun front code reason back h => ⟨hopen, (hv.closed front code reason back h).2⟩

theorem Vouched.forget (hv : Vouched verify es k c) (hused : c.readyState ≠ .connecting) :
    Vouched verify es k { c with agentId := none } where
  fresh := fun h => absurd h hused
  presented := hv.presented
  listening := hv.listening
  awaiting := hv.awaiting
  agentId := fun _ h => by cases h
  operator := hv.operator
  toAgent := hv.toAgent
  toOperator := hv.toOperator
  closed := hv.closed

/-- A socket whose credential is being verified is in use. -/
theorem Vouched.used (hv : Vouched verify es k c) (hawaiting : c.awaiting = true) :
    c.readyState ≠ .connecting := by
  intro hnew
  rw [hv.fresh hnew] at hawaiting
  cases hawaiting

/-- The credential has been verified. -/
theorem Vouched.authenticated (hv : Vouched verify es k c) (hawaiting : c.awaiting = true) {secret : List Char}
    (hpresented : c.presented = some (machineId, secret)) (hverified : .verified k true ∈ es) :
    Vouched verify es k
      { c with awaiting := false, agentId := some machineId, listening := some machineId } where
  fresh hnew := absurd hnew (hv.used hawaiting)
  presented := hv.presented
  listening id h := by
    obtain rfl := Option.some.inj h
    exact ⟨hverified, secret, hpresented⟩
  awaiting h := by cases h
  agentId _ h := h
  operator h := by
    have hnone := (hv.operator h).2
    rw [hpresented] at hnone
    cases hnone
  toAgent id message h := by
    have hlistening := hv.toAgent id message h
    rw [hv.awaiting hawaiting] at hlistening
    cases hlistening
  toOperator := hv.toOperator
  closed := hv.closed

/-! ## The invariant -/

/-- The registry has the sockets that the machines were admitted on last, as long as they are open,
and each socket is vouched for by the events so far. -/
structure Coherent (verify : List Char → Bool) (es : List Event) (h : Hub) : Prop where
  registry : ∀ id k, h.agentSockets id = some k → (h.sockets k).listening = some id
  /-- Of the sockets that a machine has been admitted on, only the registered one is open. -/
  current : ∀ id k, (h.sockets k).listening = some id → (h.sockets k).readyState = .opened →
    h.agentSockets id = some k
  operators : ∀ k ∈ h.operatorSockets, (h.sockets k).operator = true
  nodup : h.operatorSockets.Nodup
  sockets : ∀ k, Vouched verify es k (h.sockets k)

theorem coherent_empty (verify : List Char → Bool) : Coherent verify [] empty where
  registry := fun _ _ h => by cases h
  current := fun _ _ h => by cases h
  operators := fun _ h => by cases h
  nodup := List.nodup_nil
  sockets := vouched_unused

theorem Coherent.mono (hi : Coherent verify es h) (hsub : es ⊆ es') : Coherent verify es' h where
  registry := hi.registry
  current := hi.current
  operators := hi.operators
  nodup := hi.nodup
  sockets k := (hi.sockets k).mono hsub

/-- What the registry relies on, of a socket that changes. -/
structure Keeps (c c' : Connection) : Prop where
  listening : c'.listening = c.listening
  operator : c.operator = true → c'.operator = true
  opened : c'.readyState = .opened → c.readyState = .opened ∨ c.listening = none

theorem Keeps.refl (c : Connection) : Keeps c c := ⟨rfl, id, Or.inl⟩

theorem keeps_send (c : Connection) (frame : HubFrame) : Keeps c (c.send frame) where
  listening := c.send_listening frame
  operator h := by rwa [Connection.send_operator]
  opened h := Or.inl (by rwa [Connection.send_readyState] at h)

theorem keeps_close (c : Connection) (code : ℕ) (reason : String) : Keeps c (c.close code reason) where
  listening := c.close_listening code reason
  operator h := by rwa [Connection.close_operator]
  opened h := absurd h (c.close_readyState_ne code reason)

theorem keeps_shut (c : Connection) {state : ReadyState} (hne : state ≠ .opened) :
    Keeps c { c with readyState := state } := ⟨rfl, id, fun h => absurd h hne⟩

theorem keeps_turnAway (c : Connection) (code : ℕ) (reason : String) :
    Keeps c ({ c with readyState := .opened }.close code reason) where
  listening := Connection.close_listening _ code reason
  operator h := by rwa [Connection.close_operator]
  opened h := absurd h (Connection.close_readyState_ne _ code reason)

/-- A change of the sockets alone. -/
theorem Coherent.resocket (hi : Coherent verify es h) {sockets : ℕ → Connection}
    (hkeeps : ∀ k, Keeps (h.sockets k) (sockets k)) (hv : ∀ k, Vouched verify es k (sockets k)) :
    Coherent verify es { h with sockets := sockets } where
  registry id k hk := (hkeeps k).listening.trans (hi.registry id k hk)
  current := by
    intro id k hid hopen
    have hlistening : (h.sockets k).listening = some id := (hkeeps k).listening.symm.trans hid
    rcases (hkeeps k).opened hopen with hopen | hnone
    · exact hi.current id k hlistening hopen
    · rw [hnone] at hlistening
      cases hlistening
  operators k hk := (hkeeps k).operator (hi.operators k hk)
  nodup := hi.nodup
  sockets := hv

theorem Coherent.onSocket (hi : Coherent verify es h) {f : Connection → Connection}
    (hkeeps : Keeps (h.sockets k) (f (h.sockets k))) (hv : Vouched verify es k (f (h.sockets k))) :
    Coherent verify es (h.onSocket k f) := by
  have hsockets : ∀ (P : ℕ → Connection → Prop), P k (f (h.sockets k)) →
      (∀ k', P k' (h.sockets k')) → ∀ k', P k' (Function.update h.sockets k (f (h.sockets k)) k') := by
    intro P hk hother k'
    by_cases hkk : k' = k
    · subst hkk
      rwa [Function.update_self]
    · rw [Function.update_of_ne hkk]
      exact hother k'
  exact hi.resocket (hsockets (fun k' c => Keeps (h.sockets k') c) hkeeps fun _ => .refl _)
    (hsockets (Vouched verify es) hv hi.sockets)

/-- The entry of a machine is removed when its socket is not open any more. -/
theorem Coherent.drop (hi : Coherent verify es h) (hk : h.agentSockets machineId = some k)
    (hshut : (h.sockets k).readyState ≠ .opened) :
    Coherent verify es { h with agentSockets := Function.update h.agentSockets machineId none } where
  registry := by
    intro id k' hk'
    change Function.update h.agentSockets machineId none id = some k' at hk'
    by_cases hid : id = machineId
    · subst hid
      rw [Function.update_self] at hk'
      cases hk'
    · rw [Function.update_of_ne hid] at hk'
      exact hi.registry id k' hk'
  current := by
    intro id k' hid hopen
    change Function.update h.agentSockets machineId none id = some k'
    have hcurrent := hi.current id k' hid hopen
    by_cases hsame : id = machineId
    · subst hsame
      obtain rfl := Option.some.inj (hk.symm.trans hcurrent)
      exact absurd hopen hshut
    · rwa [Function.update_of_ne hsame]
  operators := hi.operators
  nodup := hi.nodup
  sockets := hi.sockets

theorem Coherent.fresh (hi : Coherent verify es h) (hnew : (h.sockets k).readyState = .connecting) :
    h.sockets k = .unused := (hi.sockets k).fresh hnew

theorem vouched_opened (k : ℕ) : Vouched verify es k { Connection.unused with readyState := .opened } where
  fresh := fun h => by cases h
  presented := fun _ _ h => by cases h
  listening := fun _ h => by cases h
  awaiting _ := rfl
  agentId := fun _ h => by cases h
  operator := fun h => by cases h
  toAgent := fun _ _ h => by cases h
  toOperator := fun _ _ h => by cases h
  closed := fun _ _ _ _ h => by simp [Connection.unused] at h

/-- A header that is taken for a credential is the prefix and the credential. -/
theorem authorization_of_route {authorization token : Option (List Char)} {credential : List Char}
    (hroute : route authorization token = .agent credential) :
    authorization = some (machineAuthPrefix ++ credential) := by
  unfold route at hroute
  split at hroute
  · rename_i rest hprefix
    obtain rfl := Route.agent.inj hroute
    obtain ⟨header, hheader, hdrop⟩ := Option.bind_eq_some_iff.1 hprefix
    obtain ⟨p, rfl, hp⟩ := List.dropPrefix?_eq_some_iff.1 hdrop
    rw [beq_iff_eq] at hp
    rw [hheader, hp]
  · split at hroute <;> cases hroute

theorem authenticated_sockets (h : Hub) (k : ℕ) (machineId : List Char) (k' : ℕ) :
    (h.authenticated k machineId true).sockets k' =
      if k' = k then { h.sockets k with
        awaiting := false, agentId := some machineId, listening := some machineId }
      else if h.agentSockets machineId = some k' then
        (h.sockets k').close 4000 "Replaced by newer connection"
      else h.sockets k' := by
  unfold authenticated
  simp only [if_true, onSocket_sockets, registerAgent_sockets, onSocket_agentSockets]
  by_cases hk : k' = k
  · subst hk
    simp
  · simp [hk]

theorem authenticated_agentSockets (h : Hub) (k : ℕ) (machineId : List Char) :
    (h.authenticated k machineId true).agentSockets =
      Function.update h.agentSockets machineId (some k) := by
  unfold authenticated
  simp only [if_true, onSocket_agentSockets, registerAgent_agentSockets]

theorem Coherent.authenticated (hi : Coherent verify es h) {secret : List Char}
    (hawaiting : (h.sockets k).awaiting = true)
    (hpresented : (h.sockets k).presented = some (machineId, secret)) :
    Coherent verify (es ++ [.verified k true]) (h.authenticated k machineId true) := by
  have hv := hi.sockets k
  have hnone : (h.sockets k).listening = none := hv.awaiting hawaiting
  have hsub : es ⊆ es ++ [Event.verified k true] := List.subset_append_left _ _
  refine ⟨?_, ?_, ?_, ?_, ?_⟩
  · intro id k' hk'
    rw [authenticated_agentSockets] at hk'
    rw [authenticated_sockets]
    by_cases hid : id = machineId
    · subst hid
      rw [Function.update_self] at hk'
      obtain rfl := Option.some.inj hk'
      rw [if_pos rfl]
    · rw [Function.update_of_ne hid] at hk'
      have hlistening := hi.registry id k' hk'
      by_cases hkk : k' = k
      · subst hkk
        rw [hnone] at hlistening
        cases hlistening
      · rw [if_neg hkk]
        split_ifs <;> simpa using hlistening
  · intro id k' hid hopen
    rw [authenticated_agentSockets]
    rw [authenticated_sockets] at hid hopen
    split_ifs at hid hopen with hkk hreplaced
    · subst hkk
      obtain rfl := Option.some.inj hid
      rw [Function.update_self]
    · exact absurd hopen (Connection.close_readyState_ne _ _ _)
    · have hcurrent := hi.current id k' hid hopen
      have hne : id ≠ machineId := by
        rintro rfl
        exact hreplaced hcurrent
      rwa [Function.update_of_ne hne]
  · intro k' hk'
    have hoperator : (h.sockets k').operator = true := by
      refine hi.operators k' ?_
      simpa [Hub.authenticated] using hk'
    rw [authenticated_sockets]
    split_ifs with hkk
    · subst hkk
      exact hoperator
    · simpa using hoperator
    · exact hoperator
  · have hsame : (h.authenticated k machineId true).operatorSockets = h.operatorSockets := by
      simp [Hub.authenticated]
    rw [hsame]
    exact hi.nodup
  · intro k'
    rw [authenticated_sockets]
    split_ifs with hkk
    · subst hkk
      exact (hv.mono hsub).authenticated hawaiting hpresented (by simp)
    · exact ((hi.sockets k').mono hsub).close _ _
    · exact (hi.sockets k').mono hsub

/-- An agent's credential is to be verified. -/
theorem Coherent.presents (hi : Coherent verify es h) (hnew : (h.sockets k).readyState = .connecting)
    {secret : List Char} {token : Option (List Char)}
    (hconnect : .connect k (some (machineAuthPrefix ++ (machineId ++ '.' :: secret))) token ∈ es) :
    Coherent verify es (h.onSocket k fun c =>
      { c with readyState := .opened, presented := some (machineId, secret), awaiting := true }) := by
  have hfresh := hi.fresh hnew
  refine hi.onSocket ⟨rfl, fun h => h, fun _ => Or.inr (by rw [hfresh]; rfl)⟩ ?_
  rw [hfresh]
  exact
    { fresh := fun h => by cases h
      presented := fun id' secret' h => by
        obtain ⟨rfl, rfl⟩ := Prod.mk.inj (Option.some.inj h)
        exact ⟨token, hconnect⟩
      listening := fun _ h => by cases h
      awaiting := fun _ => rfl
      agentId := fun _ h => by cases h
      operator := fun h => by cases h
      toAgent := fun _ _ h => by cases h
      toOperator := fun _ _ h => by cases h
      closed := fun _ _ _ _ h => by simp [Connection.unused] at h }

theorem Coherent.registerOperator (hi : Coherent verify es h)
    (hnew : (h.sockets k).readyState = .connecting) (hoperator : OperatorOf verify es k) :
    Coherent verify es ((h.onSocket k fun c =>
      { c with readyState := .opened, operator := true }).registerOperator k) := by
  have hfresh := hi.fresh hnew
  have hopened : Coherent verify es
      (h.onSocket k fun c => { c with readyState := .opened, operator := true }) := by
    refine hi.onSocket ⟨rfl, fun _ => rfl, fun _ => Or.inr (by rw [hfresh]; rfl)⟩ ?_
    rw [hfresh]
    exact
      { fresh := fun h => by cases h
        presented := fun _ _ h => by cases h
        listening := fun _ h => by cases h
        awaiting := fun _ => rfl
        agentId := fun _ h => by cases h
        operator := fun _ => ⟨hoperator, rfl⟩
        toAgent := fun _ _ h => by cases h
        toOperator := fun _ _ h => by cases h
        closed := fun _ _ _ _ h => by simp [Connection.unused] at h }
  obtain ⟨hagents, hsockets, -⟩ := registerOperator_fields
    (h.onSocket k fun c => { c with readyState := .opened, operator := true }) k
  refine ⟨?_, ?_, ?_, nodup_registerOperator hopened.nodup, ?_⟩
  · rw [hagents, hsockets]
    exact hopened.registry
  · rw [hagents, hsockets]
    exact hopened.current
  · intro k' hk'
    rw [hsockets]
    rcases mem_registerOperator_iff.1 hk' with hk' | rfl
    · exact hopened.operators k' hk'
    · simp [onSocket_sockets]
  · rw [hsockets]
    exact hopened.sockets

theorem Coherent.refused (hi : Coherent verify es h) (hawaiting : (h.sockets k).awaiting = true)
    (machineId : List Char) : Coherent verify es (h.authenticated k machineId false) := by
  have hv := hi.sockets k
  have hasked : Coherent verify es (h.onSocket k fun c => { c with awaiting := false }) :=
    hi.onSocket ⟨rfl, fun h => h, Or.inl⟩
      { fresh := fun hnew => absurd hnew (hv.used hawaiting)
        presented := hv.presented
        listening := hv.listening
        awaiting := fun h => by cases h
        agentId := hv.agentId
        operator := hv.operator
        toAgent := hv.toAgent
        toOperator := hv.toOperator
        closed := hv.closed }
  have hclosed : Coherent verify es ((h.onSocket k fun c =>
      { c with awaiting := false }).onSocket k fun c => c.close 4001 "Invalid machine credential") :=
    hasked.onSocket (keeps_close _ _ _) ((hasked.sockets k).close _ _)
  exact hclosed

theorem Coherent.sendToMachine (hi : Coherent verify es h) (machineId : List Char)
    (message : ServerToAgentMessage) : Coherent verify es (h.sendToMachine machineId message) := by
  unfold Hub.sendToMachine
  split
  · rename_i k hk
    exact hi.onSocket (keeps_send _ _) ((hi.sockets k).send (hi.registry machineId k hk))
  · exact hi

theorem Coherent.broadcastToOperators (hi : Coherent verify es h) (machineId : List Char)
    (message : ServerToOperatorMessage) :
    Coherent verify es (h.broadcastToOperators machineId message) := by
  obtain ⟨hagents, hoperators, -⟩ := broadcastToOperators_fields h machineId message
  have hsockets := broadcastToOperators_sockets h hi.nodup machineId message
  refine ⟨?_, ?_, ?_, ?_, ?_⟩
  · intro id k hk
    rw [hagents] at hk
    rw [hsockets]
    split_ifs <;> simpa using hi.registry id k hk
  · intro id k hid hopen
    rw [hagents]
    rw [hsockets] at hid hopen
    apply hi.current id k
    · split_ifs at hid <;> simpa using hid
    · split_ifs at hopen <;> simpa using hopen
  · intro k hk
    rw [hoperators] at hk
    rw [hsockets]
    rw [if_pos hk, Connection.send_operator]
    exact hi.operators k hk
  · rw [hoperators]
    exact hi.nodup
  · intro k
    rw [hsockets]
    split_ifs with hk
    · exact (hi.sockets k).send (hi.operators k hk)
    · exact hi.sockets k

theorem Coherent.disconnectMachine (hi : Coherent verify es h) (machineId : List Char) (code : ℕ)
    (reason : String) : Coherent verify es (h.disconnectMachine machineId code reason) := by
  unfold Hub.disconnectMachine
  split
  · rename_i k hk
    have hclosed : Coherent verify es (h.onSocket k fun c => c.close code reason) :=
      hi.onSocket (keeps_close _ _ _) ((hi.sockets k).close code reason)
    refine hclosed.drop hk ?_
    rw [onSocket_sockets, if_pos rfl]
    exact Connection.close_readyState_ne _ _ _
  · exact hi

/-- The socket of a machine is forgotten with it; that of an operator leaves the list. -/
theorem Coherent.handleDisconnect (hi : Coherent verify es h) (k : ℕ) :
    Coherent verify es (h.handleDisconnect k) := by
  have hgone : Coherent verify es (h.onSocket k fun c => { c with readyState := .closed }) :=
    hi.onSocket (keeps_shut _ (by simp)) ((hi.sockets k).shut (by simp) (by simp))
  unfold Hub.handleDisconnect
  dsimp only
  split
  · rename_i id hid
    have hunregistered : Coherent verify es
        ((h.onSocket k fun c => { c with readyState := .closed }).unregisterAgent id k) := by
      unfold unregisterAgent
      split_ifs with hk
      · exact hgone.drop hk (by simp [onSocket_sockets])
      · exact hgone
    refine hunregistered.onSocket ⟨rfl, fun h => h, Or.inl⟩ ((hunregistered.sockets k).forget ?_)
    unfold unregisterAgent
    split_ifs <;> simp [onSocket_sockets]
  · exact
      { registry := hgone.registry
        current := hgone.current
        operators := fun k hk => hgone.operators k (List.mem_filter.1 hk).1
        nodup := hgone.nodup.filter _
        sockets := hgone.sockets }

/-- Every step keeps the invariant, and adds its event to the history. -/
theorem Coherent.step (hi : Coherent verify es h) {e : Event} (hs : step verify h e = some h') :
    Coherent verify (es ++ [e]) h' := by
  have hmem : e ∈ es ++ [e] := by simp
  have hi' := hi.mono (List.subset_append_left es [e])
  cases step_cases hs with
  | @agent i authorization token credential presented hnew hroute hsplit =>
    obtain ⟨id, secret⟩ := presented
    obtain ⟨rfl, -⟩ := splitCredential_eq_some_iff.1 hsplit
    obtain rfl := authorization_of_route hroute
    exact hi'.presents hnew hmem
  | @operator i authorization token jwt hnew hroute hverify =>
    exact hi'.registerOperator hnew ⟨authorization, token, jwt, hmem, hroute, hverify⟩
  | @turnedAway i authorization token reason hnew =>
    refine hi'.onSocket (keeps_turnAway _ _ _) ?_
    rw [hi.fresh hnew]
    exact (vouched_opened i).close 4001 reason
  | admitted hawaiting hpresented => exact hi.authenticated hawaiting hpresented
  | @refused i id secret hawaiting hpresented => exact hi'.refused hawaiting id
  | @reply i id message hlistening =>
    exact hi'.onSocket (keeps_send _ _) ((hi'.sockets i).send hlistening)
  | @sendToMachine id message => exact hi'.sendToMachine id message
  | @broadcast id message => exact hi'.broadcastToOperators id message
  | @disconnectMachine id code reason => exact hi'.disconnectMachine id code reason
  | @hangUp i hopen =>
    exact hi'.onSocket (keeps_shut _ (by simp)) ((hi'.sockets i).shut (by simp) (by simp))
  | @disconnect i hopen => exact hi'.handleDisconnect i

theorem coherent_run (hrun : run (step verify) empty es = some h) : Coherent verify es h :=
  run_history_invariant (I := Coherent verify) (coherent_empty verify)
    (fun _ _ _ _ hi hs => hi.step hs) hrun

/-- Whatever the order of events, a socket is sent what is about a machine only if it has presented a
credential of that machine which was verified, and a broadcast only if it has presented a token which
was; no socket is sent both, or what is about two machines, and nothing follows a close. -/
theorem frames_vouched (hrun : run (step verify) empty es = some h) (k : ℕ) :
    (∀ id message, .toAgent id message ∈ (h.sockets k).sent → Admitted es k id) ∧
      (∀ id message, .toOperator id message ∈ (h.sockets k).sent → OperatorOf verify es k) ∧
      (∀ id message id' message', .toAgent id message ∈ (h.sockets k).sent →
        .toAgent id' message' ∈ (h.sockets k).sent → id = id') ∧
      (∀ id message id' message', .toAgent id message ∈ (h.sockets k).sent →
        .toOperator id' message' ∉ (h.sockets k).sent) ∧
      ∀ front code reason back, (h.sockets k).sent = front ++ .close code reason :: back → back = [] := by
  have hv := (coherent_run hrun).sockets k
  refine ⟨?_, ?_, ?_, ?_, fun front code reason back h => (hv.closed front code reason back h).2⟩
  · intro id message hmem
    obtain ⟨hverified, secret, hpresented⟩ := hv.listening id (hv.toAgent id message hmem)
    obtain ⟨token, hconnect⟩ := hv.presented id secret hpresented
    exact ⟨⟨secret, token, hconnect⟩, hverified⟩
  · exact fun id message hmem => (hv.operator (hv.toOperator id message hmem)).1
  · intro id message id' message' hmem hmem'
    exact Option.some.inj ((hv.toAgent id message hmem).symm.trans (hv.toAgent id' message' hmem'))
  · intro id message id' message' hmem hmem'
    obtain ⟨-, secret, hpresented⟩ := hv.listening id (hv.toAgent id message hmem)
    rw [(hv.operator (hv.toOperator id' message' hmem')).2] at hpresented
    cases hpresented

theorem frames_vouched_desk :
    let es : List Event := [.connect 0 (some "Machine a.s".toList) none, .verified 0 true,
      .sendToMachine "a".toList (.heartbeatAck 5)]
    Admitted es 0 "a".toList := by
  intro es
  have hrun : run (step fun _ => false) empty es =
      some ((run (step fun _ => false) empty es).get (by decide)) :=
    (Option.some_get _).symm
  exact (frames_vouched hrun 0).1 "a".toList (.heartbeatAck 5) (by decide)

/-! ## One socket for each machine -/

/-- The machine has been admitted on the socket, which is open. -/
def Online (h : Hub) (k : ℕ) (machineId : List Char) : Prop :=
  (h.sockets k).listening = some machineId ∧ (h.sockets k).readyState = .opened

instance : Decidable (Online h k machineId) := inferInstanceAs (Decidable (_ ∧ _))

theorem Coherent.registered_iff (hi : Coherent verify es h) :
    h.agentSockets machineId = some k ∧ (h.sockets k).readyState = .opened ↔ Online h k machineId :=
  ⟨fun hk => ⟨hi.registry machineId k hk.1, hk.2⟩, fun ho => ⟨hi.current machineId k ho.1 ho.2, ho.2⟩⟩

theorem Coherent.online_unique (hi : Coherent verify es h) (ho : Online h k machineId)
    (ho' : Online h k' machineId) : k = k' := by
  have hk := (hi.registered_iff.2 ho).1
  rw [(hi.registered_iff.2 ho').1] at hk
  exact (Option.some.inj hk).symm

theorem Coherent.sendToMachine_sent (hi : Coherent verify es h) (message : ServerToAgentMessage) :
    ((h.sendToMachine machineId message).sockets k).sent = (h.sockets k).sent ++
      if Online h k machineId then [.toAgent machineId message] else [] := by
  rw [sendToMachine_sockets]
  by_cases hk : h.agentSockets machineId = some k
  · rw [if_pos hk]
    unfold Connection.send
    by_cases hopen : (h.sockets k).readyState = .opened
    · rw [if_pos hopen, if_pos (hi.registered_iff.1 ⟨hk, hopen⟩)]
    · rw [if_neg hopen, if_neg fun ho => hopen ho.2, List.append_nil]
  · rw [if_neg hk, if_neg fun ho => hk (hi.registered_iff.2 ho).1, List.append_nil]

theorem Coherent.disconnectMachine_offline (hi : Coherent verify es h) (code : ℕ) (reason : String) :
    ¬Online (h.disconnectMachine machineId code reason) k machineId := by
  rintro ⟨hlistening, hopen⟩
  rw [disconnectMachine_sockets] at hlistening hopen
  split_ifs at hlistening hopen with hk
  · exact Connection.close_readyState_ne _ _ _ hopen
  · exact hk (hi.registered_iff.2 ⟨hlistening, hopen⟩).1

theorem Keeps.trans {c c' c'' : Connection} (hc : Keeps c c') (hc' : Keeps c' c'') : Keeps c c'' where
  listening := hc'.listening.trans hc.listening
  operator h := hc'.operator (hc.operator h)
  opened h := by
    rcases hc'.opened h with hopen | hnone
    · exact hc.opened hopen
    · exact Or.inr (hc.listening ▸ hnone)

theorem keeps_onSocket {f : Connection → Connection} (hf : Keeps (h.sockets k) (f (h.sockets k)))
    (k' : ℕ) : Keeps (h.sockets k') ((h.onSocket k f).sockets k') := by
  rw [onSocket_sockets]
  split_ifs with hk
  · subst hk
    exact hf
  · exact .refl _

theorem handleDisconnect_sockets (h : Hub) (k k' : ℕ) :
    (h.handleDisconnect k).sockets k' =
      if k' = k then { h.sockets k with readyState := .closed, agentId := none } else h.sockets k' := by
  have hclosed := onSocket_sockets h k k' fun c => { c with readyState := .closed }
  unfold handleDisconnect
  dsimp only
  split
  · rename_i id hid
    have hsame : ((h.onSocket k fun c => { c with readyState := .closed }).unregisterAgent id k).sockets =
        (h.onSocket k fun c => { c with readyState := .closed }).sockets := by
      unfold unregisterAgent
      split_ifs <;> rfl
    rw [onSocket_sockets, hsame, hclosed, onSocket_sockets, if_pos rfl]
    split_ifs <;> rfl
  · rename_i hnone
    refine hclosed.trans ?_
    rw [onSocket_sockets, if_pos rfl] at hnone
    split_ifs
    · rw [← hnone]
    · rfl

theorem mem_handleDisconnect (hne : k' ≠ k) (hk' : k' ∈ h.operatorSockets) :
    k' ∈ (h.handleDisconnect k).operatorSockets := by
  unfold handleDisconnect
  dsimp only
  split
  · unfold unregisterAgent
    split_ifs <;> exact hk'
  · exact List.mem_filter.2 ⟨hk', decide_eq_true hne⟩

/-- A step keeps what the registry relies on, unless it admits a machine on the socket. -/
theorem Coherent.keeps_step (hi : Coherent verify es h) {e : Event}
    (hs : Hub.step verify h e = some h') (k : ℕ) :
    Keeps (h.sockets k) (h'.sockets k) ∨ e = .verified k true := by
  cases step_cases hs with
  | agent hnew =>
    refine Or.inl (keeps_onSocket ⟨rfl, fun h => h, fun _ => Or.inr ?_⟩ k)
    rw [hi.fresh hnew]
    rfl
  | @operator i _ _ _ hnew =>
    rw [(registerOperator_fields _ i).2.1]
    refine Or.inl (keeps_onSocket ⟨rfl, fun _ => rfl, fun _ => Or.inr ?_⟩ k)
    rw [hi.fresh hnew]
    rfl
  | turnedAway =>
    exact Or.inl (keeps_onSocket (keeps_turnAway _ _ _) k)
  | admitted =>
    rw [authenticated_sockets]
    split_ifs with hk
    · exact Or.inr (hk ▸ rfl)
    · exact Or.inl (keeps_close _ _ _)
    · exact Or.inl (.refl _)
  | @refused i =>
    have hasked : Keeps (h.sockets k)
        ((h.onSocket i fun c => { c with awaiting := false }).sockets k) :=
      keeps_onSocket ⟨rfl, fun h => h, Or.inl⟩ k
    exact Or.inl (hasked.trans (keeps_onSocket (keeps_close _ _ _) k))
  | reply => exact Or.inl (keeps_onSocket (keeps_send _ _) k)
  | sendToMachine =>
    rw [sendToMachine_sockets]
    split_ifs
    · exact Or.inl (keeps_send _ _)
    · exact Or.inl (.refl _)
  | broadcast =>
    rw [broadcastToOperators_sockets h hi.nodup]
    split_ifs
    · exact Or.inl (keeps_send _ _)
    · exact Or.inl (.refl _)
  | disconnectMachine =>
    rw [disconnectMachine_sockets]
    split_ifs
    · exact Or.inl (keeps_close _ _ _)
    · exact Or.inl (.refl _)
  | hangUp => exact Or.inl (keeps_onSocket (keeps_shut _ (by simp)) k)
  | disconnect =>
    rw [handleDisconnect_sockets]
    split_ifs with hk
    · subst hk
      exact Or.inl ⟨rfl, fun h => h, fun h => by cases h⟩
    · exact Or.inl (.refl _)

/-- A machine comes online only by being verified. -/
theorem Coherent.online_step (hi : Coherent verify es h) {e : Event} (hs : Hub.step verify h e = some h')
    (ho : Online h' k machineId) : Online h k machineId ∨ e = .verified k true := by
  rcases hi.keeps_step hs k with hkeeps | he
  · have hlistening : (h.sockets k).listening = some machineId := hkeeps.listening ▸ ho.1
    refine Or.inl ⟨hlistening, (hkeeps.opened ho.2).resolve_right fun hnone => ?_⟩
    rw [hnone] at hlistening
    cases hlistening
  · exact Or.inr he

theorem Coherent.online_run (hi : Coherent verify es h) {fs : List Event}
    (hrun : run (Hub.step verify) h fs = some h')
    (ho : Online h' k machineId) : Online h k machineId ∨ .verified k true ∈ fs := by
  have hall : Coherent verify (es ++ fs) h' ∧
      (Online h' k machineId → Online h k machineId ∨ .verified k true ∈ fs) := by
    refine run_history_invariant (I := fun fs h' => Coherent verify (es ++ fs) h' ∧
      (Online h' k machineId → Online h k machineId ∨ .verified k true ∈ fs))
      ⟨by rwa [List.append_nil], Or.inl⟩ ?_ hrun
    rintro fs s e t ⟨hs, honline⟩ hstep
    refine ⟨by rw [← List.append_assoc]; exact hs.step hstep, fun ho => ?_⟩
    rcases hs.online_step hstep ho with ho | rfl
    · exact (honline ho).imp_right (List.mem_append_left _)
    · exact Or.inr (by simp)
  exact hall.2 ho

/-- In every state that is reached, at most one open socket is of a machine, and what is pushed to the
machine is put on that one and on no other; once the machine has been disconnected it has none, until
a verification of its credential is answered. -/
theorem one_socket (hrun : run (step verify) empty es = some h) (machineId : List Char) :
    (∀ k k', Online h k machineId → Online h k' machineId → k = k') ∧
      (∀ k message, ((h.sendToMachine machineId message).sockets k).sent = (h.sockets k).sent ++
        if Online h k machineId then [.toAgent machineId message] else []) ∧
      ∀ code reason fs h', run (step verify) h (.disconnectMachine machineId code reason :: fs) = some h' →
        ∀ k, Online h' k machineId → .verified k true ∈ fs := by
  have hi := coherent_run hrun
  refine ⟨fun _ _ => hi.online_unique, fun _ => hi.sendToMachine_sent, ?_⟩
  intro code reason fs h' hrun' k ho
  obtain ⟨h₁, hdisconnect, hrun'⟩ := run_cons_eq_some.1 hrun'
  have hi₁ := hi.step hdisconnect
  obtain rfl := Option.some.inj hdisconnect
  exact (hi₁.online_run hrun' ho).resolve_left (hi.disconnectMachine_offline code reason)

theorem one_socket_desk :
    .verified 1 true ∈ [Event.connect 1 (some "Machine a.t".toList) none, .verified 1 true] := by
  have hrun : run (step fun _ => false) empty
      [.connect 0 (some "Machine a.s".toList) none, .verified 0 true] =
      some ((run (step fun _ => false) empty
        [.connect 0 (some "Machine a.s".toList) none, .verified 0 true]).get (by decide)) :=
    (Option.some_get _).symm
  exact (one_socket hrun "a".toList).2.2 4003 "Credential revoked" _ _ (Option.some_get (by decide)).symm 1
    (by decide)

end Hub

end Taymna.Api
