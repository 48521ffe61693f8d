import Taymna.Agent.Credentials
import Taymna.Api.Secrets
import Taymna.System.Acknowledgement

/-!
# No enforcing agent is orphaned

An acknowledgement speaks for the credential of the socket it came on: whoever holds that credential
has the decommission on disk. The server takes it as speaking for the machine, whose credential may
have been replaced by an enrolment in the meantime. As long as the two are the same, the row is
deleted only when every computer that holds its credential has given up control.
-/

namespace Taymna

open Automata Agent Api

namespace Fleet

variable {Hash : Type*}

/-- The secret that the state file of computer `i` holds. -/
def stored (s : Fleet Hash) (i : ℕ) : Option String :=
  (s.computers i).host.disk.stateJson.credentials.map Credentials.machineSecret

/-- The secret that call `j` has drawn for the machine. -/
def drawn (s : Fleet Hash) (j : ℕ) : Option String := s.server.calls[j]?.bind Call.machineSecret

/-! ## Each secret goes to one computer -/

/-- Every secret is drawn once, and comes to at most one computer. -/
structure Ledger (s : Fleet Hash) : Prop where
  stored : ∀ i secret, s.stored i = some secret → secret ∈ s.server.world.secrets
  drawn : ∀ j secret, s.drawn j = some secret → secret ∈ s.server.world.secrets
  distinct : ∀ j j' secret, s.drawn j = some secret → s.drawn j' = some secret → j = j'
  undelivered : ∀ j i secret, s.waiting j = some i → s.drawn j = some secret →
    ∀ i', s.stored i' ≠ some secret
  unique : ∀ i i' secret, s.stored i = some secret → s.stored i' = some secret → i = i'

/-- No answer to an enrolment comes back in this step, and at most one call draws a secret. -/
structure Keeps (s t : Fleet Hash) : Prop where
  stored : t.stored = s.stored
  secrets : s.server.world.secrets ⊆ t.server.world.secrets
  drawn : ∃ j₀, ∀ j secret, t.drawn j = some secret → s.drawn j = some secret ∨
    j = j₀ ∧ secret ∉ s.server.world.secrets ∧ secret ∈ t.server.world.secrets
  waiting : ∀ j secret, t.drawn j = some secret → t.waiting j = s.waiting j

theorem Ledger.keeps {s t : Fleet Hash} (hs : s.Ledger) (h : Keeps s t) : t.Ledger := by
  obtain ⟨j₀, hdrawn⟩ := h.drawn
  refine ⟨fun i secret hi => ?_, fun j secret hj => ?_, fun j j' secret hj hj' => ?_,
    fun j i secret hw hj i' hi' => ?_, fun i i' secret hi hi' => ?_⟩
  · rw [h.stored] at hi
    exact h.secrets (hs.stored i secret hi)
  · rcases hdrawn j secret hj with hj | ⟨-, -, hj⟩
    · exact h.secrets (hs.drawn j secret hj)
    · exact hj
  · rcases hdrawn j secret hj with hj | ⟨rfl, hfresh, -⟩ <;>
      rcases hdrawn j' secret hj' with hj' | ⟨rfl, hfresh', -⟩
    · exact hs.distinct j j' secret hj hj'
    · exact absurd (hs.drawn j secret hj) hfresh'
    · exact absurd (hs.drawn j' secret hj') hfresh
    · rfl
  · rw [h.waiting j secret hj] at hw
    rw [h.stored] at hi'
    rcases hdrawn j secret hj with hj | ⟨-, hfresh, -⟩
    · exact hs.undelivered j i secret hw hj i' hi'
    · exact hfresh (hs.stored i' secret hi')
  · rw [h.stored] at hi hi'
    exact hs.unique i i' secret hi hi'

/-- The secret was given up: nobody will hold it who does not, and who does has the decommission on
disk. -/
structure Relinquished (s : Fleet Hash) (secret : String) : Prop where
  drawn : secret ∈ s.server.world.secrets
  durable : ∀ i, s.stored i = some secret → (s.computers i).host.Durable
  delivered : ∀ j i, s.waiting j = some i → s.drawn j ≠ some secret

theorem Relinquished.keeps {s t : Fleet Hash} {secret : String} (hs : s.Relinquished secret)
    (h : Keeps s t) (hd : ∀ i, (s.computers i).host.Durable → (t.computers i).host.Durable) :
    t.Relinquished secret := by
  obtain ⟨j₀, hdrawn⟩ := h.drawn
  refine ⟨h.secrets hs.drawn, fun i hi => hd i (hs.durable i (h.stored ▸ hi)), fun j i hw hj => ?_⟩
  rw [h.waiting j secret hj] at hw
  rcases hdrawn j secret hj with hj | ⟨-, hfresh, -⟩
  · exact hs.delivered j i hw hj
  · exact hfresh hs.drawn

theorem drawn_append {calls cs : List (Call Hash)} (hcs : ∀ c ∈ cs, c.machineSecret = none) {j : ℕ}
    {secret : String} (h : (calls ++ cs)[j]?.bind Call.machineSecret = some secret) :
    calls[j]?.bind Call.machineSecret = some secret := by
  obtain ⟨c, hc, hsecret⟩ := Option.bind_eq_some_iff.1 h
  rcases Pool.getElem?_append_cases hc with ⟨-, hold⟩ | ⟨_, -, hnew⟩
  · simp [hold, hsecret]
  · simp [hcs c (List.mem_of_getElem? hnew)] at hsecret

theorem keeps_of_event {s t : Fleet Hash} {e : Event} {w : World Hash} {cs : List (Call Hash)}
    (he : Server.EventStep s.server.world e w cs) (hserver : t.server = ⟨w, s.server.calls ++ cs⟩)
    (hstored : t.stored = s.stored)
    (hwaiting : ∀ j < s.server.calls.length, t.waiting j = s.waiting j) : Keeps s t := by
  have hdrawn : ∀ j secret, t.drawn j = some secret → s.drawn j = some secret := by
    intro j secret hj
    unfold drawn at hj
    rw [hserver] at hj
    exact drawn_append (fun c hc => (Server.made_of_event he c hc).machineSecret) hj
  refine ⟨hstored, ?_, ⟨0, fun j secret hj => Or.inl (hdrawn j secret hj)⟩, fun j secret hj => ?_⟩
  · rw [hserver, Server.secrets_of_event he]
    exact List.Subset.refl _
  · obtain ⟨c, hc, -⟩ := Option.bind_eq_some_iff.1 (hdrawn j secret hj)
    exact hwaiting j (List.getElem?_eq_some_iff.1 hc).1

theorem keeps_of_call [Argon2 Hash] {s : Fleet Hash} {j : ℕ} {input : Input} {c c' : Call Hash}
    {w : World Hash} (hc : s.server.calls[j]? = some c) (h : Server.Step s.server.world input c w c') :
    Keeps s { s with server := ⟨w, s.server.calls.set j c'⟩ } where
  stored := rfl
  secrets := fun _ => Server.mem_secrets_of_step h
  drawn := by
    refine ⟨j, fun j' secret hj' => ?_⟩
    obtain ⟨d, hd, hsecret⟩ := Option.bind_eq_some_iff.1 hj'
    rcases Pool.getElem?_set_cases hd with ⟨rfl, rfl⟩ | ⟨-, hd⟩
    · rcases Server.machineSecret_of_step h hsecret with hold | hnew
      · exact Or.inl (by simp [drawn, hc, hold])
      · exact Or.inr ⟨rfl, hnew⟩
    · exact Or.inl (by simp [drawn, hd, hsecret])
  waiting := fun _ _ _ => rfl

/-- Every running agent holds the credential of its state file. -/
def Agrees (s : Fleet Hash) : Prop := ∀ i, (s.computers i).host.Agrees

theorem agrees_update {computers : ℕ → Computer} (h : ∀ i, (computers i).host.Agrees) {i : ℕ}
    {c : Computer} (hc : c.host.Agrees) (j : ℕ) : (Function.update computers i c j).host.Agrees := by
  rcases eq_or_ne j i with rfl | hne
  · rwa [Function.update_self]
  · rw [Function.update_of_ne hne]
    exact h j

theorem Agrees.step [Argon2 Hash] {s t : Fleet Hash} {label : Label} (ha : s.Agrees) (hs : s.Sound)
    (h : Step s label t) : t.Agrees := by
  cases h with
  | computer _ hl _ _ hstep =>
    exact agrees_update ha (Computer.agrees_of_step (ha _) (hs _) hl hstep).1
  | connect _ _ _ _ hstep =>
    exact agrees_update ha (Computer.agrees_of_step (ha _) (hs _) (by simp) hstep).1
  | deliver | disconnect | event | call | enroll => exact ha
  | enrolled => exact agrees_update ha (Host.agrees_stopped _)

theorem stored_of_update {s t : Fleet Hash} {i : ℕ} {c : Computer}
    (ht : t.computers = Function.update s.computers i c)
    (hc : c.host.disk.stateJson.credentials = (s.computers i).host.disk.stateJson.credentials) :
    t.stored = s.stored := by
  funext j
  unfold stored
  rw [ht]
  rcases eq_or_ne j i with rfl | hne
  · rw [Function.update_self, hc]
  · rw [Function.update_of_ne hne]

/-- A step keeps all the secrets where they are, unless it brings an answer back. -/
theorem keeps_step [Argon2 Hash] {s t : Fleet Hash} {label : Label} (ha : s.Agrees) (hs : s.Sound)
    (hl : ∀ j serverUrl now, label ≠ .enrolled j serverUrl now) (h : Step s label t) : Keeps s t := by
  cases h with
  | computer _ hl _ _ hstep =>
    exact ⟨stored_of_update rfl (Computer.agrees_of_step (ha _) (hs _) hl hstep).2,
      List.Subset.refl _, ⟨0, fun _ _ => Or.inl⟩, fun _ _ _ => rfl⟩
  | connect _ _ _ he hstep =>
    exact keeps_of_event he rfl
      (stored_of_update rfl (Computer.agrees_of_step (ha _) (hs _) (by simp) hstep).2) fun _ _ => rfl
  | deliver _ he | disconnect he | event _ he => exact keeps_of_event he rfl rfl fun _ _ => rfl
  | call hc hstep => exact keeps_of_call hc hstep
  | enroll he => exact keeps_of_event he rfl rfl fun j hj => Function.update_of_ne hj.ne _ _
  | enrolled => exact absurd rfl (hl _ _ _)

/-- Only an enrolment takes a decommission off a disk. -/
theorem durable_step [Argon2 Hash] {s t : Fleet Hash} {label : Label} (hs : s.Sound)
    (hl : ∀ j serverUrl now, label ≠ .enrolled j serverUrl now) (h : Step s label t) (i : ℕ)
    (hd : (s.computers i).host.Durable) : (t.computers i).host.Durable := by
  have moved : ∀ {j l c outs}, (∀ credentials now, l ≠ .host (.enroll credentials now)) →
      Computer.step parse (s.computers j) l = some (c, outs) →
      (Function.update s.computers j c i).host.Durable := by
    intro j l c outs hl hstep
    rcases eq_or_ne i j with rfl | hne
    · rw [Function.update_self]
      rcases Computer.step_cases hstep with
        ⟨l', host, effects, rfl, hh, -, rfl, -⟩ | ⟨l', r, link, fs, -, -, -, rfl, -⟩
      · exact hd.step (hs i).host hh fun credentials now hl' => hl credentials now (by rw [hl'])
      · exact hd
    · rwa [Function.update_of_ne hne]
  cases h with
  | computer _ hl _ _ hstep => exact moved hl hstep
  | connect _ _ _ _ hstep => exact moved (by simp) hstep
  | deliver | disconnect | event | call | enroll => exact hd
  | enrolled => exact absurd rfl (hl _ _ _)

/-! ## The answer to an enrolment -/

section

variable {s : Fleet Hash} {j i : ℕ} {secret serverUrl : String} {now : ℤ}

/-- The fleet after computer `i` has been given `secret` in answer to its call `j`. -/
def answered (s : Fleet Hash) (j i : ℕ) (secret serverUrl : String) (now : ℤ) : Fleet Hash :=
  { s with
    waiting := Function.update s.waiting j none
    computers := Function.update s.computers i
      (.off (Host.enrolled (s.computers i).host.disk ⟨serverUrl, machineId, secret⟩ now)) }

theorem stored_answered_self : (s.answered j i secret serverUrl now).stored i = some secret := by
  simp [stored, answered, Computer.off, Host.enrolled, Host.enrolledState, StateFile.credentials]

theorem stored_answered_of_ne {i' : ℕ} (hne : i' ≠ i) :
    (s.answered j i secret serverUrl now).stored i' = s.stored i' := by
  simp [stored, answered, Function.update_of_ne hne]

theorem waiting_answered {j' i' : ℕ} (h : (s.answered j i secret serverUrl now).waiting j' = some i') :
    j' ≠ j ∧ s.waiting j' = some i' := by
  rcases eq_or_ne j' j with rfl | hne
  · simp [answered] at h
  · exact ⟨hne, by simpa [answered, Function.update_of_ne hne] using h⟩

theorem Ledger.answered (hs : s.Ledger) (hw : s.waiting j = some i) (hj : s.drawn j = some secret) :
    (s.answered j i secret serverUrl now).Ledger where
  stored i' secret' hi' := by
    rcases eq_or_ne i' i with rfl | hne
    · rw [stored_answered_self] at hi'
      obtain rfl := Option.some.inj hi'
      exact hs.drawn j secret hj
    · rw [stored_answered_of_ne hne] at hi'
      exact hs.stored i' secret' hi'
  drawn := hs.drawn
  distinct := hs.distinct
  undelivered j' i' secret' hw' hj' i'' hi'' := by
    obtain ⟨hne, hw'⟩ := waiting_answered hw'
    rcases eq_or_ne i'' i with rfl | hne'
    · rw [stored_answered_self] at hi''
      obtain rfl := Option.some.inj hi''
      exact hne (hs.distinct j' j secret hj' hj)
    · rw [stored_answered_of_ne hne'] at hi''
      exact hs.undelivered j' i' secret' hw' hj' i'' hi''
  unique i' i'' secret' hi' hi'' := by
    rcases eq_or_ne i' i with he | hne <;> rcases eq_or_ne i'' i with he' | hne'
    · exact he.trans he'.symm
    · rw [he, stored_answered_self] at hi'
      rw [stored_answered_of_ne hne'] at hi''
      obtain rfl := Option.some.inj hi'
      exact absurd hi'' (hs.undelivered j i _ hw hj i'')
    · rw [stored_answered_of_ne hne] at hi'
      rw [he', stored_answered_self] at hi''
      obtain rfl := Option.some.inj hi''
      exact absurd hi' (hs.undelivered j i _ hw hj i')
    · rw [stored_answered_of_ne hne] at hi'
      rw [stored_answered_of_ne hne'] at hi''
      exact hs.unique i' i'' secret' hi' hi''

theorem Relinquished.answered {secret' : String} (hs : s.Relinquished secret') (hw : s.waiting j = some i)
    (hj : s.drawn j = some secret) : (s.answered j i secret serverUrl now).Relinquished secret' where
  drawn := hs.drawn
  durable i' hi' := by
    rcases eq_or_ne i' i with rfl | hne
    · rw [stored_answered_self] at hi'
      exact absurd (hi' ▸ hj) (hs.delivered j _ hw)
    · rw [stored_answered_of_ne hne] at hi'
      simpa [Fleet.answered, Function.update_of_ne hne] using hs.durable i' hi'
  delivered j' i' hw' := hs.delivered j' i' (waiting_answered hw').2

end

/-! ## An acknowledgement speaks for a credential -/

/-- Where the secrets are, and what has been acknowledged for them. -/
structure Traced [Argon2 Hash] (s : Fleet Hash) : Prop where
  sound : s.Sound
  agrees : s.Agrees
  hashed : Server.Hashed s.server
  ledger : s.Ledger
  /-- A connected agent has presented the secret of its state file. -/
  up : ∀ i k greeted, (s.computers i).link.connection = .up k greeted →
    (s.server.world.sockets k).readyState ≠ .connecting ∧
      ∃ secret, (s.server.world.sockets k).secret = some secret ∧ s.stored i = some secret
  /-- The secret of a socket with an acknowledgement on it has been given up. -/
  sent : ∀ k, s.Sent k → (s.server.world.sockets k).readyState ≠ .connecting ∧
    ∃ secret, (s.server.world.sockets k).secret = some secret ∧ s.Relinquished secret

theorem acknowledges_append {calls cs : List (Call Hash)} {w w' : World Hash} {e : Event}
    (he : Server.EventStep w e w' cs) {k : ℕ} (h : ∃ c ∈ calls ++ cs, c.acknowledges k = true) :
    (∃ c ∈ calls, c.acknowledges k = true) ∨ ∃ wait, e = .receive k .decommissionAck wait := by
  obtain ⟨c, hc, hk⟩ := h
  rcases List.mem_append.1 hc with hc | hc
  · exact Or.inl ⟨c, hc, hk⟩
  · exact Or.inr (Server.acknowledges_of_event he hc hk)

/-- An acknowledgement is there because it was, or because a computer has just sent it. -/
theorem Sent.of_step [Argon2 Hash] {k : ℕ} {s t : Fleet Hash} {label : Label} (h : Step s label t)
    (ht : t.Sent k) : s.Sent k ∨ ∃ i l c outs greeted,
      Computer.step parse (s.computers i) l = some (c, outs) ∧ .send .decommissionAck ∈ outs ∧
        (∀ j serverUrl now, label ≠ .enrolled j serverUrl now) ∧
        t.computers i = c ∧ c.link.connection = .up k greeted := by
  cases h with
  | computer hmover _ _ _ hstep =>
    rcases ht with ht | ht
    · rcases mem_put_iff.1 ht with ht | ⟨hframe, greeted, hup⟩
      · exact Or.inl (Or.inl ht)
      · refine Or.inr ⟨_, _, _, _, greeted, hstep, mem_frames.1 hframe, ?_, by simp [Fleet.moved], hup⟩
        rintro j serverUrl now rfl
        cases hmover
    · exact Or.inl (Or.inr ht)
  | connect _ _ _ he hstep =>
    rcases ht with ht | ht
    · rcases mem_put_iff.1 ht with ht | ⟨hframe, greeted, hup⟩
      · exact Or.inl (Or.inl ht)
      · exact Or.inr ⟨_, _, _, _, greeted, hstep, mem_frames.1 hframe, by simp, by simp [Fleet.moved], hup⟩
    · refine Or.inl (Or.inr ((acknowledges_append he ht).resolve_right ?_))
      rintro ⟨wait, hl⟩
      cases hl
  | @deliver k' wait frame rest _ _ hwire he =>
    refine Or.inl ?_
    rcases ht with ht | ht
    · rcases eq_or_ne k k' with rfl | hne
      · exact Or.inl (hwire ▸ List.mem_cons_of_mem _ (by simpa using ht))
      · exact Or.inl (by simpa [Function.update_of_ne hne] using ht)
    · rcases acknowledges_append he ht with ht | ⟨wait', hframe⟩
      · exact Or.inr ht
      · obtain ⟨rfl, hframe, -⟩ := Event.receive.inj hframe
        cases frame with
        | heartbeat => cases hframe
        | decommissionAck => exact Or.inl (by simp [hwire])
  | @disconnect k' _ _ he =>
    refine Or.inl ?_
    rcases ht with ht | ht
    · rcases eq_or_ne k k' with rfl | hne
      · simp at ht
      · exact Or.inl (by simpa [Function.update_of_ne hne] using ht)
    · refine Or.inr ((acknowledges_append he ht).resolve_right ?_)
      rintro ⟨wait, hl⟩
      cases hl
  | event hapart he =>
    refine Or.inl (ht.imp_right fun ht => (acknowledges_append he ht).resolve_right ?_)
    rintro ⟨wait, rfl⟩
    cases hapart
  | call hc hstep =>
    refine Or.inl (ht.imp_right ?_)
    rintro ⟨d, hd, hk⟩
    rcases Pool.mem_set_cases hd with rfl | hd
    · exact ⟨_, List.mem_of_getElem? hc, (Server.acknowledges_of_step hstep k).symm.trans hk⟩
    · exact ⟨d, hd, hk⟩
  | enroll he =>
    refine Or.inl (ht.imp_right fun ht => (acknowledges_append he ht).resolve_right ?_)
    rintro ⟨wait, hl⟩
    cases hl
  | enrolled => exact Or.inl ht

theorem Traced.ledger_step [Argon2 Hash] {s t : Fleet Hash} {label : Label} (hs : s.Traced)
    (h : Step s label t) : t.Ledger := by
  by_cases hl : ∀ j serverUrl now, label ≠ .enrolled j serverUrl now
  · exact hs.ledger.keeps (keeps_step hs.agrees hs.sound hl h)
  · push Not at hl
    obtain ⟨j, serverUrl, now, rfl⟩ := hl
    cases h with
    | computer hmover => cases hmover
    | enrolled hw hj =>
      exact hs.ledger.answered hw (by simp [drawn, hj, Call.machineSecret, Enroll.machineSecret])

theorem Traced.hashed_step [Argon2 Hash] {s t : Fleet Hash} {label : Label} (hs : s.Traced)
    (h : Step s label t) : Server.Hashed t.server := by
  cases h with
  | computer | enrolled => exact hs.hashed
  | connect _ _ _ he | deliver _ he | disconnect he | event _ he | enroll he =>
    exact hs.hashed.event he
  | call hc hstep => exact hs.hashed.call hc hstep

theorem Traced.up_step [Argon2 Hash] {s t : Fleet Hash} {label : Label} (hs : s.Traced)
    (h : Step s label t) {i k : ℕ} {greeted : Bool}
    (hup : (t.computers i).link.connection = .up k greeted) :
    (t.server.world.sockets k).readyState ≠ .connecting ∧
      ∃ secret, (t.server.world.sockets k).secret = some secret ∧ t.stored i = some secret := by
  have hevolves := evolves_step h k
  -- A computer that was on the socket before.
  have still : ∀ {greeted}, (s.computers i).link.connection = .up k greeted →
      t.stored i = s.stored i → (t.server.world.sockets k).readyState ≠ .connecting ∧
        ∃ secret, (t.server.world.sockets k).secret = some secret ∧ t.stored i = some secret := by
    intro greeted hold hstored
    obtain ⟨hknown, secret, hsecret, hi⟩ := hs.up i k greeted hold
    exact ⟨hevolves.known hknown, secret, (hevolves.secret hknown).trans hsecret, hstored.trans hi⟩
  have hstored : (∀ j serverUrl now, label ≠ .enrolled j serverUrl now) → t.stored i = s.stored i :=
    fun hl => congrFun (keeps_step hs.agrees hs.sound hl h).stored i
  cases h with
  | @computer _ i' _ c _ _ hmover _ hconnect _ hstep =>
    have hstored := hstored (by rintro j serverUrl now rfl; cases hmover)
    rcases eq_or_ne i i' with rfl | hne
    · replace hup : c.link.connection = .up k greeted := by simpa [moved] using hup
      rcases Computer.up_of_step hstep hup with hl | ⟨greeted', hold⟩
      · exact absurd hl (hconnect k)
      · exact still hold hstored
    · exact still (by simpa [moved, Function.update_of_ne hne] using hup) hstored
  | @connect i' k' r credentials c outs w cs hr hc hk he hstep =>
    have hstored := hstored (by simp)
    rcases eq_or_ne i i' with rfl | hne
    · replace hup : c.link.connection = .up k greeted := by simpa [moved] using hup
      rcases Computer.up_of_step hstep hup with hl | ⟨greeted', hold⟩
      · obtain rfl : k' = k := by simpa using hl
        have hfile : s.stored i = some credentials.machineSecret := by
          simp [stored, ← hs.agrees i r hr, hc]
        cases he with
        | connect => exact ⟨by simp [moved, Server.connect, World.onSocket], credentials.machineSecret,
            by simp [moved, Server.connect, World.onSocket], hstored.trans hfile⟩
      · exact still hold hstored
    · exact still (by simpa [moved, Function.update_of_ne hne] using hup) hstored
  | deliver | disconnect | event | call | enroll => exact still hup (hstored (by simp))
  | @enrolled j i' serverUrl now secret =>
    rcases eq_or_ne i i' with rfl | hne
    · simp [Computer.off, Link.new] at hup
    · exact still (by simpa [Function.update_of_ne hne] using hup) (stored_answered_of_ne hne)

theorem Traced.step [Argon2 Hash] {s t : Fleet Hash} {label : Label} (hs : s.Traced)
    (h : Step s label t) : t.Traced where
  sound := hs.sound.step h
  agrees := hs.agrees.step hs.sound h
  hashed := hs.hashed_step h
  ledger := hs.ledger_step h
  up i k greeted hup := hs.up_step h hup
  sent k ht := by
    rcases Sent.of_step h ht with hold | ⟨i, l, c, outs, greeted, hstep, hsent, hl, rfl, hup⟩
    · obtain ⟨hknown, secret, hsecret, hgone⟩ := hs.sent k hold
      have hevolves := evolves_step h k
      refine ⟨hevolves.known hknown, secret, (hevolves.secret hknown).trans hsecret, ?_⟩
      by_cases hl : ∀ j serverUrl now, label ≠ .enrolled j serverUrl now
      · exact hgone.keeps (keeps_step hs.agrees hs.sound hl h) fun i hd => durable_step hs.sound hl h i hd
      · push Not at hl
        obtain ⟨j, serverUrl, now, rfl⟩ := hl
        cases h with
        | computer hmover => cases hmover
        | enrolled hw hj =>
          exact hgone.answered hw (by simp [drawn, hj, Call.machineSecret, Enroll.machineSecret])
    · obtain ⟨hknown, secret, hsecret, hi⟩ := hs.up_step h hup
      have hledger := hs.ledger_step h
      refine ⟨hknown, secret, hsecret, hledger.stored i secret hi, fun i' hi' => ?_, fun j i' hw hj => ?_⟩
      · obtain rfl := hledger.unique i' i secret hi' hi
        exact durable_step hs.sound hl h _ ((hs.sound _).durable_of_send_ack hstep hsent)
      · exact hledger.undelivered j i' secret hw hj i hi

theorem traced_init [Argon2 Hash] {clock : ℤ} {disks : ℕ → Disk} (hd : ∀ i, Blank (disks i)) :
    (init clock disks : Fleet Hash).Traced where
  sound := sound_init clock disks
  agrees i := Host.agrees_stopped (disks i)
  hashed := by
    refine ⟨fun m hash hm hh => ?_, by simp [init]⟩
    cases hm
    cases hh
  ledger := by
    have hnone : ∀ i, (init clock disks : Fleet Hash).stored i = none := by
      intro i
      rcases hf : (disks i).stateJson with _ | _ | state
      · simp [stored, init, Computer.off, hf, StateFile.credentials]
      · simp [stored, init, Computer.off, hf, StateFile.credentials]
      · simp [stored, init, Computer.off, hf, StateFile.credentials, (hd i state hf).1]
    exact ⟨by simp [hnone], by simp [drawn, init], by simp [drawn, init], by simp [drawn, init],
      by simp [hnone]⟩
  up i k greeted hup := by simp [init, Computer.off, Link.new] at hup
  sent k hk := by simp [Sent, init] at hk

/-- If call `j` is the delete of an acknowledgement, and is going to delete the row, then it came on a
socket that has presented the row's credential, if the row still has one. -/
def CurrentDelete [Argon2 Hash] (p : Pool (World Hash) (Call Hash)) (j : ℕ) : Prop :=
  match p.calls[j]?, p.world.machine with
  | some (.message k .finalize), some m => m.isPending = true →
      (m.credentialHash.all fun hash =>
        (p.world.sockets k).secret.any (Argon2.verify hash)) = true
  | _, _ => True

instance [Argon2 Hash] (p : Pool (World Hash) (Call Hash)) (j : ℕ) :
    Decidable (CurrentDelete p j) := by
  unfold CurrentDelete
  split <;> infer_instance

/-- An acknowledgement that deletes the row speaks for the row's current credential. -/
def Current [Argon2 Hash] (s : Fleet Hash) : Label → Prop
  | .call j _ => CurrentDelete s.server j
  | _ => True

instance [Argon2 Hash] (s : Fleet Hash) : ∀ label, Decidable (Current s label)
  | .call j _ => inferInstanceAs (Decidable (CurrentDelete s.server j))
  | .computer _ _ | .connect _ _ | .read _ _ | .deliver _ _ | .disconnect _ | .event _
  | .enroll _ _ _ _ | .enrolled _ _ _ => instDecidableTrue

/-- If this step is the delete of an acknowledgement, and deletes the row, then every computer whose
state file holds a credential that verifies against the row has the decommission on disk. -/
def Orphanless [Argon2 Hash] (s : Fleet Hash) (label : Label) : Prop :=
  ∀ j input k m t, label = .call j input → s.server.calls[j]? = some (.message k .finalize) →
    s.server.world.machine = some m → step s label = some t → t.server.world.machine = none →
    ∀ i credentials, (s.computers i).host.disk.stateJson.credentials = some credentials →
      verifySecret m.credentialHash credentials.machineSecret = true → (s.computers i).host.Durable

theorem Traced.orphanless [Argon2 Hash] {s : Fleet Hash} {label : Label} (hs : s.Traced)
    (hcurrent : Current s label) : Orphanless s label := by
  rintro j input k m t rfl hj hm ht hnone i credentials hi hverify
  have hpend : m.isPending = true := by
    cases step_cases ht with
    | computer hmover => cases hmover
    | call hc hstep =>
      obtain rfl := Option.some.inj (hj.symm.trans hc)
      cases hstep with
      | message hstep =>
        cases hstep with
        | delete hm' hpend =>
          obtain rfl := Option.some.inj (hm.symm.trans hm')
          exact hpend
        | deleteNone => exact absurd (hm.symm.trans hnone) (by simp)
  obtain ⟨hash, hhash, hverify⟩ := (Option.any_eq_true _ _).1 hverify
  obtain ⟨secret, salt, rfl⟩ := hs.hashed.row m hash hm hhash
  obtain ⟨-, presented, hpresented, hgone⟩ := hs.sent k
    (Or.inr ⟨_, List.mem_of_getElem? hj, by simp [Call.acknowledges, HandleMessage.acknowledges]⟩)
  have hsame : presented = secret := by
    simp only [Current, CurrentDelete, hj, hm] at hcurrent
    simpa [hhash, hpresented, Argon2.verify_hash_iff] using hcurrent hpend
  have hheld : credentials.machineSecret = secret := (Argon2.verify_hash_iff _ _ _).1 hverify
  exact hgone.durable i (by simp [stored, hi, hheld, hsame])

/-- However enrolments, removals, connections and acknowledgements of any number of computers
interleave: as long as every acknowledgement that deletes the row came on a socket with the row's
current credential, no computer that holds that credential is left enforcing. -/
theorem no_agent_orphaned [Argon2 Hash] {clock : ℤ} {disks : ℕ → Disk} (hd : ∀ i, Blank (disks i))
    {es : List Label} (hgood : Along step Current (init clock disks : Fleet Hash) es) :
    Along step Orphanless (init clock disks : Fleet Hash) es :=
  along_of_invariant (fun _ _ _ hs _ ht => hs.step (step_cases ht)) (fun _ _ hs hc => hs.orphanless hc)
    (traced_init hd) hgood

/-- The removal of a machine whose computer is the only one. -/
theorem no_agent_orphaned_removal :
    Along step Orphanless start (acknowledged ++ (.deliver 0 0 :: steps 5 2 "")) :=
  no_agent_orphaned (fun _ _ hd => by cases hd) (by decide)

/-- While the acknowledgement of computer `0` is on its way, computer `1` is enrolled. -/
def replaced : List Label :=
  acknowledged ++ [.event (.request .issueEnrollmentToken 0)] ++ steps 5 5 "token 2" ++
    [.enroll 1 "token 2" "token 2" 0] ++ steps 6 7 "secret 2" ++
    [.enrolled 6 "https://taymna.example.com" 0, .deliver 0 0]

/-- The acknowledgement deletes the machine, and computer `1` goes on enforcing for it. -/
theorem replacement_orphaned : ¬ Along step Orphanless start (replaced ++ steps 7 1 "") := by
  intro h
  have hlast := (along_cons_iff.1 ((along_append_iff.1 h).2 _ rfl)).1
  have hdurable := hlast 7 _ 0 _ _ rfl rfl rfl rfl rfl 1 _ rfl (by decide)
  exact absurd hdurable (by decide)

end Fleet

end Taymna
