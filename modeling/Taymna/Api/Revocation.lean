import Taymna.Api.Registry
import Taymna.Api.Removal

/-!
# Sockets and the credential they were let in by

Each change of the machine's credential starts a new era. A socket belongs to the era in which its
row was read, and a call that changes the credential to the era it starts. Once such a call is
through, no open socket of an earlier era is left, in every run in which no check succeeds over such
a change and no enrolment goes through under a connected agent (`Vouched`). -/

namespace Taymna.Api

open Automata

variable {Hash : Type*}

/-- What has become of the credential: how often it has changed, the era in which the row of each
socket was read, and the era that each call has started, by its place in the pool. -/
structure Eras where
  now : ℕ
  read : ℕ → ℕ
  started : ℕ → ℕ

/-- Nothing has changed yet. -/
def Eras.first : Eras := { now := 0, read := fun _ => 0, started := fun _ => 0 }

/-- The step of the call changes the credential in the row. -/
def Call.changesCredential (w : World Hash) : Call Hash → Bool
  | .revokeCredential (.update _) => w.machine.isSome
  | c => (c.redeems w).isSome

/-- The call has changed the credential, and has told the registry if it does. -/
def Call.settled : Call Hash → Bool
  | .enroll (.committed true _) | .enroll (.done _) => true
  | .revokeCredential (.toDto _ _) | .revokeCredential (.done _) => true
  | _ => false

/-- The call has changed the credential, and returned. -/
def Call.changed : Call Hash → Bool
  | .enroll (.done _) | .revokeCredential (.done _) => true
  | _ => false

theorem Call.settled_of_changed {c : Call Hash} (h : c.changed = true) : c.settled = true := by
  cases c with
  | enroll pc => cases pc <;> first | rfl | cases h
  | revokeCredential pc => cases pc <;> first | rfl | cases h
  | _ => cases h

/-- What a call may not do: a check does not succeed if the credential has been changed since it was
read, by a call that is through; and an enrolment does not go through while an agent is
connected. -/
def Call.Vouched (p : Pool (World Hash) (Call Hash)) (g : Eras) (c : Call Hash) : Prop :=
  (∀ k ∈ c.accepts, ∀ i < p.calls.length, (p.calls[i]?.any Call.settled) = true →
    g.started i ≤ g.read k) ∧
  ((c.redeems p.world).isSome = true → ∀ k ∈ p.world.agentSocket,
    (p.world.sockets k).readyState ≠ .opened)

instance (p : Pool (World Hash) (Call Hash)) (g : Eras) (c : Call Hash) : Decidable (c.Vouched p g) :=
  inferInstanceAs (Decidable (_ ∧ _))

/-! ## The sockets that are listened to -/

/-- A socket is listened to from its acceptance on. -/
theorem RegistryStep.listening {w w' : World Hash} {c : Call Hash} (h : RegistryStep w c w') {k : ℕ}
    (hl : (w'.sockets k).listening = true) :
    (w.sockets k).listening = true ∨ c = .authenticate k (.verified true) := by
  cases h with
  | keep _ hs =>
    rw [hs] at hl
    exact Or.inl hl
  | send _ _ _ hs | reject _ hs | drop _ _ _ _ hs =>
    rw [hs] at hl
    split_ifs at hl <;> exact Or.inl (by simpa using hl)
  | accept _ hs =>
    rw [hs] at hl
    split_ifs at hl with hk
    · exact Or.inr (by rw [hk])
    · exact Or.inl (by simpa using hl)
    · exact Or.inl hl

/-- If only the registered socket is open and listened to, then so it is after a step. -/
theorem RegistryStep.entry {w w' : World Hash} {c : Call Hash} (h : RegistryStep w c w')
    (hw : ∀ k, (w.sockets k).readyState = .opened → (w.sockets k).listening = true →
      w.agentSocket = some k) {k : ℕ} (ho : (w'.sockets k).readyState = .opened)
    (hl : (w'.sockets k).listening = true) : w'.agentSocket = some k := by
  have hold := (h.kept k).opened ho
  cases h with
  | keep ha hs =>
    rw [hs] at hl
    exact ha.trans (hw k hold hl)
  | send k' m ha hs =>
    have hl' : (w.sockets k).listening = true := by
      rw [hs] at hl
      split_ifs at hl <;> simpa using hl
    exact ha.trans (hw k hold hl')
  | reject ha hs =>
    have hl' : (w.sockets k).listening = true := by
      rw [hs] at hl
      split_ifs at hl <;> simpa using hl
    exact ha.trans (hw k hold hl')
  | @accept k' _ ha hs =>
    rw [hs] at ho hl
    split_ifs at ho hl with hk hreg
    · rw [hk]
      exact ha
    · exact absurd ho (Socket.close_readyState_ne _ _ _)
    · exact absurd (hw k ho hl) hreg
  | drop code reason _ ha hs =>
    rw [hs] at ho hl
    split_ifs at ho hl with hreg
    · exact absurd ho (Socket.close_readyState_ne _ _ _)
    · exact absurd (hw k ho hl) hreg

namespace Server

/-- The eras, from step to step. -/
def eras (p : Pool (World Hash) (Call Hash)) (label : Pool.Label Event Input) (g : Eras) : Eras :=
  match label with
  | .env _ => g
  | .call i _ =>
    match p.calls[i]? with
    | none => g
    | some (.authenticate k (.find _)) => { g with read := Function.update g.read k g.now }
    | some c =>
      if c.changesCredential p.world then
        { g with now := g.now + 1, started := Function.update g.started i (g.now + 1) }
      else g

/-- Once a call that changes the credential has returned, no open socket that was let in by an
earlier one is registered, or has its messages handled. -/
def Current (s : Pool (World Hash) (Call Hash) × Eras) : Prop :=
  ∀ i c, s.1.calls[i]? = some c → c.changed = true → ∀ k, (s.1.world.sockets k).readyState = .opened →
    s.1.world.agentSocket = some k ∨ (s.1.world.sockets k).listening = true →
    s.2.started i ≤ s.2.read k

/-- The step keeps the sockets and the credential together. -/
def Vouches (s : Pool (World Hash) (Call Hash) × Eras) : Pool.Label Event Input → Prop
  | .call i _ => ∀ c ∈ s.1.calls[i]?, c.Vouched s.1 s.2
  | .env _ => True

instance (s : Pool (World Hash) (Call Hash) × Eras) : ∀ label, Decidable (Vouches s label)
  | .call _ _ => inferInstanceAs (Decidable (∀ c ∈ _, _))
  | .env _ => instDecidableTrue

/-- Every socket whose messages are handled is the one that is registered, and it was let in by the
credential of every call that is through. -/
structure Settled (p : Pool (World Hash) (Call Hash)) (g : Eras) : Prop where
  opened : Opened p
  listening : ∀ k, (p.world.sockets k).listening = true → (p.world.sockets k).readyState ≠ .connecting
  entry : ∀ k, (p.world.sockets k).readyState = .opened → (p.world.sockets k).listening = true →
    p.world.agentSocket = some k
  started_le : ∀ i, g.started i ≤ g.now
  current : ∀ i c, p.calls[i]? = some c → c.settled = true → ∀ k, p.world.agentSocket = some k →
    (p.world.sockets k).readyState = .opened → g.started i ≤ g.read k

/-! ## The eras -/

/-- What a step does to the eras. -/
inductive EraStep (w : World Hash) (g : Eras) (i : ℕ) (c : Call Hash) : Eras → Prop
  | keep : c.changesCredential w = false → EraStep w g i c g
  | read (k : ℕ) : c.changesCredential w = false →
      EraStep w g i c { g with read := Function.update g.read k g.now }
  | change : c.changesCredential w = true →
      EraStep w g i c { g with now := g.now + 1, started := Function.update g.started i (g.now + 1) }

theorem eraStep_eras {p : Pool (World Hash) (Call Hash)} {i : ℕ} {c : Call Hash}
    (hc : p.calls[i]? = some c) (input : Input) (g : Eras) :
    EraStep p.world g i c (eras p (.call i input) g) := by
  unfold eras
  simp only [hc]
  split
  · rename_i heq
    cases heq
  · rename_i k secret heq
    obtain rfl := Option.some.inj heq
    exact .read k rfl
  · rename_i d hd heq
    obtain rfl := Option.some.inj heq
    split_ifs with hchange
    · exact .change hchange
    · exact .keep (by simpa using hchange)

theorem EraStep.started_le {w : World Hash} {g g' : Eras} {i : ℕ} {c : Call Hash}
    (h : EraStep w g i c g') (hg : ∀ j, g.started j ≤ g.now) (j : ℕ) : g'.started j ≤ g'.now := by
  cases h with
  | keep | read => exact hg j
  | change =>
    dsimp only
    rw [Function.update_apply]
    split_ifs
    · exact le_refl _
    · exact (hg j).trans (Nat.le_succ _)

/-- The era of another call stays, and so does that of a call that does not start one. -/
theorem EraStep.started_eq {w : World Hash} {g g' : Eras} {i : ℕ} {c : Call Hash}
    (h : EraStep w g i c g') {j : ℕ} (hj : j = i → c.changesCredential w = false) :
    g'.started j = g.started j := by
  cases h with
  | keep | read => rfl
  | change hc =>
    refine Function.update_of_ne (fun he => ?_) _ _
    exact absurd hc (by simp [hj he])

/-- A socket's era only moves forward, and never past the present. -/
theorem EraStep.read_ge {w : World Hash} {g g' : Eras} {i : ℕ} {c : Call Hash}
    (h : EraStep w g i c g') {n k : ℕ} (hn : n ≤ g.now) (hread : n ≤ g.read k) : n ≤ g'.read k := by
  cases h with
  | keep | change => exact hread
  | read k' =>
    dsimp only
    rw [Function.update_apply]
    split_ifs
    · exact hn
    · exact hread

/-! ## The calls -/

/-- A call settles by telling the registry, or by an enrolment that goes through. -/
theorem settled_of_step [Argon2 Hash] {w w' : World Hash} {c c' : Call Hash} {input : Input}
    (h : Step w input c w' c') (hs : c'.settled = true) :
    c.settled = true ∨ w'.agentSocket = none ∨
      ∃ record machineSecret hash usedAt, c = .enroll (.transaction record machineSecret hash usedAt) ∧
        Enroll.Commits w record ∧ w'.agentSocket = w.agentSocket ∧ w'.sockets = w.sockets := by
  cases h with
  | enroll h =>
    cases h with
    | commit hcommits => exact Or.inr (Or.inr ⟨_, _, _, _, rfl, hcommits, rfl, rfl⟩)
    | done => exact Or.inl rfl
    | find | unknown | used | expired | found | verifying | wrong | verified | hashing | rollback
    | failed => cases hs
  | revokeCredential h =>
    cases h with
    | updated => exact Or.inr (Or.inl (by simp))
    | query | done => exact Or.inl rfl
    | update | rejected => cases hs
  | authenticate | message | requestDecommission | issueEnrollmentToken | start | edit => cases hs

theorem changesCredential_of_settled {w : World Hash} {c : Call Hash} (h : c.settled = true) :
    c.changesCredential w = false := by
  cases c with
  | enroll pc => cases pc <;> first | rfl | cases h
  | revokeCredential pc => cases pc <;> first | rfl | cases h
  | _ => rfl

/-- No event starts a call that has settled. -/
theorem Made.settled {c : Call Hash} (h : Made c) : c.settled = false := by
  cases h <;> rfl

/-! ## The sockets -/

theorem listening_of_event {w w' : World Hash} {e : Event} {cs : List (Call Hash)}
    (h : EventStep w e w' cs) (k : ℕ) : (w'.sockets k).listening = (w.sockets k).listening := by
  have hs := socket_of_event h k
  generalize w'.sockets k = s at hs ⊢
  cases hs with
  | connect _ hl => exact hl
  | same | hangUp | disconnect => rfl

/-- A socket that stays open stays registered. -/
theorem agentSocket_eq_of_event {w w' : World Hash} {e : Event} {cs : List (Call Hash)}
    (h : EventStep w e w' cs) {k : ℕ} (hk : w.agentSocket = some k)
    (ho : (w'.sockets k).readyState = .opened) : w'.agentSocket = some k := by
  rcases agentSocket_cases_of_event h with hsame | ⟨k', hk', -, hclosed⟩
  · rwa [hsame]
  · obtain rfl := Option.some.inj (hk.symm.trans hk')
    rw [hclosed] at ho
    cases ho

theorem Settled.event {p : Pool (World Hash) (Call Hash)} {g : Eras} (hp : Settled p g) {e : Event}
    {w : World Hash} {cs : List (Call Hash)} (h : EventStep p.world e w cs) :
    Settled ⟨w, p.calls ++ cs⟩ g where
  opened := hp.opened.event h
  listening k hk := by
    have hold : (p.world.sockets k).listening = true := (listening_of_event h k).symm.trans hk
    exact (evolves_of_event (P := fun _ => True) h k).known (hp.listening k hold)
  entry k ho hl := by
    have hold : (p.world.sockets k).listening = true := (listening_of_event h k).symm.trans hl
    have hsame := socket_eq_of_event h (hp.listening k hold) ho
    have hopened : (p.world.sockets k).readyState = .opened := hsame ▸ ho
    exact agentSocket_eq_of_event h (hp.entry k hopened hold) ho
  started_le := hp.started_le
  current i c hc hs k hk ho := by
    have hk' := agentSocket_of_event h hk
    have hsame := socket_eq_of_event h (hp.opened.registered k hk') ho
    have hopened : (p.world.sockets k).readyState = .opened := hsame ▸ ho
    rcases Pool.getElem?_append_cases hc with ⟨-, hold⟩ | ⟨_, -, hnew⟩
    · exact hp.current i c hold hs k hk' hopened
    · exact absurd hs (by simp [(made_of_event h c (List.mem_of_getElem? hnew)).settled])

theorem Settled.call [Argon2 Hash] {p : Pool (World Hash) (Call Hash)} {g : Eras} (hp : Settled p g)
    {j : ℕ} {input : Input} {c c' : Call Hash} {w : World Hash} (hc : p.calls[j]? = some c)
    (hv : c.Vouched p g) (h : Step p.world input c w c') :
    Settled ⟨w, p.calls.set j c'⟩ (eras p (.call j input) g) := by
  have hera := eraStep_eras hc input g
  have hreg := registryStep_of_step h
  have hentry : ∀ k, (w.sockets k).readyState = .opened → (w.sockets k).listening = true →
      w.agentSocket = some k := fun k ho hl => hreg.entry hp.entry ho hl
  -- Whoever is registered now was let in by the credential of each call that was through before.
  have hcurrent : ∀ i d, p.calls[i]? = some d → d.settled = true → ∀ k, w.agentSocket = some k →
      (w.sockets k).readyState = .opened → g.started i ≤ g.read k := by
    intro i d hd hs k hk ho
    rcases agentSocket_of_step h hk with hold | rfl
    · exact hp.current i d hd hs k hold ((hreg.kept k).opened ho)
    · exact hv.1 k rfl i (List.getElem?_eq_some_iff.1 hd).1 (by simpa [hd] using hs)
  refine ⟨hp.opened.call hc h, ?_, hentry, hera.started_le hp.started_le, ?_⟩
  · intro k hl
    refine (evolves_of_step h k).known ?_
    rcases hreg.listening hl with hold | rfl
    · exact hp.listening k hold
    · exact hp.opened.authenticating k _ (List.mem_of_getElem? hc)
  · intro i d hd hs k hk ho
    have hle : ∀ e, p.calls[i]? = some e → e.settled = true →
        (i = j → c.changesCredential p.world = false) →
        (eras p (.call j input) g).started i ≤ (eras p (.call j input) g).read k := by
      intro e he hse hj
      rw [hera.started_eq hj]
      exact hera.read_ge (hp.started_le i) (hcurrent i e he hse k hk ho)
    rcases Pool.getElem?_set_cases hd with ⟨rfl, rfl⟩ | ⟨hij, hd⟩
    · rcases settled_of_step h hs with
        hold | hnone | ⟨record, secret, hash, usedAt, rfl, hcommits, ha, hsock⟩
      · exact hle c hc hold fun _ => changesCredential_of_settled hold
      · exact absurd (hnone.symm.trans hk) (by simp)
      · -- The enrolment goes through, and nobody is connected.
        rw [hsock] at ho
        exact absurd ho (hv.2 (by simp [Call.redeems, hcommits]) k (ha.symm.trans hk))
    · exact hle d hd hs fun he => absurd he hij

theorem Settled.step [Argon2 Hash] {s t : Pool (World Hash) (Call Hash) × Eras}
    {label : Pool.Label Event Input} (hs : Settled s.1 s.2) (hv : Vouches s label)
    (h : annotated next eras s label = some t) : Settled t.1 t.2 := by
  obtain ⟨q, hq, rfl⟩ := annotated_eq_some.1 h
  cases Pool.next_iff.1 hq with
  | env he => exact hs.event (event_cases he)
  | call hc hstep => exact hs.call hc (hv _ hc) (step_cases hstep)

/-- However the calls interleave, from the start of the process: as long as no check succeeds over a
change of the credential and no enrolment goes through under a connected agent, no open socket that
was let in before a call that has changed the credential and returned is registered or listened
to. -/
theorem sockets_current [Argon2 Hash] {w : World Hash} (hw : w.agentSocket = none)
    (hsockets : ∀ k, w.sockets k = Socket.unused) {es : List (Pool.Label Event Input)}
    (hv : Along (annotated next eras) Vouches (⟨w, []⟩, Eras.first) es)
    {s : Pool (World Hash) (Call Hash) × Eras}
    (h : run (annotated next eras) (⟨w, []⟩, Eras.first) es = some s) : Current s := by
  have hstart : Settled (⟨w, []⟩ : Pool (World Hash) (Call Hash)) Eras.first :=
    ⟨opened_of_agentSocket_eq_none hw, by simp [hsockets, Socket.unused],
      by simp [hsockets, Socket.unused], fun _ => le_refl _, by simp⟩
  have hs : Settled s.1 s.2 :=
    run_invariant_along (I := fun s => Settled s.1 s.2) (fun _ _ _ hs hv h => hs.step hv h) hstart hv h
  intro i c hc hchanged k ho hk
  have hreg : s.1.world.agentSocket = some k := hk.elim id (hs.entry k ho)
  exact hs.current i c hc (Call.settled_of_changed hchanged) k hreg ho

/-- An enrolled machine, with a fresh enrolment token. -/
def reinvited : World PlainHash := { enrolledWorld with tokens := [⟨"t1", ⟨"s1"⟩, 1000, none⟩] }

/-- A revocation under a connected agent, and an enrolment after it. -/
def renewed : List (Pool.Label Event Input) :=
  let go (i : ℕ) : Pool.Label Event Input := .call i ⟨0, 0, "s2", "", 0⟩
  [.env (.connect 0 (some "s1")), go 0, go 0, go 0, go 0, .env (.request .revokeCredential 0),
    go 1, go 1, go 1, go 1, go 1, go 1, .env (.request (.enroll "t1" "s1") 0),
    go 2, go 2, go 2, go 2, go 2, go 2, go 2, .env (.connect 1 (some "s2")), go 3, go 3, go 3, go 3]

theorem sockets_current_renewed :
    ∃ s, run (annotated next eras) ((⟨reinvited, []⟩, Eras.first) :
      Pool (World PlainHash) (Call PlainHash) × Eras) renewed = some s ∧ Current s :=
  ⟨_, rfl, @sockets_current _ _ reinvited rfl (fun _ => rfl) renewed (by decide) _ rfl⟩

/-- A revocation while the check of a socket is in progress. -/
def revokedInFlight : List (Pool.Label Event Input) :=
  let go (i : ℕ) : Pool.Label Event Input := .call i ⟨0, 0, "", "", 0⟩
  [.env (.connect 0 (some "s1")), go 0, go 0, .env (.request .revokeCredential 0),
    go 1, go 1, go 1, go 1, go 1, go 1, go 0, go 0]

/-- An enrolment under a connected agent. -/
def enrolledUnderAgent : List (Pool.Label Event Input) :=
  let go (i : ℕ) : Pool.Label Event Input := .call i ⟨0, 0, "s2", "", 0⟩
  [.env (.connect 0 (some "s1")), go 0, go 0, go 0, go 0, .env (.request (.enroll "t1" "s1") 0),
    go 1, go 1, go 1, go 1, go 1, go 1, go 1]

/-- After both, the socket that was let in by the old credential is open and registered. -/
theorem sockets_outdated :
    (∃ s, run (annotated next eras) ((⟨reinvited, []⟩, Eras.first) :
      Pool (World PlainHash) (Call PlainHash) × Eras) revokedInFlight = some s ∧ ¬ Current s) ∧
    ∃ s, run (annotated next eras) ((⟨reinvited, []⟩, Eras.first) :
      Pool (World PlainHash) (Call PlainHash) × Eras) enrolledUnderAgent = some s ∧ ¬ Current s := by
  refine ⟨⟨_, rfl, fun h => ?_⟩, ⟨_, rfl, fun h => ?_⟩⟩
  · exact absurd (h 1 _ rfl rfl 0 rfl (Or.inl rfl)) (by decide)
  · exact absurd (h 1 _ rfl rfl 0 rfl (Or.inl rfl)) (by decide)

end Server

end Taymna.Api
