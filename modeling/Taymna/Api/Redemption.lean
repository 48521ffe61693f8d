import Taymna.Api.Removal

/-!
# What an enrolment token is redeemed for

`enroll` looks at the token's `usedAt` when it reads it, and marks it used in its transaction, a
hash and a verification later, without looking again. As long as each transaction finds its token
unused, a token is redeemed once, and the secret that is handed out for it works until the
credential is changed by something else. -/

namespace Taymna.Api

open Automata

variable {Hash : Type*}

/-- `verifyMachineCredential` for a secret of this machine, when its query is answered in `w`. -/
def World.verifyMachineCredential [Argon2 Hash] (w : World Hash) (secret : String) : Bool :=
  match w.machine with
  | none => false
  | some m => if m.credentialRevokedAt.isSome then false else verifySecret m.credentialHash secret

/-- `authenticateAgent` comes to this result, whatever happens after its query. -/
theorem Authenticate.verified_of_find [Argon2 Hash] {w w₁ w₂ : World Hash} {k : ℕ} {input : Input}
    {secret : String} {pc pc₁ : Authenticate Hash}
    (hfind : step w k input (.find secret) = some (w, pc))
    (hfound : step w₁ k input pc = some (w₁, pc₁)) :
    pc₁ = .verified (w.verifyMachineCredential secret) ∨
      step w₂ k input pc₁ = some (w₂, .verified (w.verifyMachineCredential secret)) := by
  obtain rfl : Authenticate.found secret w.machine = pc := by simpa [step] using hfind
  unfold World.verifyMachineCredential
  rcases Option.eq_none_or_eq_some w.machine with hm | ⟨m, hm⟩
  · rw [hm] at hfound ⊢
    refine Or.inl ?_
    simpa [step, eq_comm] using hfound
  · rw [hm] at hfound ⊢
    simp only [step] at hfound
    split_ifs at hfound with hr
    · refine Or.inl ?_
      simpa [hr, eq_comm] using hfound
    · obtain rfl : Authenticate.verifying secret m.credentialHash = pc₁ := by simpa using hfound
      refine Or.inr ?_
      simp [step, hr]

/-! ## The tokens -/

namespace World

variable (w : World Hash)

@[simp] theorem registerAgent_tokens (k : ℕ) : (w.registerAgent k).tokens = w.tokens := by
  unfold registerAgent
  split
  · split_ifs <;> rfl
  · rfl

@[simp] theorem sendToMachine_tokens (message : ServerToAgentMessage) :
    (w.sendToMachine message).tokens = w.tokens := by
  unfold sendToMachine
  split <;> rfl

@[simp] theorem disconnectMachine_tokens (code : ℕ) (reason : String) :
    (w.disconnectMachine code reason).tokens = w.tokens := by
  unfold disconnectMachine
  split <;> rfl

end World

/-- What a step of a call does to the tokens. -/
inductive TokensStep (w : World Hash) : Call Hash → World Hash → Prop
  | keep {c w'} : w'.tokens = w.tokens → TokensStep w c w'
  | create {c w'} (token : EnrollmentToken Hash) : (∀ t ∈ w.tokens, t.id ≠ token.id) →
      w'.tokens = w.tokens ++ [token] → TokensStep w c w'
  | redeem {record machineSecret hash usedAt} : Enroll.Commits w record →
      TokensStep w (.enroll (.transaction record machineSecret hash usedAt))
        (Enroll.commit w record hash usedAt)
  | delete {c w'} : w'.machine = none → TokensStep w c w'

theorem SessionStep.tokens {w w' : World Hash} (h : SessionStep w w') : w'.tokens = w.tokens := by
  cases h with
  | rows => rfl
  | push => simp [pushSessionUpdate, World.read, World.broadcastToOperators]

theorem GetActiveSession.step_tokens {w w' : World Hash} {input : Input} {pc pc' : GetActiveSession}
    (h : pc.step w input = some (w', pc')) : w'.tokens = w.tokens := by
  obtain ⟨clock, sessions, rfl⟩ := step_world h
  rfl

theorem IssueEnrollmentToken.step_tokens [Argon2 Hash] {w w' : World Hash} {input : Input}
    {c : Call Hash} {pc pc' : IssueEnrollmentToken Hash} (h : pc.step w input = some (w', pc')) :
    TokensStep w c w' := by
  cases pc with
  | find | hashing =>
    obtain ⟨rfl, -⟩ := Prod.mk.inj (Option.some.inj h)
    exact .keep rfl
  | found machine =>
    cases machine with
    | false =>
      obtain ⟨rfl, -⟩ := Prod.mk.inj (Option.some.inj h)
      exact .keep rfl
    | true =>
      obtain ⟨w'', hw, he⟩ := Option.map_eq_some_iff.1 h
      obtain ⟨rfl, -⟩ := Prod.mk.inj he
      unfold World.generateSecret at hw
      split_ifs at hw
      obtain rfl := Option.some.inj hw
      exact .keep rfl
  | create =>
    simp only [step] at h
    split at h
    · obtain ⟨rfl, -⟩ := Prod.mk.inj (Option.some.inj h)
      exact .keep rfl
    · split_ifs at h with hid
      obtain ⟨rfl, -⟩ := Prod.mk.inj (Option.some.inj h)
      refine .create _ (fun t ht he => hid ?_) rfl
      exact List.any_eq_true.2 ⟨t, ht, by simpa using he⟩
  | created id =>
    cases id <;> obtain ⟨rfl, -⟩ := Prod.mk.inj (Option.some.inj h) <;> exact .keep rfl
  | done | notFound | failed => cases h

/-- Every step of a call is one of these for the tokens. -/
theorem tokensStep_of_step [Argon2 Hash] {w w' : World Hash} {c c' : Call Hash} {input : Input}
    (h : Server.Step w input c w' c') : TokensStep w c w' := by
  cases h with
  | authenticate h =>
    cases h with
    | query hq => exact .keep (GetActiveSession.step_tokens hq)
    | accept => exact .keep (by simp [Authenticate.accept, World.read, World.onSocket])
    | _ => exact .keep rfl
  | message h =>
    cases h with
    | delete => exact .delete rfl
    | deleted =>
      refine .keep ?_
      unfold World.finalized
      split_ifs <;> simp [World.broadcastToOperators]
    | _ => exact .keep rfl
  | requestDecommission h =>
    cases h with
    | delete => exact .delete rfl
    | query hq => exact .keep (GetActiveSession.step_tokens hq)
    | remove => exact .keep (by simp)
    | redeliver | marked =>
      exact .keep (by simp [RequestDecommission.deliver, World.read, World.broadcastToOperators])
    | _ => exact .keep rfl
  | issueEnrollmentToken h => exact IssueEnrollmentToken.step_tokens h
  | enroll h =>
    cases h with
    | commit hcommits => exact .redeem hcommits
    | _ => exact .keep rfl
  | revokeCredential h =>
    cases h with
    | query hq => exact .keep (GetActiveSession.step_tokens hq)
    | updated => exact .keep (by simp [World.read])
    | _ => exact .keep rfl
  | start h => exact .keep (StartSession.sessionStep h).tokens
  | edit h => exact .keep (EditSession.sessionStep h).tokens

/-- No event touches the tokens. -/
theorem tokens_of_event {w w' : World Hash} {e : Event} {cs : List (Call Hash)}
    (h : Server.EventStep w e w' cs) : w'.tokens = w.tokens := by
  obtain ⟨clock, agentSocket, sockets, rfl⟩ := h.world
  rfl

/-! ## The credential that is handed out -/

/-- The secret that the call hands out, once its transaction has gone through. -/
def Call.handsOut : Call Hash → Option String
  | .enroll (.committed true machineSecret) | .enroll (.done machineSecret) => some machineSecret
  | _ => none

/-- The id of the token that the call has yet to redeem. -/
def Call.tokenId : Call Hash → Option String
  | .enroll (.find tokenId _) => some tokenId
  | .enroll (.found _ (some record)) | .enroll (.verifying _ record) | .enroll (.verified _ record)
  | .enroll (.hashing record _ _) | .enroll (.transaction record _ _ _) => some record.id
  | _ => none

/-- The step of the call takes away the credential that the token was redeemed for: by an enrolment
with another token, a revocation or a deletion. -/
def Call.supersedes (w : World Hash) (tokenId : String) : Call Hash → Bool
  | .revokeCredential (.update _) | .requestDecommission .delete => w.machine.isSome
  | .message _ .finalize => w.machine.any Machine.isPending
  | c => (c.redeems w).any fun record => record.id ≠ tokenId

/-- A transaction finds its token unused. -/
def Call.Unused (w : World Hash) (c : Call Hash) : Prop :=
  ∀ record ∈ c.redeems w, ∀ t ∈ w.tokens, t.id = record.id → t.usedAt.isNone = true

instance (w : World Hash) (c : Call Hash) : Decidable (c.Unused w) :=
  inferInstanceAs (Decidable (∀ record ∈ c.redeems w, _))

/-- For each call, by its place in the pool: the id of the token that it presents, and whether the
credential it has written has been left alone since. -/
structure Redemptions where
  token : ℕ → String
  standing : ℕ → Bool

/-- Nobody has redeemed anything. -/
def Redemptions.none : Redemptions := { token := fun _ => "", standing := fun _ => false }

namespace Server

/-- The redemptions, from step to step. -/
def redemptions (p : Pool (World Hash) (Call Hash)) (label : Pool.Label Event Input) (g : Redemptions) :
    Redemptions :=
  match label with
  | .env (.request (.enroll tokenId _) _) =>
    { g with token := Function.update g.token p.calls.length tokenId }
  | .env _ => g
  | .call i _ =>
    match p.calls[i]? with
    | some c =>
      { g with
        standing := fun j =>
          if j = i ∧ (c.redeems p.world).isSome = true then true
          else g.standing j && !c.supersedes p.world (g.token j) }
    | Option.none => g

/-- Of the calls that present one token, one succeeds at most; and what it hands out is a credential
of the machine for as long as nothing else has changed it since. -/
structure Honoured [Argon2 Hash] (s : Pool (World Hash) (Call Hash) × Redemptions) : Prop where
  once : ∀ i j x y, s.1.calls[i]? = some (.enroll (.done x)) → s.1.calls[j]? = some (.enroll (.done y)) →
    s.2.token i = s.2.token j → i = j
  works : ∀ i x, s.1.calls[i]? = some (.enroll (.done x)) → s.2.standing i = true →
    s.1.world.verifyMachineCredential x = true

/-- The step redeems no token that has been redeemed. -/
def RedeemsUnused (p : Pool (World Hash) (Call Hash)) : Pool.Label Event Input → Prop
  | .call i _ => ∀ c ∈ p.calls[i]?, c.Unused p.world
  | .env _ => True

instance (p : Pool (World Hash) (Call Hash)) : ∀ label, Decidable (RedeemsUnused p label)
  | .call _ _ => inferInstanceAs (Decidable (∀ c ∈ _, _))
  | .env _ => instDecidableTrue

/-- The token with this id is gone with its machine, or it is there and marked used. -/
def Spent (w : World Hash) (id : String) : Prop :=
  w.machine = Option.none ∨
    (∃ t ∈ w.tokens, t.id = id) ∧ ∀ t ∈ w.tokens, t.id = id → t.usedAt.isSome = true

/-- Every token that a call has redeemed is spent, by that call alone, and what it was redeemed for
works as long as it stands. -/
structure Redeemed [Argon2 Hash] (p : Pool (World Hash) (Call Hash)) (g : Redemptions) : Prop where
  presented : ∀ i c, p.calls[i]? = some c → ∀ id ∈ c.tokenId, g.token i = id
  hashed : ∀ record machineSecret hash usedAt,
    .enroll (.transaction record machineSecret hash usedAt) ∈ p.calls →
    ∃ salt, hash = Argon2.hash machineSecret salt
  spent : ∀ i c, p.calls[i]? = some c → c.handsOut.isSome = true → Spent p.world (g.token i)
  once : ∀ i j c d, p.calls[i]? = some c → p.calls[j]? = some d → c.handsOut.isSome = true →
    d.handsOut.isSome = true → g.token i = g.token j → i = j
  works : ∀ i c, p.calls[i]? = some c → ∀ x ∈ c.handsOut, g.standing i = true →
    p.world.verifyMachineCredential x = true

/-- The transaction marks the tokens of its id, and leaves the others. -/
theorem mem_commit_tokens {w : World Hash} {record : EnrollmentToken Hash} {hash : Hash} {usedAt : ℤ}
    {t' : EnrollmentToken Hash} (ht' : t' ∈ (Enroll.commit w record hash usedAt).tokens) :
    ∃ t ∈ w.tokens, t.id = t'.id ∧ if t.id = record.id then t'.usedAt.isSome = true else t' = t := by
  obtain ⟨t, ht, rfl⟩ := List.mem_map.1 ht'
  refine ⟨t, ht, ?_⟩
  split_ifs <;> simp

theorem exists_mem_commit_tokens {w : World Hash} (record : EnrollmentToken Hash) (hash : Hash)
    (usedAt : ℤ) {t : EnrollmentToken Hash} (ht : t ∈ w.tokens) :
    ∃ t' ∈ (Enroll.commit w record hash usedAt).tokens, t'.id = t.id := by
  refine ⟨_, List.mem_map.2 ⟨t, ht, rfl⟩, ?_⟩
  split_ifs <;> rfl

/-- The token that is redeemed is spent. -/
theorem spent_commit {w : World Hash} {record : EnrollmentToken Hash} (h : Enroll.Commits w record)
    (hash : Hash) (usedAt : ℤ) : Spent (Enroll.commit w record hash usedAt) record.id := by
  obtain ⟨t, ht, hid⟩ := List.any_eq_true.1 h.1
  obtain ⟨t', ht', hid'⟩ := exists_mem_commit_tokens record hash usedAt ht
  refine Or.inr ⟨⟨t', ht', hid'.trans (by simpa using hid)⟩, fun t' ht' hid' => ?_⟩
  obtain ⟨t, -, he, hused⟩ := mem_commit_tokens ht'
  rwa [if_pos (he.trans hid')] at hused

/-- A token that is spent stays so. -/
theorem spent_of_step [Argon2 Hash] {w w' : World Hash} {c c' : Call Hash} {input : Input} {id : String}
    (h : Step w input c w' c') (hs : Spent w id) : Spent w' id := by
  rcases hs with hnone | ⟨⟨t, ht, hid⟩, hused⟩
  · exact Or.inl (machine_eq_none_of_step h hnone)
  · cases tokensStep_of_step h with
    | keep he => exact Or.inr (by rw [he]; exact ⟨⟨t, ht, hid⟩, hused⟩)
    | create token hfresh he =>
      refine Or.inr ?_
      rw [he]
      refine ⟨⟨t, List.mem_append_left _ ht, hid⟩, fun t' ht' hid' => ?_⟩
      rcases List.mem_append.1 ht' with hold | hnew
      · exact hused t' hold hid'
      · obtain rfl := List.mem_singleton.1 hnew
        exact absurd (hid.trans hid'.symm) (hfresh t ht)
    | @redeem record _ hash usedAt hcommits =>
      obtain ⟨t₁, ht₁, hid₁⟩ := exists_mem_commit_tokens record hash usedAt ht
      refine Or.inr ⟨⟨t₁, ht₁, hid₁.trans hid⟩, fun t' ht' hid' => ?_⟩
      obtain ⟨t₀, ht₀, he, hmarked⟩ := mem_commit_tokens ht'
      split_ifs at hmarked
      · exact hmarked
      · rw [hmarked]
        exact hused t₀ ht₀ (he.trans hid')
    | delete hnone => exact Or.inl hnone

/-- A call has redeemed its token when its transaction goes through. -/
theorem handsOut_of_step [Argon2 Hash] {w w' : World Hash} {c c' : Call Hash} {input : Input}
    {x : String} (h : Step w input c w' c') (hx : c'.handsOut = some x) :
    (c.handsOut = some x ∧ w' = w) ∨
      ∃ record hash usedAt, c = .enroll (.transaction record x hash usedAt) ∧
        Enroll.Commits w record ∧ w' = Enroll.commit w record hash usedAt := by
  cases h with
  | enroll h =>
    cases h with
    | commit hcommits =>
      obtain rfl := Option.some.inj hx
      exact Or.inr ⟨_, _, _, rfl, hcommits, rfl⟩
    | done => exact Or.inl ⟨hx, rfl⟩
    | _ => cases hx
  | _ => cases hx

theorem tokenId_of_step [Argon2 Hash] {w w' : World Hash} {c c' : Call Hash} {input : Input}
    {id : String} (h : Step w input c w' c') (hid : c'.tokenId = some id) : c.tokenId = some id := by
  cases h with
  | enroll h =>
    cases h with
    | @find tokenId secret =>
      rcases hf : w.tokens.find? (fun token => token.id = tokenId) with _ | record
      · simp [hf, Call.tokenId] at hid
      · have hrecord := List.find?_some hf
        simp_all [Call.tokenId]
    | found | verifying | verified | hashing => exact hid
    | _ => cases hid
  | _ => cases hid

/-- What is verified does not depend on the rest of the row. -/
theorem verify_of_step [Argon2 Hash] {w w' : World Hash} {c c' : Call Hash} {input : Input}
    {id : String} (h : Step w input c w' c') (hredeems : c.redeems w = none) (hs : c.supersedes w id = false)
    (secret : String) : w'.verifyMachineCredential secret = w.verifyMachineCredential secret := by
  have hrow := rowStep_of_step h
  unfold World.verifyMachineCredential
  generalize hw : w.machine = row, hw' : w'.machine = row' at hrow
  cases hrow with
  | keep | heartbeat | mark => rfl
  | enrolled =>
    cases h with
    | enroll h =>
      cases h with
      | commit hcommits => simp [Call.redeems, hcommits] at hredeems
      | rollback => rw [← hw', hw]
  | revoked => simp [Call.supersedes, hw] at hs
  | deleted => simp [Call.supersedes, hw] at hs
  | finalized hp => simp [Call.supersedes, hw, hp] at hs

/-- A transaction that finds its token unused redeems one that nobody has redeemed. -/
theorem Redeemed.fresh [Argon2 Hash] {p : Pool (World Hash) (Call Hash)} {g : Redemptions}
    (hp : Redeemed p g) {record : EnrollmentToken Hash} (hcommits : Enroll.Commits p.world record)
    (hunused : ∀ t ∈ p.world.tokens, t.id = record.id → t.usedAt.isNone = true) {i : ℕ} {c : Call Hash}
    (hc : p.calls[i]? = some c) (hs : c.handsOut.isSome = true) : g.token i ≠ record.id := by
  intro hid
  rcases hp.spent i c hc hs with hnone | ⟨⟨t, ht, he⟩, hused⟩
  · exact absurd hcommits.2 (by simp [hnone])
  · have hmarked := hused t ht he
    have hnot := hunused t ht (he.trans hid)
    rw [Option.isNone_iff_eq_none.1 hnot] at hmarked
    cases hmarked

/-- The credential that a transaction writes is the one that is handed out. -/
theorem verify_commit [Argon2 Hash] {w : World Hash} {record : EnrollmentToken Hash}
    (h : Enroll.Commits w record) {hash : Hash} {machineSecret : String} {salt : ℕ}
    (hhash : hash = Argon2.hash machineSecret salt) (usedAt : ℤ) :
    (Enroll.commit w record hash usedAt).verifyMachineCredential machineSecret = true := by
  obtain ⟨m, hm⟩ := Option.isSome_iff_exists.1 h.2
  have hverify : Argon2.verify (Argon2.hash machineSecret salt : Hash) machineSecret = true :=
    (Argon2.verify_hash_iff _ _ _).2 rfl
  simp [World.verifyMachineCredential, Enroll.commit, hm, Machine.enrolled, verifySecret, hhash, hverify]

/-- A step of one call leaves another call's credential as it is, as long as that stands. -/
theorem Redeemed.verify_of_ne [Argon2 Hash] {p : Pool (World Hash) (Call Hash)} {g : Redemptions}
    (hp : Redeemed p g) {input : Input} {c c' : Call Hash} {w : World Hash} (hu : c.Unused p.world)
    (h : Step p.world input c w c') {i : ℕ} {d : Call Hash} (hd : p.calls[i]? = some d) {x : String}
    (hx : d.handsOut = some x) (hstands : g.standing i = true)
    (hs : c.supersedes p.world (g.token i) = false) : w.verifyMachineCredential x = true := by
  rcases hr : c.redeems p.world with _ | record
  · rw [verify_of_step h hr hs]
    exact hp.works i d hd x hx hstands
  · obtain ⟨hcommits, machineSecret, hash, usedAt, rfl⟩ := Call.redeems_eq_some.1 hr
    have hfresh := hp.fresh hcommits (hu record hr) hd (by simp [hx])
    simp [Call.supersedes, hr, Ne.symm hfresh] at hs

/-- A call that is there keeps its token. -/
theorem token_of_lt (p : Pool (World Hash) (Call Hash)) (e : Event) (g : Redemptions) {i : ℕ}
    (hi : i < p.calls.length) : (redemptions p (.env e) g).token i = g.token i := by
  unfold redemptions
  split
  · exact Function.update_of_ne hi.ne _ _
  · rfl
  · rename_i heq
    cases heq

theorem standing_of_event (p : Pool (World Hash) (Call Hash)) (e : Event) (g : Redemptions) :
    (redemptions p (.env e) g).standing = g.standing := by
  unfold redemptions
  split
  · rfl
  · rfl
  · rename_i heq
    cases heq

/-- A call that starts has redeemed nothing. -/
theorem Made.handsOut {c : Call Hash} (h : Made c) : c.handsOut = none := by
  cases h <;> rfl

/-- A call that starts with a token is the one that the token is recorded for. -/
theorem presented_of_event {p : Pool (World Hash) (Call Hash)} {w : World Hash} {e : Event}
    {cs : List (Call Hash)} (h : EventStep p.world e w cs) (g : Redemptions) {i : ℕ} {c : Call Hash}
    (hc : cs[i]? = some c) {id : String} (hid : c.tokenId = some id) :
    (redemptions p (.env e) g).token (p.calls.length + i) = id := by
  have hmem := List.mem_of_getElem? hc
  cases h with
  | @connect k secret => cases secret <;> simp_all [Server.connect, Call.tokenId]
  | receive =>
    obtain rfl := List.mem_singleton.1 hmem
    cases hid
  | drop | hangUp | disconnect => cases hmem
  | @request r wait =>
    obtain rfl := List.mem_singleton.1 hmem
    obtain rfl : i = 0 := by
      have hlt := (List.getElem?_eq_some_iff.1 hc).1
      simpa using hlt
    cases r with
    | enroll tokenId secret =>
      obtain rfl : tokenId = id := Option.some.inj hid
      simp [redemptions]
    | _ => cases hid

theorem Redeemed.event [Argon2 Hash] {p : Pool (World Hash) (Call Hash)} {g : Redemptions}
    (hp : Redeemed p g) {e : Event} {w : World Hash} {cs : List (Call Hash)}
    (h : EventStep p.world e w cs) : Redeemed ⟨w, p.calls ++ cs⟩ (redemptions p (.env e) g) := by
  -- Whoever has redeemed something was there before.
  have hcases {i : ℕ} {c : Call Hash} (hc : (p.calls ++ cs)[i]? = some c)
      (hs : c.handsOut.isSome = true) : i < p.calls.length ∧ p.calls[i]? = some c := by
    rcases Pool.getElem?_append_cases hc with hold | ⟨j, -, hnew⟩
    · exact hold
    · have hnone := (made_of_event h c (List.mem_of_getElem? hnew)).handsOut
      simp [hnone] at hs
  have hspent : ∀ id, Spent p.world id → Spent w id := by
    intro id hs
    unfold Spent at hs ⊢
    rwa [event_machine h, tokens_of_event h]
  refine ⟨?_, ?_, ?_, ?_, ?_⟩
  · intro i c hc id hid
    rcases Pool.getElem?_append_cases hc with ⟨hi, hold⟩ | ⟨j, rfl, hnew⟩
    · rw [token_of_lt p e g hi]
      exact hp.presented i c hold id hid
    · exact presented_of_event h g hnew hid
  · intro record machineSecret hash usedAt hc
    rcases List.mem_append.1 hc with hold | hnew
    · exact hp.hashed record machineSecret hash usedAt hold
    · cases made_of_event h _ hnew
  · intro i c hc hs
    obtain ⟨hi, hold⟩ := hcases hc hs
    rw [token_of_lt p e g hi]
    exact hspent _ (hp.spent i c hold hs)
  · intro i j c d hc hd hs hs' he
    obtain ⟨hi, hold⟩ := hcases hc hs
    obtain ⟨hj, hold'⟩ := hcases hd hs'
    rw [token_of_lt p e g hi, token_of_lt p e g hj] at he
    exact hp.once i j c d hold hold' hs hs' he
  · intro i c hc x hx hstands
    obtain ⟨-, hold⟩ := hcases hc (by rw [hx]; rfl)
    rw [standing_of_event] at hstands
    unfold World.verifyMachineCredential
    rw [event_machine h]
    exact hp.works i c hold x hx hstands

theorem Redeemed.call [Argon2 Hash] {p : Pool (World Hash) (Call Hash)} {g : Redemptions}
    (hp : Redeemed p g) {j : ℕ} {input : Input} {c c' : Call Hash} {w : World Hash}
    (hc : p.calls[j]? = some c) (hu : c.Unused p.world) (h : Step p.world input c w c') :
    Redeemed ⟨w, p.calls.set j c'⟩ (redemptions p (.call j input) g) := by
  have htoken : (redemptions p (.call j input) g).token = g.token := by
    unfold redemptions
    simp only [hc]
  have hstanding (i : ℕ) : (redemptions p (.call j input) g).standing i =
      if i = j ∧ (c.redeems p.world).isSome = true then true
      else g.standing i && !c.supersedes p.world (g.token i) := by
    unfold redemptions
    simp only [hc]
  have hlt : j < p.calls.length := (List.getElem?_eq_some_iff.1 hc).1
  refine ⟨?_, ?_, ?_, ?_, ?_⟩
  · intro i d hd id hid
    rw [htoken]
    rcases Pool.getElem?_set_cases hd with ⟨rfl, rfl⟩ | ⟨-, hd⟩
    · exact hp.presented i c hc id (tokenId_of_step h hid)
    · exact hp.presented i d hd id hid
  · intro record machineSecret hash usedAt hd
    rcases Pool.mem_set_cases hd with rfl | hd
    · cases h with
      | enroll h =>
        cases h with
        | hashing => exact ⟨_, rfl⟩
    · exact hp.hashed record machineSecret hash usedAt hd
  · intro i d hd hs
    rw [htoken]
    rcases Pool.getElem?_set_cases hd with ⟨rfl, rfl⟩ | ⟨-, hd⟩
    · obtain ⟨x, hx⟩ := Option.isSome_iff_exists.1 hs
      rcases handsOut_of_step h hx with ⟨hold, rfl⟩ | ⟨record, hash, usedAt, rfl, hcommits, rfl⟩
      · exact hp.spent i c hc (by simp [hold])
      · rw [hp.presented i _ hc record.id rfl]
        exact spent_commit hcommits hash usedAt
    · exact spent_of_step h (hp.spent i d hd hs)
  · have hnew : ∀ i d, i ≠ j → p.calls[i]? = some d → d.handsOut.isSome = true →
        c'.handsOut.isSome = true → g.token i ≠ g.token j := by
      intro i d hij hd hs hs' he
      obtain ⟨x, hx⟩ := Option.isSome_iff_exists.1 hs'
      rcases handsOut_of_step h hx with ⟨hold, -⟩ | ⟨record, hash, usedAt, rfl, hcommits, -⟩
      · exact hij (hp.once i j d c hd hc hs (by simp [hold]) he)
      · exact hp.fresh hcommits (hu record (if_pos hcommits)) hd hs
          (he.trans (hp.presented j _ hc record.id rfl))
    intro i i' d d' hd hd' hs hs' he
    rw [htoken] at he
    rcases Pool.getElem?_set_cases hd with ⟨rfl, rfl⟩ | ⟨hi, hold⟩
    · rcases Pool.getElem?_set_cases hd' with ⟨rfl, -⟩ | ⟨hi', hold'⟩
      · rfl
      · exact absurd he.symm (hnew i' d' hi' hold' hs' hs)
    · rcases Pool.getElem?_set_cases hd' with ⟨rfl, rfl⟩ | ⟨hi', hold'⟩
      · exact absurd he (hnew i d hi hold hs hs')
      · exact hp.once i i' d d' hold hold' hs hs' he
  · intro i d hd x hx hstands
    rw [hstanding] at hstands
    rcases Pool.getElem?_set_cases hd with ⟨rfl, rfl⟩ | ⟨hi, hd⟩
    · rcases handsOut_of_step h hx with ⟨hold, rfl⟩ | ⟨record, hash, usedAt, rfl, hcommits, rfl⟩
      · have hr : c.redeems p.world = none := by
          rcases hr : c.redeems p.world with _ | record
          · rfl
          · obtain ⟨-, _, _, _, rfl⟩ := Call.redeems_eq_some.1 hr
            cases hold
        simp only [hr, Option.isSome_none, Bool.false_eq_true, and_false, if_false,
          Bool.and_eq_true] at hstands
        exact hp.works i c hc x hold hstands.1
      · obtain ⟨salt, hhash⟩ := hp.hashed _ _ _ _ (List.mem_of_getElem? hc)
        exact verify_commit hcommits hhash usedAt
    · simp only [hi, false_and, if_false, Bool.and_eq_true, Bool.not_eq_true'] at hstands
      exact hp.verify_of_ne hu h hd hx hstands.1 hstands.2

theorem Redeemed.step [Argon2 Hash] {s t : Pool (World Hash) (Call Hash) × Redemptions}
    {label : Pool.Label Event Input} (hs : Redeemed s.1 s.2) (hu : RedeemsUnused s.1 label)
    (h : annotated next redemptions s label = some t) : Redeemed t.1 t.2 := by
  obtain ⟨q, hq, rfl⟩ := annotated_eq_some.1 h
  cases Pool.next_iff.1 hq with
  | env he => exact hs.event (event_cases he)
  | call hc hstep => exact hs.call hc (hu _ hc) (step_cases hstep)

/-- However the calls interleave, as long as each transaction finds its token unused: of the calls
that present one token, one succeeds at most, and the secret that a call returns is the machine's
credential until an enrolment with another token, a revocation or a deletion. -/
theorem enrolments_honoured [Argon2 Hash] {w : World Hash} {es : List (Pool.Label Event Input)}
    (hu : Along (annotated next redemptions) (fun s label => RedeemsUnused s.1 label)
      (⟨w, []⟩, Redemptions.none) es)
    {s : Pool (World Hash) (Call Hash) × Redemptions}
    (h : run (annotated next redemptions) (⟨w, []⟩, Redemptions.none) es = some s) : Honoured s := by
  have hstart : Redeemed (⟨w, []⟩ : Pool (World Hash) (Call Hash)) Redemptions.none :=
    ⟨by simp, by simp, by simp, by simp, by simp⟩
  have hs : Redeemed s.1 s.2 :=
    run_invariant_along (I := fun s => Redeemed s.1 s.2) (fun _ _ _ hs hu h => hs.step hu h) hstart hu h
  exact ⟨fun i j x y hi hj he => hs.once i j _ _ hi hj rfl rfl he, fun i x hi => hs.works i _ hi x rfl⟩

/-- A token that is redeemed, and then presented again. -/
def presentedAgain : List (Pool.Label Event Input) :=
  let go (i : ℕ) : Pool.Label Event Input := .call i ⟨0, 0, "s2", "", 0⟩
  [.env (.request (.enroll "t1" "s1") 0), go 0, go 0, go 0, go 0, go 0, go 0, go 0,
    .env (.request (.enroll "t1" "s1") 0), go 1, go 1]

theorem enrolments_honoured_presentedAgain :
    ∃ s, run (annotated next redemptions) ((⟨invited, []⟩, Redemptions.none) :
      Pool (World PlainHash) (Call PlainHash) × Redemptions) presentedAgain = some s ∧ Honoured s :=
  ⟨_, rfl, @enrolments_honoured _ _ invited presentedAgain (by decide) _ rfl⟩

/-- A token that two calls present at once: both read it before either redeems it. -/
def presentedTwice : List (Pool.Label Event Input) :=
  let go (i : ℕ) : Pool.Label Event Input := .call i ⟨0, 0, "s2", "", 0⟩
  let come (i : ℕ) : Pool.Label Event Input := .call i ⟨0, 0, "s3", "", 0⟩
  [.env (.request (.enroll "t1" "s1") 0), .env (.request (.enroll "t1" "s1") 0), go 0, come 1, go 0,
    come 1, go 0, come 1, go 0, come 1, go 0, come 1, go 0, go 0, come 1, come 1]

/-- Both succeed, and the secret that the first has handed out has never been taken back, but does
not work. -/
theorem token_redeemed_twice :
    ∃ s, run (annotated next redemptions) ((⟨invited, []⟩, Redemptions.none) :
      Pool (World PlainHash) (Call PlainHash) × Redemptions) presentedTwice = some s ∧ ¬ Honoured s ∧
      s.1.calls[0]? = some (.enroll (.done "s2")) ∧ s.2.standing 0 = true ∧
      s.1.world.verifyMachineCredential "s2" = false := by
  refine ⟨_, rfl, fun h => ?_, rfl, rfl, rfl⟩
  have hsame : 0 = 1 := h.once 0 1 _ _ rfl rfl rfl
  cases hsame

end Server

end Taymna.Api
