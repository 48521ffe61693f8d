import Taymna.Api.Sockets

/-!
# Where the machine's secrets come from

Every call of `enroll` that gets that far draws a machine secret of its own, and the row only ever
holds the hash of one of them.
-/

namespace Taymna.Api

open Automata

variable {Hash : Type*}

/-- The secret that a call of `enroll` has drawn for the machine. -/
def Enroll.machineSecret : Enroll Hash → Option String
  | .hashing _ machineSecret _ => some machineSecret
  | .transaction _ machineSecret _ _ => some machineSecret
  | .committed _ machineSecret => some machineSecret
  | .done machineSecret => some machineSecret
  | _ => none

def Call.machineSecret : Call Hash → Option String
  | .enroll pc => pc.machineSecret
  | _ => none

theorem SessionStep.secrets {w w' : World Hash} (h : SessionStep w w') : w'.secrets = w.secrets := by
  cases h with
  | rows => rfl
  | push => simp [pushSessionUpdate]

theorem GetActiveSession.step_secrets {w w' : World Hash} {input : Input} {pc pc' : GetActiveSession}
    (h : pc.step w input = some (w', pc')) : w'.secrets = w.secrets := by
  obtain ⟨clock, sessions, rfl⟩ := step_world h
  rfl

namespace Server

/-- A step draws one new secret, or none. -/
theorem secrets_of_step [Argon2 Hash] {w w' : World Hash} {c c' : Call Hash} {input : Input}
    (h : Step w input c w' c') :
    w'.secrets = w.secrets ∨ w'.secrets = input.secret :: w.secrets := by
  cases h with
  | authenticate h =>
    refine Or.inl ?_
    cases h with
    | accept => simp [Authenticate.accept]
    | query hq => exact GetActiveSession.step_secrets hq
    | _ => rfl
  | message h =>
    refine Or.inl ?_
    cases h with
    | deleted =>
      unfold World.finalized
      split_ifs <;> simp
    | _ => rfl
  | requestDecommission h =>
    refine Or.inl ?_
    cases h with
    | remove => simp
    | redeliver | marked => simp [RequestDecommission.deliver]
    | query hq => exact GetActiveSession.step_secrets hq
    | _ => rfl
  | issueEnrollmentToken h =>
    obtain ⟨clock, tokens, rfl | ⟨-, rfl⟩⟩ := IssueEnrollmentToken.step_world h
    · exact Or.inl rfl
    · exact Or.inr rfl
  | enroll h =>
    cases h with
    | verified => exact Or.inr rfl
    | _ => exact Or.inl rfl
  | revokeCredential h =>
    refine Or.inl ?_
    cases h with
    | updated => simp
    | query hq => exact GetActiveSession.step_secrets hq
    | _ => rfl
  | start h => exact Or.inl (StartSession.sessionStep h).secrets
  | edit h => exact Or.inl (EditSession.sessionStep h).secrets

theorem mem_secrets_of_step [Argon2 Hash] {w w' : World Hash} {c c' : Call Hash} {input : Input}
    (h : Step w input c w' c') {secret : String} (hs : secret ∈ w.secrets) : secret ∈ w'.secrets := by
  rcases secrets_of_step h with he | he <;> simp [he, hs]

/-- A secret that a call has drawn is new, and from then on it is the call's own. -/
theorem machineSecret_of_step [Argon2 Hash] {w w' : World Hash} {c c' : Call Hash} {input : Input}
    (h : Step w input c w' c') {secret : String} (hc : c'.machineSecret = some secret) :
    c.machineSecret = some secret ∨ secret ∉ w.secrets ∧ secret ∈ w'.secrets := by
  cases h with
  | enroll h =>
    cases h with
    | verified hfresh =>
      obtain rfl := Option.some.inj hc
      exact Or.inr ⟨hfresh, List.mem_cons_self⟩
    | hashing | commit | rollback | done => exact Or.inl hc
    | find | unknown | used | expired | found | verifying | wrong | failed => cases hc
  | authenticate | message | requestDecommission | issueEnrollmentToken | revokeCredential | start
  | edit => cases hc

theorem Made.machineSecret {c : Call Hash} (h : Made c) : c.machineSecret = none := by
  cases h <;> rfl

theorem secrets_of_event {w w' : World Hash} {e : Event} {cs : List (Call Hash)}
    (h : EventStep w e w' cs) : w'.secrets = w.secrets := by
  obtain ⟨clock, agentSocket, sockets, rfl⟩ := h.world
  rfl

/-! ## The row's hash -/

/-- The row's credential, if there is one, is the hash of a secret, and every enrolment in flight
will write one. -/
structure Hashed [Argon2 Hash] (p : Pool (World Hash) (Call Hash)) : Prop where
  row : ∀ m hash, p.world.machine = some m → m.credentialHash = some hash →
    ∃ secret salt, hash = Argon2.hash secret salt
  calls : ∀ record machineSecret hash usedAt,
    .enroll (.transaction record machineSecret hash usedAt) ∈ p.calls →
    ∃ salt, hash = Argon2.hash machineSecret salt

theorem Hashed.event [Argon2 Hash] {p : Pool (World Hash) (Call Hash)} (hp : Hashed p) {e : Event}
    {w : World Hash} {cs : List (Call Hash)} (h : EventStep p.world e w cs) :
    Hashed ⟨w, p.calls ++ cs⟩ where
  row m hash hm hh := hp.row m hash ((event_machine h).symm.trans hm) hh
  calls record machineSecret hash usedAt hc := by
    rcases List.mem_append.1 hc with hc | hc
    · exact hp.calls _ _ _ _ hc
    · cases made_of_event h _ hc

theorem Hashed.call [Argon2 Hash] {p : Pool (World Hash) (Call Hash)} (hp : Hashed p) {j : ℕ}
    {input : Input} {c c' : Call Hash} {w : World Hash} (hc : p.calls[j]? = some c)
    (h : Step p.world input c w c') : Hashed ⟨w, p.calls.set j c'⟩ where
  row m hash hm hh := by
    have hrow := rowStep_of_step h
    have hold := hp.row
    generalize p.world.machine = row at hrow hold
    dsimp only at hm
    rw [hm] at hrow
    cases hrow with
    | keep => exact hold m hash rfl hh
    | @heartbeat _ m => exact hold m hash rfl hh
    | @mark _ m => exact hold m hash rfl hh
    | enrolled =>
      obtain rfl := Option.some.inj hh
      obtain ⟨salt, hsalt⟩ := hp.calls _ _ _ _ (List.mem_of_getElem? hc)
      exact ⟨_, salt, hsalt⟩
    | revoked => cases hh
  calls record machineSecret hash usedAt hd := by
    rcases Pool.mem_set_cases hd with rfl | hd
    · cases h with
      | enroll h =>
        cases h with
        | hashing => exact ⟨_, rfl⟩
    · exact hp.calls _ _ _ _ hd

end Server

end Taymna.Api
