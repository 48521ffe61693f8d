import Taymna.Api.Pending
import Taymna.Api.Registry
import Taymna.Api.Removal

/-!
# A removal reaches the agent that connects

A removal is marked in the row before the registry is asked for the agent, and an agent is
registered before the row is asked for a removal. So whichever comes first, one of the two calls
sees the other: as long as the row is pending, the socket that is registered has been told to
relinquish control, or some call that is still in progress is going to tell it (`Instructed`). -/

namespace Taymna.Api

open Automata

variable {Hash : Type*}

/-- A `decommission` has been put on the socket. -/
def Socket.Told (s : Socket) : Prop := ∃ serverTime, .message (.decommission serverTime) ∈ s.sent

/-- The call is going to tell socket `k`, if it is registered and the row is pending. -/
def Call.willTell (k : ℕ) : Call Hash → Bool
  | .authenticate client (.heartbeat _) | .authenticate client .pending => client = k
  | .authenticate client (.pendingFound machine) => client = k && machine.any Machine.isPending
  | .requestDecommission (.marked (some _)) => true
  | _ => false

/-- The call is a request for the removal, or authenticates an agent. -/
def Call.instructs : Call Hash → Bool
  | .authenticate _ _ | .requestDecommission _ => true
  | _ => false

namespace Server

/-- The socket that is registered has been told of the removal, or will be. -/
structure Instructed (p : Pool (World Hash) (Call Hash)) : Prop where
  opened : Opened p
  gone : ∀ k, .authenticate k (.heartbeat (.updated none)) ∈ p.calls → p.world.machine = none
  told : p.world.Pending → ∀ k, p.world.agentSocket = some k →
    (p.world.sockets k).readyState = .opened → (p.world.sockets k).Told ∨ ∃ c ∈ p.calls, c.willTell k

theorem told_mono {s s' : Socket} (h : s.sent <+: s'.sent) (hs : s.Told) : s'.Told := by
  obtain ⟨serverTime, hmem⟩ := hs
  exact ⟨serverTime, h.mem hmem⟩

theorem told_send {s : Socket} (h : s.readyState = .opened) (serverTime : ℤ) :
    (s.send (.decommission serverTime)).Told := by
  refine ⟨serverTime, ?_⟩
  unfold Socket.send
  rw [if_pos h]
  exact List.mem_append_right _ (List.mem_singleton_self _)

/-- A call that is going to tell the socket has done so after its step, or is still going to. -/
theorem willTell_of_step [Argon2 Hash] {w w' : World Hash} {c c' : Call Hash} {input : Input} {k : ℕ}
    (h : Step w input c w' c')
    (hgone : ∀ k, c = .authenticate k (.heartbeat (.updated none)) → w.machine = none)
    (hc : c.willTell k = true) (hp : w'.Pending) (hk : w'.agentSocket = some k)
    (ho : (w'.sockets k).readyState = .opened) :
    (w'.sockets k).Told ∨ c'.willTell k = true := by
  cases h with
  | @authenticate client pc _ pc' h =>
    cases h with
    | heartbeat | beaten => exact Or.inr hc
    | failed =>
      obtain ⟨m, hm, -⟩ := hp
      rw [hgone client rfl] at hm
      cases hm
    | pending =>
      obtain ⟨m, hm, hpend⟩ := hp
      have hclient : client = k := by simpa [Call.willTell] using hc
      exact Or.inr (by simp [Call.willTell, hclient, hm, hpend])
    | tell =>
      obtain ⟨rfl, -⟩ : client = k ∧ _ := by simpa [Call.willTell] using hc
      rw [World.onSocket_sockets, if_pos rfl] at ho ⊢
      exact Or.inl (told_send (by simpa using ho) _)
    | managed hno => simp [Call.willTell, hno] at hc
    | find | unknown | revoked | found | verifying | reject | accept | query | push => cases hc
  | requestDecommission h =>
    cases h with
    | @marked m =>
      have hreg : w.agentSocket = some k := by simpa [RequestDecommission.deliver] using hk
      refine Or.inl ?_
      simp only [RequestDecommission.deliver, World.read_sockets, World.sendToMachine_sockets,
        World.read_agentSocket, World.broadcastToOperators_agentSocket,
        World.broadcastToOperators_sockets, hreg, if_true] at ho ⊢
      exact told_send (by simpa using ho) _
    | find | notFound | remove | redeliver | request | delete | deleteFailed | removed
    | deleteRejected | mark | markRejected | query | done => cases hc
  | message | issueEnrollmentToken | enroll | revokeCredential | start | edit => cases hc

/-- The row becomes pending by a request that goes on to tell whoever is registered. -/
theorem willTell_of_pending [Argon2 Hash] {w w' : World Hash} {c c' : Call Hash} {input : Input}
    (h : Step w input c w' c') (hp : w'.Pending) (hno : ¬ w.Pending) (k : ℕ) :
    c'.willTell k = true := by
  obtain ⟨m', hm', hpend⟩ := hp
  have hrow := rowStep_of_step h
  rw [hm'] at hrow
  generalize hw : w.machine = row at hrow
  cases hrow with
  | keep => exact absurd ⟨m', hw, hpend⟩ hno
  | heartbeat | enrolled | revoked => exact absurd ⟨_, hw, hpend⟩ hno
  | mark =>
    cases h with
    | requestDecommission h =>
      cases h with
      | mark => simp [hw, Call.willTell]

theorem Instructed.event {p : Pool (World Hash) (Call Hash)} (hp : Instructed p) {e : Event}
    {w : World Hash} {cs : List (Call Hash)} (h : EventStep p.world e w cs) :
    Instructed ⟨w, p.calls ++ cs⟩ where
  opened := hp.opened.event h
  gone k hc := by
    rw [event_machine h]
    rcases List.mem_append.1 hc with hold | hnew
    · exact hp.gone k hold
    · obtain ⟨_, _, hpc, _⟩ := authenticate_of_event h hnew
      cases hpc
  told hpend k hk ho := by
    have hk' := agentSocket_of_event h hk
    have hsame := socket_eq_of_event h (hp.opened.registered k hk') ho
    have hpend' : p.world.Pending := by
      obtain ⟨m, hm, hm'⟩ := hpend
      exact ⟨m, (event_machine h).symm.trans hm, hm'⟩
    dsimp only at ho ⊢
    rw [hsame] at ho ⊢
    refine (hp.told hpend' k hk' ho).imp_right fun ⟨c, hc, hwill⟩ => ?_
    exact ⟨c, List.mem_append_left _ hc, hwill⟩

theorem Instructed.call [Argon2 Hash] {p : Pool (World Hash) (Call Hash)} (hp : Instructed p) {j : ℕ}
    {input : Input} {c c' : Call Hash} {w : World Hash} (hc : p.calls[j]? = some c)
    (h : Step p.world input c w c') : Instructed ⟨w, p.calls.set j c'⟩ where
  opened := hp.opened.call hc h
  gone k hd := by
    rcases Pool.mem_set_cases hd with rfl | hd
    · cases h with
      | authenticate h =>
        generalize hpc : Authenticate.heartbeat (.updated none) = pc' at h
        cases h with
        | heartbeat =>
          obtain hnone : p.world.machine = none := by simpa using hpc.symm
          simp [World.updateMachine, hnone]
        | accept => cases hpc
        | _ => cases hpc
    · exact machine_eq_none_of_step h (hp.gone k hd)
  told hpend k hk ho := by
    have hlt : j < p.calls.length := (List.getElem?_eq_some_iff.1 hc).1
    have hkept := (registryStep_of_step h).kept k
    by_cases hold : p.world.Pending
    · rcases agentSocket_of_step h hk with hk' | rfl
      · rcases hp.told hold k hk' (hkept.opened ho) with htold | ⟨d, hd, hwill⟩
        · exact Or.inl (told_mono hkept.sent htold)
        · by_cases hcwill : c.willTell k = true
          · have hgone : ∀ k, c = .authenticate k (.heartbeat (.updated none)) →
                p.world.machine = none :=
              fun k hk => hp.gone k (hk ▸ List.mem_of_getElem? hc)
            rcases willTell_of_step h hgone hcwill hpend hk ho with htold | hwill'
            · exact Or.inl htold
            · exact Or.inr ⟨c', List.mem_set hlt c', hwill'⟩
          · exact Or.inr (Pool.exists_mem_set hc (fun hcw => absurd hcw hcwill) ⟨d, hd, hwill⟩)
      · -- The socket has just been registered, and its heartbeat and the look at the row come after.
        cases h with
        | authenticate h =>
          cases h with
          | accept => exact Or.inr ⟨_, List.mem_set hlt _, by simp [Authenticate.accept, Call.willTell]⟩
    · exact Or.inr ⟨c', List.mem_set hlt c', willTell_of_pending h hpend hold k⟩

theorem Instructed.next [Argon2 Hash] {p q : Pool (World Hash) (Call Hash)}
    {label : Pool.Label Event Input} (hp : Instructed p) (h : Server.next p label = some q) :
    Instructed q := by
  cases Pool.next_iff.1 h with
  | env he => exact hp.event (event_cases he)
  | call hc hs => exact hp.call hc (step_cases hs)

/-- Nobody is connected, and nothing is in progress. -/
theorem instructed_of_agentSocket_eq_none {w : World Hash} (hw : w.agentSocket = none) :
    Instructed (⟨w, []⟩ : Pool (World Hash) (Call Hash)) :=
  ⟨opened_of_agentSocket_eq_none hw, by simp, by simp [hw]⟩

/-- However the calls interleave, from a moment at which nobody is connected: once the requests for
the removal and the runs of `authenticateAgent` have returned, the socket that is registered and
open has been told to relinquish control if the row is pending. -/
theorem registered_agent_told [Argon2 Hash] {w : World Hash} (hw : w.agentSocket = none)
    {es : List (Pool.Label Event Input)} {p : Pool (World Hash) (Call Hash)}
    (h : run Server.next ⟨w, []⟩ es = some p)
    (hret : ∀ c ∈ p.calls, c.instructs = true → c.returned = true) (hpend : p.world.Pending) {k : ℕ}
    (hk : p.world.agentSocket = some k) (ho : (p.world.sockets k).readyState = .opened) :
    (p.world.sockets k).Told := by
  have hp : Instructed p :=
    run_invariant (fun _ _ _ hp h => hp.next h) (instructed_of_agentSocket_eq_none hw) h
  rcases hp.told hpend k hk ho with htold | ⟨c, hc, hwill⟩
  · exact htold
  · -- A call that is still going to tell somebody has not returned.
    have hreturned := hret c hc
    cases c with
    | authenticate client pc => cases pc <;> first | cases hwill | cases hreturned rfl
    | requestDecommission pc => cases pc <;> first | cases hwill | cases hreturned rfl
    | message | issueEnrollmentToken | enroll | revokeCredential | start | edit => cases hwill

/-- A removal that is marked between the agent's look at the row and its answer. -/
def meeting : List (Pool.Label Event Input) :=
  let go (i : ℕ) : Pool.Label Event Input := .call i ⟨0, 0, "", "", 0⟩
  [.env (.connect 0 (some "s1")), go 0, go 0, go 0, go 0, .env (.request .requestDecommission 0),
    go 1, go 0, go 1, go 0, go 0, go 1, go 0, go 1, go 0, go 1, go 0, go 1, go 0, go 1, go 0, go 1]

theorem registered_agent_told_meeting :
    ∃ p, run next (⟨enrolledWorld, []⟩ : Pool (World PlainHash) (Call PlainHash)) meeting = some p ∧
      p.world.Pending ∧ (p.world.sockets 0).Told :=
  ⟨_, rfl, by decide,
    @registered_agent_told _ _ enrolledWorld rfl meeting _ rfl (by decide) (by decide) 0 rfl rfl⟩

end Server

end Taymna.Api
