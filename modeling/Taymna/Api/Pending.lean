import Taymna.Api.Sockets

/-!
# A removal that has been requested

`Pended` says that the removal is requested, or has been completed by an acknowledgement. Once it
holds it goes on to hold, unless a forced delete hits the row while it is pending.
-/

namespace Taymna.Api

open Automata

variable {Hash : Type*}

/-- The run handles an acknowledgement. -/
def HandleMessage.acknowledges : HandleMessage Hash → Bool
  | .finalize | .deleted _ | .finalized _ => true
  | _ => false

/-- The call handles an acknowledgement that came on socket `k`. -/
def Call.acknowledges (k : ℕ) : Call Hash → Bool
  | .message client pc => client = k && pc.acknowledges
  | _ => false

/-- The acknowledgement that the call handles has deleted the row. -/
def Call.removedRow : Call Hash → Bool
  | .message _ (.deleted count) | .message _ (.finalized count) => count = 1
  | _ => false

/-- The `deleteMany` of the acknowledgement that the call handles has run. -/
def Call.acknowledged : Call Hash → Bool
  | .message _ (.deleted _) | .message _ (.finalized _) => true
  | _ => false

theorem Call.eq_finalized_of_returned {c : Call Hash} (hr : c.returned = true) {k : ℕ}
    (ha : c.acknowledges k = true) : ∃ count, c = .message k (.finalized count) := by
  cases c with
  | message client pc =>
    obtain ⟨rfl, hpc⟩ : client = k ∧ pc.acknowledges = true := by
      simpa [Call.acknowledges] using ha
    cases pc with
    | finalized count => exact ⟨count, rfl⟩
    | finalize | deleted => cases hr
    | heartbeat | beaten | ignored | failed => cases hpc
  | _ => cases ha

theorem Call.eq_finalized_of_removedRow {c : Call Hash} (hr : c.returned = true)
    (hc : c.removedRow = true) : ∃ k, c = .message k (.finalized 1) := by
  cases c with
  | message client pc =>
    cases pc with
    | finalized count =>
      obtain rfl : count = 1 := by simpa [Call.removedRow] using hc
      exact ⟨client, rfl⟩
    | deleted => cases hr
    | heartbeat | finalize | beaten | ignored | failed => cases hc
  | _ => cases hc

/-- The row is there, and its removal is requested. -/
def World.Pending (w : World Hash) : Prop := ∃ m, w.machine = some m ∧ m.isPending = true

instance (w : World Hash) : Decidable w.Pending :=
  decidable_of_iff (w.machine.any Machine.isPending = true) (Option.any_eq_true _ _)

namespace Server

/-- The removal is requested, or an acknowledgement has completed it. -/
def Pended (p : Pool (World Hash) (Call Hash)) : Prop :=
  p.world.Pending ∨ p.world.machine = none ∧ ∃ c ∈ p.calls, c.removedRow = true

/-- A step that deletes the row by force finds it not pending. -/
def Unforced (p : Pool (World Hash) (Call Hash)) (j : ℕ) : Prop :=
  p.calls[j]? = some (.requestDecommission .delete) → ¬ p.world.Pending

instance [DecidableEq Hash] (p : Pool (World Hash) (Call Hash)) (j : ℕ) : Decidable (Unforced p j) :=
  inferInstanceAs (Decidable (_ → _))

theorem removedRow_of_step [Argon2 Hash] {w w' : World Hash} {c c' : Call Hash} {input : Input}
    (h : Step w input c w' c') (hc : c.removedRow = true) : c'.removedRow = true := by
  cases h with
  | message h =>
    cases h with
    | deleted => exact hc
    | heartbeat | failed | beaten | delete | deleteNone => cases hc
  | authenticate | requestDecommission | issueEnrollmentToken | enroll | revokeCredential | start
  | edit => cases hc

theorem Pended.event {p : Pool (World Hash) (Call Hash)} (hp : Pended p) {e : Event} {w : World Hash}
    {cs : List (Call Hash)} (h : EventStep p.world e w cs) : Pended ⟨w, p.calls ++ cs⟩ := by
  have hrow := event_machine h
  rcases hp with ⟨m, hm, hpend⟩ | ⟨hnone, c, hc, hdel⟩
  · exact Or.inl ⟨m, hrow.trans hm, hpend⟩
  · exact Or.inr ⟨hrow.trans hnone, c, List.mem_append_left _ hc, hdel⟩

theorem Pended.call [Argon2 Hash] {p : Pool (World Hash) (Call Hash)} (hp : Pended p) {j : ℕ}
    {input : Input} {c c' : Call Hash} {w : World Hash} (hc : p.calls[j]? = some c)
    (hu : Unforced p j) (h : Step p.world input c w c') : Pended ⟨w, p.calls.set j c'⟩ := by
  have hrow := rowStep_of_step h
  rcases hp with ⟨m, hm, hpend⟩ | ⟨hnone, hdel⟩
  · rw [hm] at hrow
    generalize hw : w.machine = row at hrow
    cases hrow with
    | keep => exact Or.inl ⟨m, hw, hpend⟩
    | heartbeat | enrolled | revoked => exact Or.inl ⟨_, hw, hpend⟩
    | mark => exact Or.inl ⟨_, hw, rfl⟩
    | deleted => exact absurd ⟨m, hm, hpend⟩ (hu hc)
    | finalized =>
      refine Or.inr ⟨hw, c', List.mem_set (List.getElem?_eq_some_iff.1 hc).1 c', ?_⟩
      cases h with
      | message h =>
        cases h with
        | delete => rfl
        | deleteNone hno => exact absurd hpend (by simp [hno m hm])
  · exact Or.inr ⟨machine_eq_none_of_step h hnone, Pool.exists_mem_set hc (removedRow_of_step h) hdel⟩

/-- A call sees that the removal is requested by reading the row, or by marking it. -/
theorem sawPending_of_step [Argon2 Hash] {w w' : World Hash} {c c' : Call Hash} {input : Input}
    (h : Step w input c w' c') (hs : c'.sawPending = true) : w'.Pending := by
  cases h with
  | authenticate h =>
    cases h with
    | pending => exact (Option.any_eq_true _ _).1 hs
    | _ => cases hs
  | requestDecommission h =>
    cases h with
    | find =>
      cases hm : w.machine with
      | none => simp [Call.sawPending, hm] at hs
      | some m => exact ⟨m, hm, by simpa [Call.sawPending, hm] using hs⟩
    | @mark now =>
      cases hm : w.machine with
      | none => simp [Call.sawPending, hm] at hs
      | some m => exact ⟨m.mark now, by simp [World.updateMachine, hm], rfl⟩
    | _ => cases hs
  | message | issueEnrollmentToken | enroll | revokeCredential | start | edit => cases hs

/-- No event starts a call that has already seen the row. -/
theorem Made.sawPending {c : Call Hash} (h : Made c) : c.sawPending = false := by
  cases h <;> rfl

/-- A call that handles an acknowledgement has done so from its start. -/
theorem acknowledges_of_step [Argon2 Hash] {w w' : World Hash} {c c' : Call Hash} {input : Input}
    (h : Step w input c w' c') (k : ℕ) : c'.acknowledges k = c.acknowledges k := by
  cases h with
  | message h => cases h <;> rfl
  | authenticate | requestDecommission | issueEnrollmentToken | enroll | revokeCredential | start
  | edit => rfl

/-- It is started by an acknowledgement that finds its socket's listener. -/
theorem acknowledges_of_event {w w' : World Hash} {e : Event} {cs : List (Call Hash)}
    (h : EventStep w e w' cs) {c : Call Hash} (hc : c ∈ cs) {k : ℕ} (ha : c.acknowledges k = true) :
    ∃ wait, e = .receive k .decommissionAck wait := by
  cases h with
  | @connect k secret => cases secret <;> simp_all [Server.connect, Call.acknowledges]
  | @receive k' frame wait =>
    obtain rfl := List.mem_singleton.1 hc
    cases frame with
    | decommissionAck =>
      obtain rfl : k' = k := by simpa [Call.acknowledges, HandleMessage.start,
        HandleMessage.acknowledges] using ha
      exact ⟨wait, rfl⟩
    | heartbeat | other => simp [Call.acknowledges, HandleMessage.start,
        HandleMessage.acknowledges] at ha
  | drop | hangUp | disconnect => simp at hc
  | @request r wait => cases r <;> simp_all [Server.request, Call.acknowledges]

/-- No event runs a `deleteMany`. -/
theorem acknowledged_of_event {w w' : World Hash} {e : Event} {cs : List (Call Hash)}
    (h : EventStep w e w' cs) : ∀ c ∈ cs, c.acknowledged = false := by
  cases h with
  | @connect k secret => cases secret <;> simp [Server.connect, Call.acknowledged]
  | @receive k frame => cases frame <;> simp [Call.acknowledged, HandleMessage.start]
  | drop | hangUp | disconnect => simp
  | @request r wait => cases r <;> simp [Server.request, Call.acknowledged]

/-- What is found by the `deleteMany` of an acknowledgement is gone after it. -/
theorem machine_eq_none_of_acknowledged [Argon2 Hash] {p : Pool (World Hash) (Call Hash)}
    (hp : ∀ c ∈ p.calls, ∀ k, c.acknowledges k = true → Pended p)
    (hd : ∀ c ∈ p.calls, c.acknowledged = true → p.world.machine = none) {j : ℕ} {input : Input}
    {c c' : Call Hash} {w : World Hash} (hc : p.calls[j]? = some c) (h : Step p.world input c w c') :
    ∀ d ∈ p.calls.set j c', d.acknowledged = true → w.machine = none := by
  have hnone : p.world.machine = none → w.machine = none := machine_eq_none_of_step h
  intro d hdm hda
  rcases Pool.mem_set_cases hdm with rfl | hdm
  · cases h with
    | @message k _ _ _ h =>
      cases h with
      | delete => rfl
      | deleteNone hno =>
        rcases hp _ (List.mem_of_getElem? hc) k (by simp [Call.acknowledges, HandleMessage.acknowledges])
          with ⟨m, hm, hpend⟩ | ⟨hn, -⟩
        · exact absurd hpend (by simp [hno m hm])
        · exact hn
      | deleted => exact hnone (hd _ (List.mem_of_getElem? hc) rfl)
      | heartbeat | failed | beaten => cases hda
    | authenticate | requestDecommission | issueEnrollmentToken | enroll | revokeCredential | start
    | edit => cases hda
  · exact hnone (hd d hdm hda)

end Server

end Taymna.Api
