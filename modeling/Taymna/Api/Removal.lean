import Taymna.Api.MachineRow

/-!
# When a machine's row is deleted

A row may be deleted because nobody can use its credential, or because the agent has acknowledged.
Both decisions are made on what was read or received a while before the delete. `InOrder` says which
interleavings keep what they were made on true, and in every run that meets it, each delete is
right.
-/

namespace Taymna.Api

open Automata

variable {Hash : Type*}

/-- The call has read an unusable credential, and goes on to delete the row whatever happens. -/
def Call.doomed : Call Hash → Bool
  | .requestDecommission (.found (some m)) => !m.hasUsableCredential
  | .requestDecommission .delete => true
  | _ => false

/-- The call has received an acknowledgement, and has not yet run its `deleteMany`. -/
def Call.finalizing : Call Hash → Bool
  | .message _ .finalize => true
  | _ => false

/-- What a call may not do while these others are in progress: an enrolment does not commit under a
call that is going to delete the row, and a removal is not first marked under an acknowledgement
that has already been received. -/
def Call.InOrder (w : World Hash) (cs : List (Call Hash)) : Call Hash → Prop
  | .enroll (.transaction record _ _ _) =>
    Enroll.Commits w record → cs.all (fun c => !c.doomed) = true
  | .requestDecommission (.mark _) =>
    w.machine.any (fun m => !m.isPending) = true → cs.all (fun c => !c.finalizing) = true
  | _ => True

instance (w : World Hash) (cs : List (Call Hash)) (c : Call Hash) : Decidable (c.InOrder w cs) := by
  unfold Call.InOrder
  split <;> infer_instance

namespace Server

/-- For each call, by its place in the pool: whether the row was pending when its frame arrived. -/
def receipts (p : Pool (World Hash) (Call Hash)) (label : Pool.Label Event Input) (g : ℕ → Bool) :
    ℕ → Bool :=
  match label with
  | .env (.receive _ _ _) =>
    Function.update g p.calls.length (p.world.machine.any Machine.isPending)
  | _ => g

/-- A call that is already there keeps its record. -/
theorem receipts_of_lt (p : Pool (World Hash) (Call Hash)) (label : Pool.Label Event Input)
    (g : ℕ → Bool) {i : ℕ} (hi : i < p.calls.length) : receipts p label g i = g i := by
  unfold receipts
  split
  · exact Function.update_of_ne hi.ne _ _
  · rfl

/-- If this step deletes the row, then its credential is unusable, or it is the delete of an
acknowledgement that was received while the removal was requested. -/
def DeletesRightly [Argon2 Hash] (s : Pool (World Hash) (Call Hash) × (ℕ → Bool))
    (label : Pool.Label Event Input) : Prop :=
  ∀ q m, next s.1 label = some q → s.1.world.machine = some m → q.world.machine = none →
    m.credentialHash = none ∨ m.credentialRevokedAt.isSome = true ∨
      ∃ i input k, label = .call i input ∧ s.1.calls[i]? = some (.message k .finalize) ∧ s.2 i = true

/-- The step keeps what the calls in progress have been decided on. -/
def InOrder (p : Pool (World Hash) (Call Hash)) : Pool.Label Event Input → Prop
  | .call i _ => ∀ c ∈ p.calls[i]?, c.InOrder p.world p.calls
  | .env _ => True

instance (p : Pool (World Hash) (Call Hash)) : ∀ label, Decidable (InOrder p label)
  | .call _ _ => inferInstanceAs (Decidable (∀ c ∈ _, _))
  | .env _ => instDecidableTrue

/-- What the decisions in progress were made on still holds. -/
structure Guarded (p : Pool (World Hash) (Call Hash)) (g : ℕ → Bool) : Prop where
  doomed : ∀ c ∈ p.calls, c.doomed = true →
    ∀ m, p.world.machine = some m → m.hasUsableCredential = false
  received : ∀ i c, p.calls[i]? = some c → c.finalizing = true →
    ∀ m, p.world.machine = some m → m.isPending = true → g i = true

/-- A call becomes doomed by reading an unusable credential. -/
theorem doomed_of_step [Argon2 Hash] {w w' : World Hash} {c c' : Call Hash} {input : Input}
    (h : Step w input c w' c') (hd : c'.doomed = true) :
    w'.machine = w.machine ∧
      (c.doomed = true ∨ ∃ m, w.machine = some m ∧ m.hasUsableCredential = false) := by
  cases h with
  | requestDecommission h =>
    cases h with
    | find =>
      refine ⟨rfl, Or.inr ?_⟩
      rcases Option.eq_none_or_eq_some w.machine with hm | ⟨m, hm⟩
      · simp [Call.doomed, hm] at hd
      · exact ⟨m, hm, by simpa [Call.doomed, hm] using hd⟩
    | remove hu => exact ⟨by simp, Or.inl (by simp [Call.doomed, hu])⟩
    | notFound | redeliver | request | delete | deleteFailed | removed | deleteRejected | mark
    | markRejected | marked | query | done => cases hd
  | authenticate | message | issueEnrollmentToken | enroll | revokeCredential | start | edit => cases hd

/-- No step of a call brings it to its `deleteMany`: it starts there. -/
theorem finalizing_of_step [Argon2 Hash] {w w' : World Hash} {c c' : Call Hash} {input : Input}
    (h : Step w input c w' c') : c'.finalizing = false := by
  cases h with
  | message h => cases h <;> rfl
  | authenticate | requestDecommission | issueEnrollmentToken | enroll | revokeCredential | start
  | edit => rfl

/-- A call that starts is not doomed. -/
theorem Made.doomed {c : Call Hash} (h : Made c) : c.doomed = false := by
  cases h <;> rfl

/-- An acknowledgement is waiting for its `deleteMany` as soon as it is received. -/
theorem finalizing_of_event {w w' : World Hash} {e : Event} {cs : List (Call Hash)}
    (h : EventStep w e w' cs) {c : Call Hash} (hc : c ∈ cs) (hf : c.finalizing = true) :
    ∃ k frame wait, e = .receive k frame wait ∧ cs = [c] := by
  cases h with
  | @connect k secret => cases secret <;> simp_all [Server.connect, Call.finalizing]
  | receive => exact ⟨_, _, _, rfl, by rw [List.mem_singleton.1 hc]⟩
  | drop | hangUp | disconnect => simp at hc
  | @request r wait => cases r <;> simp_all [Server.request, Call.finalizing]

/-- An enrolment touches the row only when its transaction goes through. -/
theorem commits_of_step [Argon2 Hash] {w w' : World Hash} {input : Input} {c' : Call Hash}
    {record : EnrollmentToken Hash} {machineSecret : String} {hash : Hash} {usedAt : ℤ}
    (h : Step w input (.enroll (.transaction record machineSecret hash usedAt)) w' c')
    (hne : w'.machine ≠ w.machine) : Enroll.Commits w record := by
  cases h with
  | enroll h =>
    cases h with
    | commit hc => exact hc
    | rollback => exact absurd rfl hne

theorem Guarded.event {p : Pool (World Hash) (Call Hash)} {g : ℕ → Bool} (hg : Guarded p g) {e : Event}
    {w : World Hash} {cs : List (Call Hash)} (h : EventStep p.world e w cs) :
    Guarded ⟨w, p.calls ++ cs⟩ (receipts p (.env e) g) := by
  have hrow := event_machine h
  refine ⟨fun c hc hd m hm => ?_, fun i c hc hf m hm hp => ?_⟩
  · rcases List.mem_append.1 hc with hc | hc
    · exact hg.doomed c hc hd m (hrow ▸ hm)
    · exact absurd hd (by simp [(made_of_event h c hc).doomed])
  · replace hm : p.world.machine = some m := hrow ▸ hm
    rcases Pool.getElem?_append_cases hc with ⟨hlt, hold⟩ | ⟨j, rfl, hnew⟩
    · rw [receipts_of_lt p _ g hlt]
      exact hg.received i c hold hf m hm hp
    · obtain ⟨k, frame, wait, rfl, rfl⟩ := finalizing_of_event h (List.mem_of_getElem? hnew) hf
      have hlt := (List.getElem?_eq_some_iff.1 hnew).1
      rw [List.length_singleton] at hlt
      obtain rfl : j = 0 := by omega
      simp [receipts, hm, hp]

theorem Guarded.call [Argon2 Hash] {p : Pool (World Hash) (Call Hash)} {g : ℕ → Bool}
    (hg : Guarded p g) {i : ℕ} {input : Input} {c c' : Call Hash} {w : World Hash}
    (hc : p.calls[i]? = some c) (ho : c.InOrder p.world p.calls) (h : Step p.world input c w c') :
    Guarded ⟨w, p.calls.set i c'⟩ g := by
  have hrow := rowStep_of_step h
  have hmem := List.mem_of_getElem? hc
  refine ⟨fun d hd hdoom m hm => ?_, fun j d hd hf m hm hp => ?_⟩
  · rcases Pool.mem_set_cases hd with rfl | hd
    · obtain ⟨hsame, hdoom | ⟨m', hm', hu⟩⟩ := doomed_of_step h hdoom
      · exact hg.doomed c hmem hdoom m (hsame ▸ hm)
      · obtain rfl : m' = m := Option.some.inj (hm'.symm.trans (hsame ▸ hm))
        exact hu
    · have hold := hg.doomed d hd hdoom
      by_cases hsame : w.machine = p.world.machine
      · exact hold m (hsame ▸ hm)
      generalize hw : p.world.machine = row at hrow hold
      dsimp only at hm
      rw [hm] at hrow
      cases hrow with
      | keep => exact hold m rfl
      | @heartbeat _ m => exact hold m rfl
      | @mark _ m => exact hold m rfl
      | enrolled =>
        have hall := ho (commits_of_step h hsame)
        exact absurd hdoom (by simpa using List.all_eq_true.1 hall d hd)
      | revoked => rfl
  · rcases Pool.getElem?_set_cases hd with ⟨-, rfl⟩ | ⟨-, hd⟩
    · exact absurd hf (by simp [finalizing_of_step h])
    have hold := hg.received j d hd hf
    generalize hw : p.world.machine = row at hrow hold
    dsimp only at hm
    rw [hm] at hrow
    cases hrow with
    | keep => exact hold m rfl hp
    | heartbeat => exact hold _ rfl hp
    | @mark _ m =>
      rcases hpend : m.isPending with _ | _
      · have hall := ho (by simp [hw, hpend])
        exact absurd hf (by simpa using List.all_eq_true.1 hall d (List.mem_of_getElem? hd))
      · exact hold m rfl hpend
    | enrolled => exact hold _ rfl hp
    | revoked => exact hold _ rfl hp

theorem Guarded.step [Argon2 Hash] {s t : Pool (World Hash) (Call Hash) × (ℕ → Bool)}
    {label : Pool.Label Event Input} (hg : Guarded s.1 s.2) (ho : InOrder s.1 label)
    (h : annotated next receipts s label = some t) : Guarded t.1 t.2 := by
  obtain ⟨q, hq, rfl⟩ := annotated_eq_some.1 h
  cases Pool.next_iff.1 hq with
  | env he => exact hg.event (event_cases he)
  | call hc hs => exact hg.call hc (ho _ hc) (step_cases hs)

theorem Guarded.deletesRightly [Argon2 Hash] {s : Pool (World Hash) (Call Hash) × (ℕ → Bool)}
    (hg : Guarded s.1 s.2) (label : Pool.Label Event Input) : DeletesRightly s label := by
  intro q m hq hm hnone
  obtain ⟨p, g⟩ := s
  cases Pool.next_iff.1 hq with
  | env he =>
    rw [event_machine (event_cases he)] at hnone
    exact absurd (hm.symm.trans hnone) (by simp)
  | @call i input c w' c' hc hs =>
    have hrow := rowStep_of_step (step_cases hs)
    dsimp only at hm hnone
    rw [hm, hnone] at hrow
    cases hrow with
    | deleted =>
      have hu := hg.doomed _ (List.mem_of_getElem? hc) rfl m hm
      rcases hh : m.credentialHash with _ | hash
      · exact Or.inl rfl
      · refine Or.inr (Or.inl ?_)
        simpa [Machine.hasUsableCredential, hh, ← Option.not_isSome] using hu
    | @finalized k _ hp =>
      exact Or.inr (Or.inr ⟨i, input, k, rfl, hc, hg.received i _ hc rfl m hm hp⟩)

/-- However the calls interleave, as long as the steps are in order: a machine's row is deleted only
when its credential is unusable, or for an acknowledgement received while its removal was
requested. -/
theorem row_deleted_rightly [Argon2 Hash] (w : World Hash) {es : List (Pool.Label Event Input)}
    (ho : Along (annotated next receipts) (fun s label => InOrder s.1 label)
      (⟨w, []⟩, fun _ => false) es) :
    Along (annotated next receipts) (fun s label => DeletesRightly s label) (⟨w, []⟩, fun _ => false) es :=
  along_of_invariant (I := fun s => Guarded s.1 s.2) (fun _ _ _ hg ho hstep => hg.step ho hstep)
    (fun _ label hg _ => hg.deletesRightly label) ⟨by simp, by simp⟩ ho

/-- A removal of an enrolled machine, up to its acknowledgement. -/
def removal : List (Pool.Label Event Input) :=
  let go (i : ℕ) : Pool.Label Event Input := .call i ⟨0, 0, "", "", 0⟩
  [.env (.request .requestDecommission 0), go 0, go 0, go 0, go 0,
    .env (.connect 0 (some "s1")), go 1, go 1, go 1, go 1, .env (.receive 0 .decommissionAck 0), go 2]

/-- The row of that machine. -/
def enrolledWorld : World PlainHash :=
  { World.created 0 with machine := some (Machine.created.enrolled ⟨"s1"⟩) }

theorem row_deleted_rightly_removal :
    Along (annotated next receipts) (fun s label => DeletesRightly s label)
      (⟨enrolledWorld, []⟩, fun _ => false) removal :=
  row_deleted_rightly enrolledWorld (by decide)

/-- A removal that reads the row before an enrolment commits, and deletes it after. -/
def overtaken : List (Pool.Label Event Input) :=
  let go (i : ℕ) : Pool.Label Event Input := .call i ⟨0, 0, "s2", "", 0⟩
  [.env (.request .requestDecommission 0), .env (.request (.enroll "t1" "s1") 0), go 0, go 0, go 1,
    go 1, go 1, go 1, go 1, go 1, go 1]

/-- A machine with an enrolment token, and no credential yet. -/
def invited : World PlainHash :=
  { World.created 0 with tokens := [⟨"t1", ⟨"s1"⟩, 1000, none⟩] }

/-- The machine that was enrolled in between is deleted with its new credential. -/
theorem enrolment_deleted_by_removal :
    ¬ Along (annotated next receipts) (fun s label => DeletesRightly s label)
      (⟨invited, []⟩, fun _ => false) (overtaken ++ [.call 0 ⟨0, 0, "", "", 0⟩]) := by
  intro h
  have hlast := (along_cons_iff.1 ((along_append_iff.1 h).2 _ rfl)).1
  rcases hlast _ _ rfl rfl rfl with hc | hr | ⟨i, input, k, hl, hc, -⟩
  · cases hc
  · cases hr
  · cases hl
    cases hc

end Server

end Taymna.Api
