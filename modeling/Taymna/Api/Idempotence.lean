import Mathlib.Algebra.Order.BigOperators.Group.List
import Taymna.Api.Announcements
import Taymna.Api.Removal
import Taymna.Api.Pending

/-!
# A removal takes effect once

`requestDecommission` reads the row, and marks it in a later step if it was not marked when it was
read. As long as no call marks a row that another has marked in between, the row keeps the time of
the first request, is deleted by an acknowledgement alone, and each of the two broadcasts about the
removal is made once. `Tallied` is the account that is kept: what has been broadcast and what the
calls in progress are about to broadcast add up to what has become of the row.
-/

namespace Taymna.Api

open Automata

variable {Hash : Type*}

/-- The removal of the machine has been requested, or completed. -/
def World.requested (w : World Hash) : Bool := w.machine.all Machine.isPending

/-- How often the operators have to be told, by what has become of the row. -/
def World.due (w : World Hash) : ServerToOperatorMessage → ℕ
  | .machineDecommissioning => if w.requested then 1 else 0
  | .machineRemoved => if w.machine.isNone then 1 else 0
  | .machineUpdated _ _ _ | .sessionUpdated _ => 0

/-- The credential in the row, if it is there, is one that can be used. -/
def World.Usable (w : World Hash) : Prop := w.machine.all Machine.hasUsableCredential = true

instance (w : World Hash) : Decidable w.Usable := inferInstanceAs (Decidable (_ = true))

/-- The step of the call marks the row. -/
def Call.marks : Call Hash → Bool
  | .requestDecommission (.mark _) => true
  | _ => false

/-- A call that marks the row finds it as it has read it: not marked. -/
def Call.Fresh (w : World Hash) (c : Call Hash) : Prop := c.marks = true → ¬ w.Pending

instance (w : World Hash) (c : Call Hash) : Decidable (c.Fresh w) := inferInstanceAs (Decidable (_ → _))

/-- The call has found the removal requested, or has requested it. -/
def Call.reported : Call Hash → Bool
  | .requestDecommission (.found (some m)) => m.isPending
  | .requestDecommission (.marked (some _)) | .requestDecommission (.toDto _ _)
  | .requestDecommission (.decommissioning _) => true
  | _ => false

/-- How often the call is about to broadcast the message. -/
def Call.owes (m : ServerToOperatorMessage) (c : Call Hash) : ℤ := c.announcement.toList.count m

namespace Server

/-- What idempotence asks of one step: a request that has been made keeps its time, a
row that is gone stays so, and it is deleted for an acknowledgement of a request. -/
structure RemovesOnce [Argon2 Hash] (p : Pool (World Hash) (Call Hash))
    (label : Pool.Label Event Input) :
    Prop where
  kept : ∀ q m m', next p label = some q → p.world.machine = some m → m.isPending = true →
    q.world.machine = some m' → m'.decommissionRequestedAt = m.decommissionRequestedAt
  gone : ∀ q, next p label = some q → p.world.machine = none → q.world.machine = none
  deleted : ∀ q m, next p label = some q → p.world.machine = some m → q.world.machine = none →
    m.isPending = true ∧ ∃ i input k, label = .call i input ∧ p.calls[i]? = some (.message k .finalize)

/-- What it asks of the broadcasts about the removal, from `w` to the pool. -/
structure Announced (w : World Hash) (p : Pool (World Hash) (Call Hash)) : Prop where
  /-- None is made more often than the row gives reason to. -/
  le_due : ∀ m, m.aboutRemoval = true →
    p.world.operators.count m + w.due m ≤ w.operators.count m + p.world.due m
  /-- Each has been made once all calls have returned. -/
  eq_due : (∀ c ∈ p.calls, c.returned = true) → ∀ m, m.aboutRemoval = true →
    p.world.operators.count m + w.due m = w.operators.count m + p.world.due m
  /-- There is a reason once a request has been answered. -/
  requested : ∀ dto, .requestDecommission (.decommissioning dto) ∈ p.calls → p.world.requested = true

/-- The step marks no row that another call has marked. -/
def MarksFresh (p : Pool (World Hash) (Call Hash)) : Pool.Label Event Input → Prop
  | .call i _ => ∀ c ∈ p.calls[i]?, c.Fresh p.world
  | .env _ => True

instance (p : Pool (World Hash) (Call Hash)) : ∀ label, Decidable (MarksFresh p label)
  | .call _ _ => inferInstanceAs (Decidable (∀ c ∈ _, _))
  | .env _ => instDecidableTrue

/-- The account of the broadcasts about the removal. -/
structure Tallied (w : World Hash) (p : Pool (World Hash) (Call Hash)) : Prop where
  doomed : ∀ c ∈ p.calls, c.doomed = false
  tally : ∀ m, m.aboutRemoval = true →
    (p.world.operators.count m : ℤ) + (p.calls.map (Call.owes m)).sum + w.due m =
      w.operators.count m + p.world.due m
  reported : ∀ c ∈ p.calls, c.reported = true → p.world.requested = true

/-- Once requested, a removal is not taken back. -/
theorem requested_of_step [Argon2 Hash] {w w' : World Hash} {c c' : Call Hash} {input : Input}
    (h : Step w input c w' c') (hw : w.requested = true) : w'.requested = true := by
  have hrow := rowStep_of_step h
  unfold World.requested at hw ⊢
  generalize w.machine = row, w'.machine = row' at hrow hw
  cases hrow with
  | keep | heartbeat | enrolled | revoked => exact hw
  | mark => rfl
  | deleted | finalized => rfl

/-- A call reports what it has read or done. -/
theorem reported_of_step [Argon2 Hash] {w w' : World Hash} {c c' : Call Hash} {input : Input}
    (h : Step w input c w' c') (hc : c'.reported = true) : c.reported = true ∨ w'.requested = true := by
  cases h with
  | requestDecommission h =>
    cases h with
    | find =>
      refine Or.inr ?_
      cases hm : w.machine with
      | none => simp [World.requested, hm]
      | some m => simpa [World.requested, Call.reported, hm] using hc
    | mark =>
      refine Or.inr ?_
      cases hm : w.machine with
      | none => simp [World.requested, World.updateMachine, hm]
      | some m => simp [World.requested, World.updateMachine, hm, Machine.isPending, Machine.mark]
    | redeliver hu hp => exact Or.inl hp
    | marked | query | done => exact Or.inl rfl
    | notFound | remove | request | delete | deleteFailed | removed | deleteRejected | markRejected =>
      cases hc
  | authenticate | message | issueEnrollmentToken | enroll | revokeCredential | start | edit => cases hc

/-- No event starts a call that has something to report. -/
theorem Made.reported {c : Call Hash} (h : Made c) : c.reported = false := by
  cases h <;> rfl

/-- What the operators have to be told does not depend on the rest of the row. -/
theorem due_eq_of_map {w w' : World Hash} (f : Machine Hash → Machine Hash)
    (hmachine : w'.machine = w.machine.map f) (hf : ∀ m, (f m).isPending = m.isPending)
    (m : ServerToOperatorMessage) : w'.due m = w.due m := by
  have hrequested : w'.requested = w.requested := by
    rw [World.requested, World.requested, hmachine, Option.all_map]
    exact congrArg w.machine.all (funext hf)
  cases m <;> simp only [World.due, hrequested, hmachine, Option.isNone_map]

/-- A call is about to broadcast what has just become of the row. -/
theorem owes_of_step [Argon2 Hash] {w w' : World Hash} {c c' : Call Hash} {input : Input}
    (h : Step w input c w' c') (hdoomed : c.doomed = false) (hfresh : c.Fresh w)
    {m : ServerToOperatorMessage} (hm : m.aboutRemoval = true) :
    c'.owes m = (w'.due m : ℤ) - w.due m := by
  have quiet (hc : c'.announcement = none) (f : Machine Hash → Machine Hash)
      (hmachine : w'.machine = w.machine.map f) (hf : ∀ m, (f m).isPending = m.isPending) :
      c'.owes m = (w'.due m : ℤ) - w.due m := by
    rw [due_eq_of_map f hmachine hf, Call.owes, hc]
    simp
  have keep (hc : c'.announcement = none) (hmachine : w'.machine = w.machine) :
      c'.owes m = (w'.due m : ℤ) - w.due m :=
    quiet hc id (by simpa using hmachine) fun _ => rfl
  cases h with
  | requestDecommission h =>
    cases h with
    | mark =>
      rcases Option.eq_none_or_eq_some w.machine with hw | ⟨row, hw⟩
      · exact keep (by simp [Call.announcement, hw]) (by simp [World.updateMachine, hw])
      · have hno : row.isPending = false := by
          simpa [World.Pending, hw] using hfresh rfl
        have hmark (now : ℤ) : (row.mark now).isPending = true := rfl
        cases m with
        | machineDecommissioning =>
          simp [Call.owes, Call.announcement, World.due, World.requested, World.updateMachine, hw, hno,
            hmark]
        | machineRemoved =>
          simp [Call.owes, Call.announcement, World.due, World.updateMachine, hw]
        | machineUpdated | sessionUpdated => cases hm
    | delete => cases hdoomed
    | query hq => exact keep rfl (GetActiveSession.step_machine hq)
    | remove => exact keep rfl (by simp)
    | redeliver | marked => exact keep rfl (by simp [RequestDecommission.deliver])
    | find | notFound | request | deleteFailed | removed | deleteRejected | markRejected | done =>
      exact keep rfl rfl
  | message h =>
    cases h with
    | delete hw hp =>
      cases m with
      | machineDecommissioning =>
        simp [Call.owes, Call.announcement, World.due, World.requested, hw, hp]
      | machineRemoved => simp [Call.owes, Call.announcement, World.due, hw]
      | machineUpdated | sessionUpdated => cases hm
    | heartbeat => exact quiet rfl _ rfl fun _ => rfl
    | deleted =>
      refine keep rfl ?_
      unfold World.finalized
      split_ifs <;> simp
    | deleteNone | failed | beaten => exact keep rfl rfl
  | authenticate h =>
    cases h with
    | heartbeat => exact quiet rfl _ rfl fun _ => rfl
    | query hq => exact keep rfl (GetActiveSession.step_machine hq)
    | accept => exact keep rfl (by simp [Authenticate.accept])
    | find | unknown | revoked | found | verifying | reject | failed | beaten | pending | tell
    | managed | push => exact keep rfl rfl
  | issueEnrollmentToken h =>
    obtain ⟨clock, tokens, rfl | ⟨-, rfl⟩⟩ := IssueEnrollmentToken.step_world h <;>
      exact keep rfl rfl
  | enroll h =>
    cases h with
    | commit => exact quiet rfl _ rfl fun _ => rfl
    | find | unknown | used | expired | found | verifying | wrong | verified | hashing | rollback
    | done | failed => exact keep rfl rfl
  | revokeCredential h =>
    cases h with
    | update => exact quiet rfl _ rfl fun _ => rfl
    | query hq => exact keep rfl (GetActiveSession.step_machine hq)
    | updated => exact keep rfl (by simp)
    | rejected | done => exact keep rfl rfl
  | start h => exact keep rfl (StartSession.sessionStep h).machine
  | edit h => exact keep rfl (EditSession.sessionStep h).machine

theorem Tallied.event {w : World Hash} {p : Pool (World Hash) (Call Hash)} (hp : Tallied w p)
    {e : Event} {w' : World Hash} {cs : List (Call Hash)} (h : EventStep p.world e w' cs) :
    Tallied w ⟨w', p.calls ++ cs⟩ where
  doomed c hc := (List.mem_append.1 hc).elim (hp.doomed c) fun hc => (made_of_event h c hc).doomed
  tally m hm := by
    have hnew : cs.map (Call.owes m) = cs.map fun _ => 0 :=
      List.map_congr_left fun c hc => by simp [Call.owes, (made_of_event h c hc).announcement]
    have hdue : w'.due m = p.world.due m :=
      due_eq_of_map id (by simpa using event_machine h) (fun _ => rfl) m
    rw [List.map_append, List.sum_append, hnew, operators_of_event h, hdue]
    simpa using hp.tally m hm
  reported c hc hr := by
    have hrequested : w'.requested = p.world.requested := by
      rw [World.requested, World.requested, event_machine h]
    dsimp only
    rw [hrequested]
    rcases List.mem_append.1 hc with hold | hnew
    · exact hp.reported c hold hr
    · exact absurd hr (by simp [(made_of_event h c hnew).reported])

theorem Tallied.call [Argon2 Hash] {w : World Hash} {p : Pool (World Hash) (Call Hash)}
    (hp : Tallied w p) (husable : p.world.Usable) {j : ℕ} {input : Input} {c c' : Call Hash}
    {w' : World Hash} (hc : p.calls[j]? = some c) (hfresh : c.Fresh p.world)
    (h : Step p.world input c w' c') : Tallied w ⟨w', p.calls.set j c'⟩ where
  doomed d hd := by
    rcases Pool.mem_set_cases hd with rfl | hd
    · by_contra hdoomed
      obtain ⟨-, hold | ⟨m, hm, hunusable⟩⟩ := doomed_of_step h (by simpa using hdoomed)
      · exact absurd hold (by simp [hp.doomed c (List.mem_of_getElem? hc)])
      · have hu : m.hasUsableCredential = true := by simpa [World.Usable, hm] using husable
        simp [hu] at hunusable
    · exact hp.doomed d hd
  tally m hm := by
    have hcount := (tells_of_step h).count_eq hm
    have howes := owes_of_step h (hp.doomed c (List.mem_of_getElem? hc)) hfresh hm
    have htally := hp.tally m hm
    rw [Pool.sum_map_set (Call.owes m) hc c', howes, hcount, Call.owes]
    push_cast
    omega
  reported d hd hr := by
    rcases Pool.mem_set_cases hd with rfl | hd
    · rcases reported_of_step h hr with hold | hnew
      · exact requested_of_step h (hp.reported c (List.mem_of_getElem? hc) hold)
      · exact hnew
    · exact requested_of_step h (hp.reported d hd hr)

theorem Tallied.step [Argon2 Hash] {w : World Hash} {p q : Pool (World Hash) (Call Hash)}
    {label : Pool.Label Event Input} (hp : Tallied w p) (husable : p.world.Usable)
    (hfresh : MarksFresh p label) (h : next p label = some q) : Tallied w q := by
  cases Pool.next_iff.1 h with
  | env he => exact hp.event (event_cases he)
  | call hc hs => exact hp.call husable hc (hfresh _ hc) (step_cases hs)

theorem Tallied.removesOnce [Argon2 Hash] {w : World Hash} {p : Pool (World Hash) (Call Hash)}
    (hp : Tallied w p) {label : Pool.Label Event Input} (hfresh : MarksFresh p label) :
    RemovesOnce p label where
  kept q m m' hq hm hpend hm' := by
    cases Pool.next_iff.1 hq with
    | env he =>
      have hsame : some m' = some m := hm'.symm.trans ((event_machine (event_cases he)).trans hm)
      rw [Option.some.inj hsame]
    | call hc hs =>
      have hrow := rowStep_of_step (step_cases hs)
      dsimp only at hm'
      rw [hm, hm'] at hrow
      cases hrow with
      | keep | heartbeat | enrolled | revoked => rfl
      | mark => exact absurd ⟨m, hm, hpend⟩ (hfresh _ hc rfl)
  gone q hq hnone := by
    cases Pool.next_iff.1 hq with
    | env he => exact (event_machine (event_cases he)).trans hnone
    | call hc hs => exact machine_eq_none_of_step (step_cases hs) hnone
  deleted q m hq hm hnone := by
    cases Pool.next_iff.1 hq with
    | env he =>
      have hsame : none = some m := hnone.symm.trans ((event_machine (event_cases he)).trans hm)
      cases hsame
    | @call i input c w' c' hc hs =>
      have hrow := rowStep_of_step (step_cases hs)
      dsimp only at hnone
      rw [hm, hnone] at hrow
      cases hrow with
      | deleted => exact absurd (hp.doomed _ (List.mem_of_getElem? hc)) (by simp [Call.doomed])
      | @finalized k _ hpend => exact ⟨hpend, i, input, k, rfl, hc⟩

theorem Tallied.announced {w : World Hash} {p : Pool (World Hash) (Call Hash)} (hp : Tallied w p) :
    Announced w p where
  le_due m hm := by
    have hsum : 0 ≤ (p.calls.map (Call.owes m)).sum :=
      List.sum_nonneg fun n hn => by
        obtain ⟨c, -, rfl⟩ := List.mem_map.1 hn
        exact Int.natCast_nonneg _
    have htally := hp.tally m hm
    omega
  eq_due hret m hm := by
    have hzero : p.calls.map (Call.owes m) = p.calls.map fun _ => 0 :=
      List.map_congr_left fun c hc => by
        simp [Call.owes, Call.announcement_of_returned (hret c hc)]
    have hsum : (p.calls.map (Call.owes m)).sum = 0 := by simp [hzero]
    have htally := hp.tally m hm
    omega
  requested dto hc := hp.reported _ hc rfl

/-- However the calls interleave, while the credential stays usable and as long as no call marks a
row that another has marked since it was read: the first request's time is kept until the row is
deleted, which happens at most once, by `finalizeDecommission` and while the removal is requested;
and each broadcast is made once if the row gives reason to, and otherwise never. -/
theorem removal_idempotent [Argon2 Hash] {w : World Hash} {es : List (Pool.Label Event Input)}
    (husable : Along next (fun p _ => p.world.Usable) ⟨w, []⟩ es)
    (hfresh : Along next MarksFresh (⟨w, []⟩ : Pool (World Hash) (Call Hash)) es) :
    Along next RemovesOnce ⟨w, []⟩ es ∧ ∀ p, run next ⟨w, []⟩ es = some p → Announced w p := by
  have hstart : Tallied w (⟨w, []⟩ : Pool (World Hash) (Call Hash)) :=
    ⟨by simp, by simp, by simp⟩
  have hboth := husable.and hfresh
  refine ⟨?_, fun p hp => ?_⟩
  · exact along_of_invariant (I := Tallied w)
      (fun _ _ _ ht hs h => ht.step hs.1 hs.2 h) (fun _ _ ht hs => ht.removesOnce hs.2) hstart hboth
  · have htallied : Tallied w p :=
      run_invariant_along (fun _ _ _ ht hs h => ht.step hs.1 hs.2 h) hstart hboth hp
    exact htallied.announced

/-- A removal that is requested twice and acknowledged twice. -/
def repeated : List (Pool.Label Event Input) :=
  let go (i : ℕ) : Pool.Label Event Input := .call i ⟨0, 0, "", "", 0⟩
  [.env (.connect 0 (some "s1")), go 0, go 0, go 0, go 0, .env (.request .requestDecommission 0), go 1,
    go 1, go 1, go 1, .env (.request .requestDecommission 3), go 2, go 2,
    .env (.receive 0 .decommissionAck 0),
    .env (.receive 0 .decommissionAck 0), go 3, go 4, go 3, go 4]

theorem removal_idempotent_repeated :
    Along next RemovesOnce (⟨enrolledWorld, []⟩ : Pool (World PlainHash) (Call PlainHash)) repeated ∧
      ∀ p, run next ⟨enrolledWorld, []⟩ repeated = some p → Announced enrolledWorld p :=
  removal_idempotent (by decide) (by decide)

/-- Two requests that both read the row before either has marked it. -/
def crossing : List (Pool.Label Event Input) :=
  let go (i : ℕ) : Pool.Label Event Input := .call i ⟨0, 0, "", "", 0⟩
  [.env (.request .requestDecommission 0), .env (.request .requestDecommission 0), go 0, go 1, go 0,
    .call 1 ⟨5, 0, "", "", 0⟩, go 0]

/-- The rest of their runs. -/
def crossed : List (Pool.Label Event Input) :=
  let go (i : ℕ) : Pool.Label Event Input := .call i ⟨0, 0, "", "", 0⟩
  [go 1, go 0, go 0, go 0, go 0, go 0, go 1, go 1, go 1, go 1, go 1]

/-- The second one overwrites the time of the first, and both broadcast. -/
theorem removal_requested_twice :
    Along next (fun p _ => p.world.Usable)
      (⟨enrolledWorld, []⟩ : Pool (World PlainHash) (Call PlainHash)) (crossing ++ crossed) ∧
    ¬ Along next RemovesOnce
      (⟨enrolledWorld, []⟩ : Pool (World PlainHash) (Call PlainHash)) (crossing ++ crossed) ∧
    ∃ p, run next (⟨enrolledWorld, []⟩ : Pool (World PlainHash) (Call PlainHash))
      (crossing ++ crossed) = some p ∧ ¬ Announced enrolledWorld p := by
  refine ⟨by decide, fun h => ?_, _, rfl, fun h => ?_⟩
  · have hlast := (along_cons_iff.1 ((along_append_iff.1 h).2 _ rfl)).1
    have hsame := hlast.kept _ _ _ rfl rfl rfl rfl
    exact absurd hsame (by decide)
  · have hcount := h.eq_due (by decide) .machineDecommissioning rfl
    exact absurd hcount (by decide)

end Server

end Taymna.Api
