import Taymna.Api.HubRuns

/-!
# What the operators hear

The socket of an operator is sent exactly the broadcasts that are made while it is open, each of them
once and in order (`operator_receives`).
-/

namespace Taymna.Api

open Automata

namespace Hub

variable {verify : List Char → Bool} {es : List Event} {h h' : Hub} {c : Connection}
  {machineId : List Char} {k : ℕ}

/-- What is broadcast among the events. -/
def broadcastsOf (es : List Event) : List HubFrame :=
  es.filterMap fun e =>
    match e with
    | .broadcast machineId message => some (.toOperator machineId message)
    | _ => none

/-- The socket of an operator since it was opened: everything so far has been put on it, or it is not
open any more. -/
structure Hears (k : ℕ) (fs : List Event) (h : Hub) : Prop where
  operator : (h.sockets k).operator = true
  opened : (h.sockets k).readyState = .opened →
    k ∈ h.operatorSockets ∧ (h.sockets k).sent = broadcastsOf fs
  heard : (h.sockets k).sent <+: broadcastsOf fs

theorem broadcastsOf_concat (fs : List Event) (e : Event) :
    broadcastsOf (fs ++ [e]) = broadcastsOf fs ++ broadcastsOf [e] := List.filterMap_append

theorem Vouched.deaf (hv : Vouched verify es k c) (hop : c.operator = true) :
    c.presented = none ∧ c.listening = none ∧ c.readyState ≠ .connecting := by
  have hnone := (hv.operator hop).2
  refine ⟨hnone, ?_, fun hnew => ?_⟩
  · cases hl : c.listening with
    | none => rfl
    | some id =>
      obtain ⟨-, secret, hpresented⟩ := hv.listening id hl
      rw [hnone] at hpresented
      cases hpresented
  · rw [hv.fresh hnew] at hop
    cases hop

/-- Whatever is not a broadcast leaves the socket of an operator as it is, or closes it. -/
theorem Hears.quiet {fs : List Event} {e : Event} (hh : Hears k fs h) (hquiet : broadcastsOf [e] = [])
    (hsent : (h'.sockets k).sent = (h.sockets k).sent) (hop : (h'.sockets k).operator = true)
    (hopen : (h'.sockets k).readyState = .opened →
      (h.sockets k).readyState = .opened ∧ (k ∈ h.operatorSockets → k ∈ h'.operatorSockets)) :
    Hears k (fs ++ [e]) h' where
  operator := hop
  opened := by
    intro ho
    obtain ⟨ho, hmem⟩ := hopen ho
    rw [broadcastsOf_concat, hquiet, List.append_nil, hsent]
    exact (hh.opened ho).imp_left hmem
  heard := by
    rw [broadcastsOf_concat, hquiet, List.append_nil, hsent]
    exact hh.heard

theorem Hears.same {fs : List Event} {e : Event} (hh : Hears k fs h) (hquiet : broadcastsOf [e] = [])
    (hsame : h'.sockets k = h.sockets k) (hmem : k ∈ h.operatorSockets → k ∈ h'.operatorSockets) :
    Hears k (fs ++ [e]) h' :=
  hh.quiet hquiet (by rw [hsame]) (by rw [hsame, hh.operator]) (by rw [hsame]; exact fun ho => ⟨ho, hmem⟩)

theorem Hears.broadcast {fs : List Event} (hh : Hears k fs h) (hi : Coherent verify es h)
    (message : ServerToOperatorMessage) :
    Hears k (fs ++ [.broadcast machineId message]) (h.broadcastToOperators machineId message) := by
  have hsocket := broadcastToOperators_sockets h hi.nodup machineId message k
  have hoperators := (broadcastToOperators_fields h machineId message).2.1
  have hnew : broadcastsOf [.broadcast machineId message] = [.toOperator machineId message] := rfl
  by_cases hopen : (h.sockets k).readyState = .opened
  · obtain ⟨hmem, hsent⟩ := hh.opened hopen
    have hput : (h.broadcastToOperators machineId message).sockets k =
        { h.sockets k with sent := (h.sockets k).sent ++ [.toOperator machineId message] } := by
      rw [hsocket, if_pos hmem]
      exact if_pos hopen
    have hall : ((h.broadcastToOperators machineId message).sockets k).sent =
        broadcastsOf (fs ++ [.broadcast machineId message]) := by
      rw [hput, broadcastsOf_concat, hnew, hsent]
    refine ⟨?_, fun _ => ⟨?_, hall⟩, hall ▸ List.prefix_rfl⟩
    · rw [hput]
      exact hh.operator
    · rwa [hoperators]
  · have hsame : (h.broadcastToOperators machineId message).sockets k = h.sockets k := by
      rw [hsocket]
      split_ifs
      · exact if_neg hopen
      · rfl
    refine ⟨by rw [hsame, hh.operator], fun ho => absurd (hsame ▸ ho) hopen, ?_⟩
    rw [hsame, broadcastsOf_concat]
    exact hh.heard.trans (List.prefix_append _ _)

theorem Hears.step {fs : List Event} (hh : Hears k fs h) (hi : Coherent verify es h) {e : Event}
    (hs : Hub.step verify h e = some h') : Hears k (fs ++ [e]) h' := by
  obtain ⟨hpresented, hlistening, hused⟩ := (hi.sockets k).deaf hh.operator
  have hunregistered : ∀ id, h.agentSockets id ≠ some k := by
    intro id hk
    have hid := hi.registry id k hk
    rw [hlistening] at hid
    cases hid
  have helse : ∀ i (f : Connection → Connection), k ≠ i → (h.onSocket i f).sockets k = h.sockets k := by
    intro i f hki
    rw [onSocket_sockets, if_neg hki]
  cases step_cases hs with
  | @agent i _ _ _ _ hnew => exact hh.same rfl (helse i _ (by rintro rfl; exact hused hnew)) id
  | @operator i _ _ _ hnew =>
    refine hh.same rfl ?_ fun hk => mem_registerOperator_iff.2 (Or.inl hk)
    rw [(registerOperator_fields _ i).2.1]
    exact helse i _ (by rintro rfl; exact hused hnew)
  | @turnedAway i _ _ _ hnew => exact hh.same rfl (helse i _ (by rintro rfl; exact hused hnew)) id
  | @admitted i id secret hawaiting hid =>
    have hki : k ≠ i := by
      rintro rfl
      rw [hpresented] at hid
      cases hid
    refine hh.same rfl ?_ fun hk => by simpa [authenticated] using hk
    rw [authenticated_sockets, if_neg hki, if_neg (hunregistered id)]
  | @refused i id secret hawaiting hid =>
    have hki : k ≠ i := by
      rintro rfl
      rw [hpresented] at hid
      cases hid
    refine hh.same rfl ?_ fun hk => hk
    exact (onSocket_sockets _ i k _).trans ((if_neg hki).trans (helse i _ hki))
  | @reply i id message hid =>
    refine hh.same rfl (helse i _ ?_) fun hk => hk
    rintro rfl
    rw [hlistening] at hid
    cases hid
  | @sendToMachine id message =>
    refine hh.same rfl ?_ fun hk => by unfold Hub.sendToMachine; split <;> exact hk
    rw [sendToMachine_sockets, if_neg (hunregistered id)]
  | broadcast => exact hh.broadcast hi _
  | @disconnectMachine id code reason =>
    refine hh.same rfl ?_ fun hk => by unfold Hub.disconnectMachine; split <;> exact hk
    rw [disconnectMachine_sockets, if_neg (hunregistered id)]
  | @hangUp i =>
    by_cases hki : k = i
    · subst hki
      have hclosing : (h.onSocket k fun c => { c with readyState := .closing }).sockets k =
          { h.sockets k with readyState := .closing } := by rw [onSocket_sockets, if_pos rfl]
      refine hh.quiet rfl ?_ ?_ fun ho => ?_
      · rw [hclosing]
      · rw [hclosing, hh.operator]
      · rw [hclosing] at ho
        cases ho
    · exact hh.same rfl (helse i _ hki) fun hk => hk
  | @disconnect i =>
    by_cases hki : k = i
    · subst hki
      have hclosed := handleDisconnect_sockets h k k
      rw [if_pos rfl] at hclosed
      refine hh.quiet rfl ?_ ?_ fun ho => ?_
      · rw [hclosed]
      · rw [hclosed, hh.operator]
      · rw [hclosed] at ho
        cases ho
    · exact hh.same rfl (by rw [handleDisconnect_sockets, if_neg hki]) (mem_handleDisconnect hki)

/-- Whatever the order of events, an operator is sent exactly what is broadcast while its socket is open:
as long as it is, every broadcast since then, once and in order, and nothing else; and a beginning of
that afterwards. -/
theorem operator_receives {authorization token : Option (List Char)} {jwt : List Char} {fs : List Event}
    (hroute : route authorization token = .operator jwt) (hverify : verify jwt = true)
    (hrun : run (step verify) empty (es ++ .connect k authorization token :: fs) = some h) :
    ((h.sockets k).readyState = .opened → (h.sockets k).sent = broadcastsOf fs) ∧
      (h.sockets k).sent <+: broadcastsOf fs := by
  obtain ⟨h₀, hrun₀, hrun⟩ := run_append_eq_some.1 hrun
  obtain ⟨h₁, hconnect, hrun⟩ := run_cons_eq_some.1 hrun
  have hi₀ := coherent_run hrun₀
  have hi₁ := hi₀.step hconnect
  have hh₁ : Hears k [] h₁ := by
    simp only [Hub.step] at hconnect
    split at hconnect
    · rename_i hnew
      obtain rfl := Option.some.inj hconnect
      have hopened : (h₀.handleConnection verify k (route authorization token)) = (h₀.onSocket k fun c =>
          { c with readyState := .opened, operator := true }).registerOperator k := by
        rw [hroute]
        exact if_pos hverify
      have hsocket : (h₀.handleConnection verify k (route authorization token)).sockets k =
          { Connection.unused with readyState := .opened, operator := true } := by
        rw [hopened, (registerOperator_fields _ k).2.1, onSocket_sockets, if_pos rfl, hi₀.fresh hnew]
      refine ⟨by rw [hsocket], fun _ => ⟨?_, by rw [hsocket]; rfl⟩, by rw [hsocket]; exact List.prefix_rfl⟩
      rw [hopened]
      exact mem_registerOperator_iff.2 (Or.inr rfl)
    · cases hconnect
  have hall : Coherent verify (es ++ [.connect k authorization token] ++ fs) h ∧ Hears k fs h := by
    refine run_history_invariant
      (I := fun fs h => Coherent verify (es ++ [.connect k authorization token] ++ fs) h ∧ Hears k fs h)
      ⟨by rwa [List.append_nil], hh₁⟩ ?_ hrun
    rintro fs s e t ⟨hs, hh⟩ hstep
    exact ⟨by rw [← List.append_assoc]; exact hs.step hstep, hh.step hs hstep⟩
  exact ⟨fun ho => (hall.2.opened ho).2, hall.2.heard⟩

theorem operator_receives_desk :
    [HubFrame.toOperator "a".toList .machineRemoved] <+:
      broadcastsOf [.broadcast "a".toList .machineRemoved, .hangUp 0,
        .broadcast "b".toList .machineRemoved] := by
  have hrun : run (Hub.step fun _ => true) empty ([] ++ .connect 0 none (some "t".toList) ::
      [.broadcast "a".toList .machineRemoved, .hangUp 0, .broadcast "b".toList .machineRemoved]) = some _ :=
    (Option.some_get (by decide)).symm
  have hroute : route none (some "t".toList) = .operator "t".toList := by decide
  exact (operator_receives hroute rfl hrun).2

end Hub

end Taymna.Api
