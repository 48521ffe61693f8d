import Taymna.Agent.Reconcile

/-!
# The final warning is taken down

What is on the screen is an automaton over the effects: a final warning is shown when none is there,
and dismissed when one is (`screen`). It accepts every output of `reconcile`, and ends in what
`ExpiryWarnings` believes to be on the screen. A warning is gone once its session has ended or its
deadline has passed, and before anything is said about another deadline.

The deadline counts as passed (`Over`) when no whole second is left, and so up to a second before
enforcement blocks the machine.
-/

namespace Taymna.Agent

open Automata

/-- Whether a final warning is on screen. -/
def screen : Bool → WarningEffect → Option Bool
  | visible, .notify _ => some visible
  | false, .showFinalWarning _ => some true
  | true, .showFinalWarning _ => none
  | true, .dismissFinalWarning => some false
  | false, .dismissFinalWarning => none

/-- There is nothing to warn about: no `ACTIVE` session, or no whole second left of it. -/
def Over (c : Call) : Prop :=
  ∀ s, c.1 = some s → s.status = .active → numSeconds (s.expiresAt - c.2) ≤ 0

/-- Another deadline than in the call before. -/
def Changed (c c' : Call) : Prop :=
  (c.1.map fun s => (s.id, s.expiresAt)) ≠ c'.1.map fun s => (s.id, s.expiresAt)

namespace ExpiryWarnings

theorem over_of_none {c : Call} (h : keyOf c.1 = none) : Over c :=
  fun s hs hactive => absurd hactive (keyOf_eq_none_iff.1 h s hs)

theorem over_iff_of_some {c : Call} {key : DeadlineKey} (h : keyOf c.1 = some key) :
    Over c ↔ numSeconds (key.expiresAt - c.2) ≤ 0 := by
  obtain ⟨s, hs, hactive, -, hexpires⟩ := keyOf_eq_some_iff.1 h
  rw [← hexpires]
  refine ⟨fun hover => hover s hs hactive, fun hle s' hs' _ => ?_⟩
  obtain rfl := Option.some.inj (hs.symm.trans hs')
  exact hle

theorem mem_dismissals (w : ExpiryWarnings) : ∀ e ∈ w.dismissals, e = .dismissFinalWarning := by
  intro e he
  unfold dismissals at he
  split_ifs at he
  · exact List.mem_singleton.1 he
  · cases he

theorem mem_rekey (w : ExpiryWarnings) (key : Option DeadlineKey) :
    ∀ e ∈ (w.rekey key).2, e = .dismissFinalWarning := by
  by_cases h : key = w.key
  · rw [rekey_of_eq h]
    simp
  · rw [rekey_of_ne h]
    exact w.mem_dismissals

theorem run_dismissals (w : ExpiryWarnings) :
    run screen w.finalVisible w.dismissals = some false := by
  unfold dismissals
  cases w.finalVisible <;> rfl

theorem run_rekey (w : ExpiryWarnings) (key : Option DeadlineKey) :
    run screen w.finalVisible (w.rekey key).2 = some (w.rekey key).1.finalVisible := by
  by_cases h : key = w.key
  · rw [rekey_of_eq h]
    rfl
  · rw [rekey_of_ne h]
    exact w.run_dismissals

/-- The final warning fires only when it is not on screen. -/
theorem run_evaluation {w w' : ExpiryWarnings} {deadline : DeadlineKey} {now : ℤ}
    {effects : List WarningEffect} (hw : w.Coherent) (h : Evaluation w deadline now w' effects) :
    run screen w.finalVisible effects = some w'.finalVisible := by
  cases h with
  | passed => exact w.run_dismissals
  | quiet => rfl
  | @fires level hpos hdue hrank =>
    cases level with
    | tenMinutes | fiveMinutes | oneMinute => simp [announce, run, screen]
    | final =>
      have hhidden : w.finalVisible = false := by
        by_contra hvisible
        exact lt_irrefl _ (hrank .final (hw.fired (by simpa using hvisible)))
      simp [announce, run, screen, hhidden]

theorem run_call {w : ExpiryWarnings} (hw : w.Coherent) (c : Call) :
    run screen w.finalVisible (w.call c).2 = some (w.call c).1.finalVisible := by
  have hcases := w.call_cases c
  generalize (w.call c).1 = w', (w.call c).2 = effects at hcases ⊢
  cases hcases with
  | idle => exact w.run_rekey none
  | judged hkey heval =>
    rw [run_append, run_rekey]
    exact run_evaluation (hw.rekey _) heval

/-- What is believed to be on screen is what the effects have put there. -/
theorem run_output_new (cs : List Call) :
    run screen false (output call new cs) = some (after call new cs).finalVisible :=
  run_output (m := finalVisible) (fun _ c hw => ⟨hw.call c, run_call hw c⟩) coherent_new cs

/-- Without a deadline there is no final warning. -/
theorem Coherent.hidden {w : ExpiryWarnings} (hw : w.Coherent) (h : w.key = none) :
    w.finalVisible = false := by
  by_contra hvisible
  have hsome := hw.key (by simpa using hvisible)
  rw [h] at hsome
  cases hsome

theorem finalVisible_of_over {w : ExpiryWarnings} (hw : w.Coherent) {c : Call} (hc : Over c) :
    (w.call c).1.finalVisible = false := by
  have hcases := w.call_cases c
  generalize (w.call c).1 = w', (w.call c).2 = effects at hcases ⊢
  cases hcases with
  | idle => exact (hw.rekey none).hidden (rekey_key w none)
  | judged hkey heval =>
    have hle := (over_iff_of_some hkey).1 hc
    cases heval with
    | passed => rfl
    | quiet hpos | fires hpos => exact absurd hle (not_le.2 hpos)

/-- The key after a call is the deadline that it was given. -/
theorem call_key (w : ExpiryWarnings) (c : Call) : (w.call c).1.key = keyOf c.1 := by
  have hcases := w.call_cases c
  generalize (w.call c).1 = w', (w.call c).2 = effects at hcases ⊢
  cases hcases with
  | idle hkey => rw [rekey_key, hkey]
  | @judged key w' effects hkey heval =>
    rw [hkey]
    cases heval with
    | passed | quiet | fires => exact rekey_key w (some key)

theorem not_mem_announce (level : Level) (remaining : ℤ) :
    .dismissFinalWarning ∉ [announce level remaining] := by
  cases level <;> simp [announce]

theorem not_mem_warn {w w' : ExpiryWarnings} {deadline : DeadlineKey} {now : ℤ}
    {effects : List WarningEffect} (hw : w.finalVisible = false)
    (h : Evaluation w deadline now w' effects) : .dismissFinalWarning ∉ effects := by
  cases h with
  | passed => simp [dismissals, hw]
  | quiet => exact List.not_mem_nil
  | fires => exact not_mem_announce _ _

/-- The deadline of an `ACTIVE` session is its id and its instant. -/
theorem changed_key {c c' : Call} (h : Changed c c') :
    keyOf c'.1 ≠ keyOf c.1 ∨ keyOf c'.1 = none ∧ keyOf c.1 = none := by
  by_cases he : keyOf c'.1 = keyOf c.1
  · refine Or.inr ?_
    cases hkey : keyOf c.1 with
    | none => exact ⟨he.trans hkey, rfl⟩
    | some key =>
      obtain ⟨s, hs, -, hid, hexpires⟩ := keyOf_eq_some_iff.1 hkey
      obtain ⟨s', hs', -, hid', hexpires'⟩ := keyOf_eq_some_iff.1 (he.trans hkey)
      refine absurd ?_ h
      simp [hs, hs', hid, hid', hexpires, hexpires']
  · exact Or.inl he

/-- At a new deadline, what is on screen is taken down first. -/
theorem call_of_changed {w : ExpiryWarnings} (hw : w.Coherent) {c c' : Call} (h : Changed c c') :
    ∃ taken shown, ((w.call c).1.call c').2 = taken ++ shown ∧
      (∀ e ∈ taken, e = .dismissFinalWarning) ∧
      run screen (w.call c).1.finalVisible taken = some false ∧
      .dismissFinalWarning ∉ shown := by
  have hkey := call_key w c
  have hcoherent := hw.call c
  generalize (w.call c).1 = w at hkey hcoherent ⊢
  unfold call
  cases hnew : keyOf c'.1 with
  | none =>
    rw [reconcile_of_none hnew]
    by_cases hsame : (none : Option DeadlineKey) = w.key
    · refine ⟨[], [], by rw [rekey_of_eq hsame]; rfl, by simp, ?_, by simp⟩
      rw [hcoherent.hidden hsame.symm]
      rfl
    · refine ⟨w.dismissals, [], by rw [rekey_of_ne hsame, List.append_nil], w.mem_dismissals, ?_,
        by simp⟩
      exact w.run_dismissals
  | some key =>
    have hne : some key ≠ w.key := by
      rcases changed_key h with hne | ⟨hnone, -⟩
      · rwa [hnew, ← hkey] at hne
      · rw [hnew] at hnone
        cases hnone
    rw [reconcile_of_some hnew, rekey_of_ne hne]
    exact ⟨w.dismissals, _, rfl, w.mem_dismissals, w.run_dismissals,
      not_mem_warn rfl (warn_cases _ key c'.2)⟩

/-- Whatever has been given to `reconcile`: showing and dismissing alternate, a call that finds
nothing to warn about leaves no final warning on screen, and one on another deadline takes it down
before it says anything else. -/
theorem final_warning_taken_down (cs : List Call) (c : Call) :
    (run screen false (output call new (cs ++ [c]))).isSome ∧
      (Over c → run screen false (output call new (cs ++ [c])) = some false) ∧
      ∀ c', Changed c c' → ∃ taken shown,
        output call new (cs ++ [c, c']) = output call new (cs ++ [c]) ++ (taken ++ shown) ∧
          (∀ e ∈ taken, e = .dismissFinalWarning) ∧
          run screen false (output call new (cs ++ [c]) ++ taken) = some false ∧
          .dismissFinalWarning ∉ shown := by
  have hrun := run_output_new (cs ++ [c])
  have hafter : after call new (cs ++ [c]) = ((after call new cs).call c).1 := by
    rw [after_append, after_cons, after_nil]
  refine ⟨by rw [hrun]; rfl, fun hover => ?_, fun c' hchanged => ?_⟩
  · rw [hrun, hafter, finalVisible_of_over (coherent_after cs) hover]
  · obtain ⟨taken, shown, hcall, hmem, htaken, hshown⟩ :=
      call_of_changed (coherent_after cs) hchanged
    refine ⟨taken, shown, ?_, hmem, ?_, hshown⟩
    · rw [List.append_cons, output_append call new (cs ++ [c]), hafter, output_cons, output_nil,
        List.append_nil, hcall]
    · rw [run_append, hrun, hafter]
      exact htaken

/-- A session that expires after 20 s: the final warning is shown at once, and taken down when half
an hour is added. -/
def closing : SessionSnapshot :=
  { id := "s1", startedAt := 0, expiresAt := 20 * 1000000000, status := .active, updatedAt := 0 }

theorem final_warning_taken_down_extended :
    run screen false (output call new ([(some closing, 0)] ++ [(none, 1000000000)])) = some false ∧
      ∃ taken shown, output call new ([] ++ [(some closing, 0),
          (some { closing with expiresAt := 1820 * 1000000000 }, 1000000000)]) =
        output call new ([] ++ [(some closing, 0)]) ++ (taken ++ shown) ∧
          (∀ e ∈ taken, e = .dismissFinalWarning) ∧
          run screen false (output call new ([] ++ [(some closing, 0)]) ++ taken) = some false ∧
          .dismissFinalWarning ∉ shown :=
  ⟨(final_warning_taken_down [(some closing, 0)] (none, 1000000000)).2.1 (fun _ h => by cases h),
    (final_warning_taken_down [] (some closing, 0)).2.2 _ (by unfold Changed; decide)⟩

/-! ## Enforcement -/

/-- `reconcile` returns early: there is no deadline, or it has passed. -/
def ReturnsEarly (w : ExpiryWarnings) (c : Call) : Prop :=
  match (w.rekey (keyOf c.1)).1.key with
  | none => True
  | some deadline => numSeconds (deadline.expiresAt - c.2) ≤ 0

theorem returnsEarly_iff (w : ExpiryWarnings) (c : Call) : w.ReturnsEarly c ↔ Over c := by
  unfold ReturnsEarly
  rw [rekey_key]
  cases hkey : keyOf c.1 with
  | none => exact iff_of_true trivial (over_of_none hkey)
  | some key => exact (over_iff_of_some hkey).symm

/-- An early return takes a final warning down, and says nothing else. -/
theorem call_of_returnsEarly {w : ExpiryWarnings} {c : Call} (h : w.ReturnsEarly c) :
    ∀ e ∈ (w.call c).2, e = .dismissFinalWarning := by
  have hover := (w.returnsEarly_iff c).1 h
  have hcases := w.call_cases c
  generalize (w.call c).1 = w', (w.call c).2 = effects at hcases ⊢
  cases hcases with
  | idle => exact w.mem_rekey none
  | judged hkey heval =>
    have hle := (over_iff_of_some hkey).1 hover
    cases heval with
    | passed => exact fun e he => (List.mem_append.1 he).elim (w.mem_rekey _ e) (mem_dismissals _ e)
    | quiet hpos | fires hpos => exact absurd hle (not_le.2 hpos)

/-- A call about the deadline that is being warned about takes nothing down before it has passed. -/
theorem not_mem_call {w : ExpiryWarnings} {c : Call} (hw : w.key = keyOf c.1)
    (h : ¬ w.ReturnsEarly c) : .dismissFinalWarning ∉ (w.call c).2 := by
  rw [returnsEarly_iff] at h
  cases hkey : keyOf c.1 with
  | none => exact absurd (over_of_none hkey) h
  | some key =>
    rw [call_of_key (hw.trans hkey) hkey]
    have hcases := warn_cases w key c.2
    generalize (w.warn key c.2).1 = w', (w.warn key c.2).2 = effects at hcases
    cases hcases with
    | passed hle => exact absurd ((over_iff_of_some hkey).2 hle) h
    | quiet => exact List.not_mem_nil
    | fires => exact not_mem_announce _ _

/-- A tick of an `ACTIVE` session: `reconcile` takes the deadline for passed exactly when enforcement
blocks, and takes no final warning for it down before, if and only if the tick is not in the last
second before the deadline. -/
theorem deadline_agrees_iff (w : ExpiryWarnings) {s : SessionSnapshot} (hs : s.status = .active)
    (now : ℤ) :
    ((w.ReturnsEarly ((advance (some s) now).1, now) ↔ (advance (some s) now).2 = .blocked) ∧
        (w.key = keyOf (some s) →
          .dismissFinalWarning ∈ (w.call ((advance (some s) now).1, now)).2 →
            (advance (some s) now).2 = .blocked)) ↔
      ¬ (now < s.expiresAt ∧ s.expiresAt < now + 1000000000) := by
  rcases le_or_gt s.expiresAt now with hle | hlt
  · -- The deadline has passed, and enforcement has marked the session.
    have hblocked : (advance (some s) now).2 = .blocked :=
      (advance_blocked_iff _ _).2 fun s' hs' _ => Option.some.inj hs' ▸ hle
    have hearly : w.ReturnsEarly ((advance (some s) now).1, now) := by
      rw [returnsEarly_iff, advance_fst]
      intro s' hs' hactive
      obtain rfl := Option.some.inj hs'
      exact absurd ((expire_status_active_iff now s).1 hactive).2 (not_lt.2 hle)
    exact iff_of_true ⟨iff_of_true hearly hblocked, fun _ _ => hblocked⟩
      fun h => absurd hle (not_le.2 h.1)
  · have hallowed : (advance (some s) now).2 = .allowed :=
      (advance_allowed_iff _ _).2 ⟨s, rfl, hs, hlt⟩
    have hearly : w.ReturnsEarly (some s, now) ↔ s.expiresAt < now + 1000000000 := by
      rw [returnsEarly_iff]
      have hsecond : numSeconds (s.expiresAt - now) ≤ 0 ↔ s.expiresAt < now + 1000000000 := by
        rw [← not_lt, numSeconds_pos_iff]
        omega
      rw [← hsecond]
      exact ⟨fun h => h s rfl hs, fun h s' hs' _ => Option.some.inj hs' ▸ h⟩
    rw [advance_fst_of_allowed hallowed, hallowed, hearly]
    constructor
    · rintro ⟨hagree, -⟩ ⟨-, hsecond⟩
      cases hagree.1 hsecond
    · intro h
      have hlater : ¬ s.expiresAt < now + 1000000000 := fun hsecond => h ⟨hlt, hsecond⟩
      refine ⟨iff_of_false hlater (by simp), fun hkey hmem => ?_⟩
      exact absurd hmem (not_mem_call hkey fun hearly' => hlater (hearly.1 hearly'))

theorem deadline_agrees_soon :
    ((new.ReturnsEarly ((advance (some closing) 0).1, 0) ↔
        (advance (some closing) 0).2 = .blocked) ∧
      (new.key = keyOf (some closing) →
        .dismissFinalWarning ∈ (new.call ((advance (some closing) 0).1, 0)).2 →
          (advance (some closing) 0).2 = .blocked)) :=
  (deadline_agrees_iff new rfl 0).2 (by decide)

/-- Half a second before the deadline: the machine is allowed, and its final warning is dismissed. -/
theorem dismissed_while_allowed :
    (advance (some closing) 19500000000).2 = .allowed ∧
      (after call new [(some closing, 0)]).finalVisible = true ∧
      ((after call new [(some closing, 0)]).call
        ((advance (some closing) 19500000000).1, 19500000000)).2 = [.dismissFinalWarning] ∧
      ¬ ((after call new [(some closing, 0)]).ReturnsEarly
          ((advance (some closing) 19500000000).1, 19500000000) ↔
        (advance (some closing) 19500000000).2 = .blocked) := by
  have hallowed : (advance (some closing) 19500000000).2 = .allowed := by decide
  refine ⟨hallowed, by decide, by decide, fun h => ?_⟩
  have hblocked := h.1 ((returnsEarly_iff _ _).2 fun s hs _ => ?_)
  · rw [hallowed] at hblocked
    cases hblocked
  · rw [advance_fst_of_allowed hallowed] at hs
    obtain rfl := Option.some.inj hs
    decide

end ExpiryWarnings

end Taymna.Agent
