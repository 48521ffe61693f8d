import Mathlib.Algebra.Order.Group.Abs
import Taymna.Agent.Reconcile

/-!
# Warnings escalate and are true

Whatever sessions and times `reconcile` is given, a call tells the user at most one thing, of a
session that runs, and with the minutes that are left (`Truthful`). As long as the calls are about
one deadline of an `ACTIVE` session, each level is more urgent than the ones before (`Escalates`).
A call on the same session that is not `ACTIVE` forgets what has been said about its deadline.
-/

namespace Taymna.Agent

open Automata

/-- The user is told about the time left. -/
def WarningEffect.warns : WarningEffect → Bool
  | .notify _ | .showFinalWarning _ => true
  | .dismissFinalWarning => false

/-- The title of a notification. -/
def headline (minutes : ℤ) : String :=
  toString minutes ++ " minute" ++ (if minutes = 1 then "" else "s") ++ " remaining"

/-- What one call tells the user is one thing, and true. -/
structure Truthful (c : Call) (effects : List WarningEffect) : Prop where
  once : (effects.filter WarningEffect.warns).length ≤ 1
  running : ∀ e ∈ effects, e.warns = true → ∃ s, c.1 = some s ∧ s.status = .active ∧
    c.2 < s.expiresAt ∧ (advance c.1 c.2).2 = .allowed
  headlines : ∀ notice, .notify notice ∈ effects → ∃ s minutes, c.1 = some s ∧
    notice.title = headline minutes ∧ 1 ≤ minutes ∧
    |60 * minutes - numSeconds (s.expiresAt - c.2)| ≤ 30

/-- The levels that the user is told of are more and more urgent. -/
def Escalates (effects : List WarningEffect) : Prop :=
  ∃ warnings : List (Level × ℤ),
    effects.filter WarningEffect.warns = warnings.map (fun w => announce w.1 w.2) ∧
      warnings.Pairwise fun w w' => w.1.rank < w'.1.rank

theorem announce_warns (level : Level) (remaining : ℤ) : (announce level remaining).warns = true := by
  cases level <;> rfl

theorem noticeFor_title (level : Level) (remaining : ℤ) :
    (noticeFor level remaining).title = headline ((remaining + 30).tdiv 60) := by
  cases level <;> rfl

/-- The nearest minute. -/
theorem nearest_minute {r : ℤ} (h : 30 < r) :
    1 ≤ (r + 30).tdiv 60 ∧ |60 * (r + 30).tdiv 60 - r| ≤ 30 := by
  rw [Int.tdiv_eq_ediv_of_nonneg (by omega)]
  refine ⟨by omega, abs_le.2 ⟨by omega, by omega⟩⟩

theorem announce_notify {level : Level} {remaining : ℤ} {notice : Notice}
    (h : announce level remaining = .notify notice) :
    level ≠ .final ∧ notice = noticeFor level remaining := by
  cases level with
  | final => cases h
  | tenMinutes | fiveMinutes | oneMinute => exact ⟨by simp, (WarningEffect.notify.inj h).symm⟩

/-- A notification tells its level. -/
theorem announce_level {level level' : Level} {remaining remaining' : ℤ}
    (h : announce level remaining = announce level' remaining') : level = level' := by
  cases level <;> cases level' <;> simp [announce, noticeFor] at h ⊢

namespace ExpiryWarnings

theorem dismissals_warns (w : ExpiryWarnings) : w.dismissals.filter WarningEffect.warns = [] := by
  unfold dismissals
  split_ifs <;> rfl

theorem rekey_warns (w : ExpiryWarnings) (key : Option DeadlineKey) :
    (w.rekey key).2.filter WarningEffect.warns = [] := by
  by_cases h : key = w.key
  · rw [rekey_of_eq h]
    rfl
  · rw [rekey_of_ne h]
    exact w.dismissals_warns

/-- Where a warning of a call comes from: the session is `ACTIVE`, and a level has fired. -/
theorem call_warns (w : ExpiryWarnings) (c : Call) :
    (w.call c).2.filter WarningEffect.warns = [] ∨
      ∃ s level, c.1 = some s ∧ s.status = .active ∧ 0 < numSeconds (s.expiresAt - c.2) ∧
        (level ≠ .final → 30 < numSeconds (s.expiresAt - c.2)) ∧
        (w.call c).2.filter WarningEffect.warns =
          [announce level (numSeconds (s.expiresAt - c.2))] := by
  have hcases := w.call_cases c
  generalize (w.call c).1 = w', (w.call c).2 = effects at hcases ⊢
  cases hcases with
  | idle => exact Or.inl (w.rekey_warns none)
  | @judged key w' effects hkey heval =>
    obtain ⟨s, hs, hactive, -, hexpires⟩ := keyOf_eq_some_iff.1 hkey
    rw [List.filter_append, rekey_warns, List.nil_append]
    cases heval with
    | passed => exact Or.inl (dismissals_warns _)
    | quiet => exact Or.inl rfl
    | @fires level hpos hdue =>
      rw [← hexpires] at hpos ⊢
      refine Or.inr ⟨s, level, hs, hactive, hpos, fun hlevel => ?_, ?_⟩
      · rw [hexpires]
        exact lt_of_level hdue hlevel
      · simp [announce_warns]

theorem truthful_call (w : ExpiryWarnings) (c : Call) : Truthful c (w.call c).2 := by
  rcases w.call_warns c with hnone | ⟨s, level, hs, hactive, hpos, hlate, hone⟩
  · have hquiet : ∀ e ∈ (w.call c).2, e.warns = false := by
      simpa [List.filter_eq_nil_iff] using hnone
    refine ⟨by rw [hnone]; exact Nat.zero_le 1, fun e he hwarns => ?_, fun notice hnotice => ?_⟩
    · rw [hquiet e he] at hwarns
      cases hwarns
    · cases hquiet _ hnotice
  · have honly : ∀ e ∈ (w.call c).2, e.warns = true →
        e = announce level (numSeconds (s.expiresAt - c.2)) := by
      intro e he hwarns
      have hmem := List.mem_filter.2 ⟨he, hwarns⟩
      rw [hone] at hmem
      exact List.mem_singleton.1 hmem
    have hlt : c.2 < s.expiresAt := by
      have := numSeconds_pos_iff.1 hpos
      omega
    refine ⟨by rw [hone]; exact le_rfl, fun e he hwarns => ?_, fun notice hnotice => ?_⟩
    · exact ⟨s, hs, hactive, hlt, (advance_allowed_iff _ _).2 ⟨s, hs, hactive, hlt⟩⟩
    · obtain ⟨hlevel, rfl⟩ := announce_notify (honly _ hnotice rfl).symm
      obtain ⟨hmin, hdist⟩ := nearest_minute (hlate hlevel)
      exact ⟨s, _, hs, noticeFor_title _ _, hmin, hdist⟩

/-! ## One deadline -/

/-- A call on the deadline that is being warned about: what it says is more urgent than all that has
been said. -/
theorem escalates_call {w : ExpiryWarnings} {key : DeadlineKey} {c : Call} (hw : w.key = some key)
    (hc : keyOf c.1 = some key) :
    (w.call c).1.key = some key ∧
      ((w.call c).1.fired = w.fired ∧ (w.call c).2.filter WarningEffect.warns = [] ∨
        ∃ level remaining, (w.call c).1.fired = some level ∧
          (∀ already, w.fired = some already → already.rank < level.rank) ∧
          (w.call c).2.filter WarningEffect.warns = [announce level remaining]) := by
  rw [call_of_key hw hc]
  have hcases := warn_cases w key c.2
  generalize (w.warn key c.2).1 = w', (w.warn key c.2).2 = effects at hcases
  cases hcases with
  | passed => exact ⟨hw, Or.inl ⟨rfl, dismissals_warns w⟩⟩
  | quiet => exact ⟨hw, Or.inl ⟨rfl, rfl⟩⟩
  | fires hpos hdue hrank =>
    refine ⟨hw, Or.inr ⟨_, numSeconds (key.expiresAt - c.2), rfl, hrank, ?_⟩⟩
    simp [announce_warns]

/-- From a state in which the deadline is being warned about, only more urgent levels come. -/
theorem output_of_key {key : DeadlineKey} {w : ExpiryWarnings} (hw : w.key = some key)
    {cs : List Call} (hcs : ∀ c ∈ cs, keyOf c.1 = some key) :
    ∃ warnings : List (Level × ℤ),
      (output call w cs).filter WarningEffect.warns = warnings.map (fun w => announce w.1 w.2) ∧
        warnings.Pairwise (fun w w' => w.1.rank < w'.1.rank) ∧
        ∀ already, w.fired = some already → ∀ x ∈ warnings, already.rank < x.1.rank := by
  induction cs generalizing w with
  | nil => exact ⟨[], rfl, .nil, by simp⟩
  | cons c cs ih =>
    obtain ⟨hkey, hstep⟩ := escalates_call hw (hcs c List.mem_cons_self)
    obtain ⟨warnings, hout, hpair, hmore⟩ := ih hkey fun c hc => hcs c (List.mem_cons_of_mem _ hc)
    rcases hstep with ⟨hfired, hnone⟩ | ⟨level, remaining, hfired, hrank, hone⟩
    · refine ⟨warnings, ?_, hpair, fun already h => hmore already (hfired.trans h)⟩
      rw [output_cons, List.filter_append, hnone, List.nil_append, hout]
    · have hlater := hmore level hfired
      refine ⟨(level, remaining) :: warnings, ?_, List.pairwise_cons.2 ⟨hlater, hpair⟩, ?_⟩
      · rw [output_cons, List.filter_append, hone, hout]
        rfl
      · intro already halready x hx
        have hlt := hrank already halready
        rcases List.mem_cons.1 hx with rfl | hx
        · exact hlt
        · exact hlt.trans (hlater x hx)

theorem call_rekey {c : Call} {key : DeadlineKey} (hc : keyOf c.1 = some key) (w : ExpiryWarnings) :
    w.call c = (((w.rekey (some key)).1.call c).1,
      (w.rekey (some key)).2 ++ ((w.rekey (some key)).1.call c).2) := by
  unfold call
  rw [reconcile_of_some hc, reconcile_of_some hc, rekey_of_eq (rekey_key w (some key)).symm]
  rfl

theorem escalates_of_key (w : ExpiryWarnings) {key : DeadlineKey} {cs : List Call}
    (hcs : ∀ c ∈ cs, keyOf c.1 = some key) : Escalates (output call w cs) := by
  obtain ⟨warnings, hout, hpair, -⟩ := output_of_key (rekey_key w (some key)) hcs
  refine ⟨warnings, ?_, hpair⟩
  cases cs with
  | nil => exact hout
  | cons c cs =>
    rw [output_cons] at hout ⊢
    rw [call_rekey (hcs c List.mem_cons_self), List.append_assoc, List.filter_append, rekey_warns,
      List.nil_append]
    exact hout

/-- Whatever has been given to `reconcile`, the next call is truthful, and calls about one deadline
of an `ACTIVE` session escalate. -/
theorem warnings_escalate (cs : List Call) :
    (∀ c, Truthful c ((after call new cs).call c).2) ∧
      ∀ key run, (∀ c ∈ run, keyOf c.1 = some key) → Escalates (output call (after call new cs) run) :=
  ⟨fun c => truthful_call _ c, fun _ _ hrun => escalates_of_key _ hrun⟩

/-- A session that expires after 200 s. -/
def ending (status : SessionStatus) : SessionSnapshot :=
  { id := "s1", startedAt := 0, expiresAt := 200 * 1000000000, status := status, updatedAt := 0 }

/-- The session, its extension by five minutes, and the seconds that have passed. -/
theorem warnings_escalate_extended :
    Escalates (output call (after call new [(some (ending .active), 0)])
      [(some { ending .active with expiresAt := 500 * 1000000000 }, 1000000000),
        (some { ending .active with expiresAt := 500 * 1000000000 }, 201 * 1000000000)]) :=
  (warnings_escalate [(some (ending .active), 0)]).2 ⟨"s1", 500 * 1000000000⟩ _ (by decide)

/-- The session is `ACTIVE`, ended, and `ACTIVE` again, and the same level is announced twice for one
deadline. -/
theorem warning_repeated :
    ¬ ∀ (cs run : List Call) (id : String) (expiresAt : ℤ),
      (∀ c ∈ run, ∃ s, c.1 = some s ∧ s.id = id ∧ s.expiresAt = expiresAt) →
        Escalates (output call (after call new cs) run) := by
  intro h
  obtain ⟨warnings, hout, hpair⟩ := h []
    [(some (ending .active), 0), (some (ending .ended), 1000000000),
      (some (ending .active), 2000000000)] "s1" (200 * 1000000000) (by decide)
  have htwice : [announce .fiveMinutes 200, announce .fiveMinutes 198] =
      warnings.map fun w => announce w.1 w.2 := hout
  obtain _ | ⟨x, _ | ⟨y, rest⟩⟩ := warnings
  · cases htwice
  · cases (List.cons.inj htwice).2
  · obtain ⟨hx, htail⟩ := List.cons.inj htwice
    have hy := (List.cons.inj htail).1
    have hlt := (List.pairwise_cons.1 hpair).1 y List.mem_cons_self
    rw [← announce_level hx, ← announce_level hy] at hlt
    exact lt_irrefl _ hlt

end ExpiryWarnings

end Taymna.Agent
