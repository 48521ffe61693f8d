import Taymna.Agent.Reconcile

/-!
# A watched countdown

An agent that evaluates an `ACTIVE` session at least every half minute, from before the first
threshold until its deadline has passed, never skips a level: each band is at least as wide as the
gap between two evaluations (`levelFor_step`). What it shows is the ladder of the four warnings, and
their end (`Ladder`).
-/

namespace Taymna.Agent

open Automata

/-- The level after what has been said. -/
def Level.next : Option Level → Option Level
  | none => some .tenMinutes
  | some .tenMinutes => some .fiveMinutes
  | some .fiveMinutes => some .oneMinute
  | some .oneMinute => some .final
  | some .final => none

/-- What remains to be shown after a level: the next one within its band, and so on, and at last the
end of the final warning. -/
inductive Ladder : Option Level → List WarningEffect → Prop
  | passed : Ladder (some .final) [.dismissFinalWarning]
  | next {fired level remaining effects} : Level.next fired = some level → 0 < remaining →
      levelFor remaining = some level → Ladder (some level) effects →
      Ladder fired (announce level remaining :: effects)

/-- At most half a minute later, the level is the same or the next one. -/
theorem levelFor_step {r r' : ℤ} (hle : r' ≤ r) (hgap : r ≤ r' + 30) :
    levelFor r' = levelFor r ∨ ∃ level, Level.next (levelFor r) = some level ∧
      levelFor r' = some level := by
  unfold levelFor final oneMinute fiveMinutes tenMinutes
  split_ifs <;> first | exact Or.inl rfl | exact Or.inr ⟨_, rfl, rfl⟩ | omega

theorem Level.rank_of_next {fired : Option Level} {level : Level} (h : next fired = some level) :
    ∀ already, fired = some already → already.rank < level.rank := by
  rintro already rfl
  cases already <;> cases h <;> decide

namespace ExpiryWarnings

/-- The deadline is being watched: it has been evaluated at `t`, before it has passed, and what has
been said is the level of that time. -/
structure Watching (w : ExpiryWarnings) (deadline : DeadlineKey) (t : ℤ) : Prop where
  key : w.key = some deadline
  lastSeen : w.lastSeen = some t
  ahead : 0 < numSeconds (deadline.expiresAt - t)
  fired : w.fired = levelFor (numSeconds (deadline.expiresAt - t))
  finalVisible : w.finalVisible = decide (w.fired = some .final)

/-- The deadline has passed, and nothing is on screen. -/
structure Passed (w : ExpiryWarnings) (deadline : DeadlineKey) (t : ℤ) : Prop where
  key : w.key = some deadline
  passed : numSeconds (deadline.expiresAt - t) ≤ 0
  finalVisible : w.finalVisible = false

variable {w : ExpiryWarnings} {deadline : DeadlineKey} {t t' : ℤ}

theorem Watching.due (h : w.Watching deadline t) (ht : t ≤ t') (ht' : t' ≤ t + 30 * 1000000000) :
    w.due deadline t' = levelFor (numSeconds (deadline.expiresAt - t')) := by
  have hgap : numSeconds (t' - t) ≤ 30 := by
    rw [numSeconds_of_nonneg (by omega)]
    omega
  have hwatching : arrivedLate w.lastSeen t' = false := by
    rw [h.lastSeen]
    exact decide_eq_false (not_lt.2 hgap)
  simp [ExpiryWarnings.due, hwatching]

/-- Before the deadline, an evaluation says the next level, or nothing. -/
theorem Watching.evaluate (h : w.Watching deadline t) (ht : t ≤ t') (ht' : t' ≤ t + 30 * 1000000000)
    (hahead : 0 < numSeconds (deadline.expiresAt - t')) :
    (w.warn deadline t').1.Watching deadline t' ∧
      ((w.warn deadline t').1.fired = w.fired ∧ (w.warn deadline t').2 = [] ∨
        ∃ level, Level.next w.fired = some level ∧ (w.warn deadline t').1.fired = some level ∧
          (w.warn deadline t').2 = [announce level (numSeconds (deadline.expiresAt - t'))]) := by
  have hsecond := numSeconds_pos_iff.1 hahead
  obtain ⟨hle, hgap⟩ := numSeconds_step (e := deadline.expiresAt) ht ht' (by omega)
  have hstep := levelFor_step hle hgap
  rw [← h.fired] at hstep
  have hdue := h.due ht ht'
  have hcases := warn_cases w deadline t'
  generalize (w.warn deadline t').1 = w', (w.warn deadline t').2 = effects at hcases ⊢
  cases hcases with
  | passed hle => exact absurd hahead (not_lt.2 hle)
  | quiet _ hquiet =>
    have hsame : levelFor (numSeconds (deadline.expiresAt - t')) = w.fired := by
      rcases hstep with hsame | ⟨level, hnext, hlevel⟩
      · exact hsame
      · obtain ⟨already, halready, hrank⟩ := hquiet level (hdue.trans hlevel)
        exact absurd (Level.rank_of_next hnext already halready) (not_lt.2 hrank)
    exact ⟨⟨h.key, rfl, hahead, hsame.symm, h.finalVisible⟩, Or.inl ⟨rfl, rfl⟩⟩
  | @fires level _ hlevel hrank =>
    have hlevel' := hdue.symm.trans hlevel
    have hnext : Level.next w.fired = some level := by
      rcases hstep with hsame | ⟨level', hnext, hlevel''⟩
      · exact absurd (hrank level (hsame.symm.trans hlevel')) (lt_irrefl _)
      · rwa [Option.some.inj (hlevel'.symm.trans hlevel'')]
    have hhidden : w.finalVisible = false := by
      rw [h.finalVisible]
      refine decide_eq_false fun hfinal => ?_
      rw [hfinal] at hnext
      cases hnext
    refine ⟨⟨h.key, rfl, hahead, hlevel'.symm, ?_⟩, Or.inr ⟨level, hnext, rfl, rfl⟩⟩
    simp [hhidden]

/-- The first evaluation after the deadline takes the final warning down. -/
theorem Watching.pass (h : w.Watching deadline t) (ht' : t' ≤ t + 30 * 1000000000)
    (hpassed : numSeconds (deadline.expiresAt - t') ≤ 0) :
    (w.warn deadline t').1.Passed deadline t' ∧ w.fired = some .final ∧
      (w.warn deadline t').2 = [.dismissFinalWarning] := by
  have hfired : w.fired = some .final := by
    have hnot := mt numSeconds_pos_iff.2 (not_lt.2 hpassed)
    have hahead := numSeconds_pos_iff.1 h.ahead
    rw [h.fired, levelFor_final_iff, numSeconds_of_nonneg (by omega)]
    omega
  rw [warn_of_passed w hpassed]
  refine ⟨⟨h.key, hpassed, rfl⟩, hfired, ?_⟩
  have hvisible : w.finalVisible = true := h.finalVisible.trans (decide_eq_true hfired)
  simp [dismissals, hvisible]

/-- After that nothing more is said. -/
theorem Passed.pass (h : w.Passed deadline t) (ht : t ≤ t') :
    (w.warn deadline t').1.Passed deadline t' ∧ (w.warn deadline t').2 = [] := by
  have hpassed : numSeconds (deadline.expiresAt - t') ≤ 0 := by
    have hnot := mt numSeconds_pos_iff.2 (not_lt.2 h.passed)
    rw [← not_lt, numSeconds_pos_iff]
    omega
  rw [warn_of_passed w hpassed]
  exact ⟨⟨h.key, hpassed, rfl⟩, by simp [dismissals, h.finalVisible]⟩

/-! ## The whole countdown -/

/-- Two evaluations that follow on from one another. -/
def Follows (c c' : Call) : Prop := c.2 ≤ c'.2 ∧ c'.2 ≤ c.2 + 30 * 1000000000

theorem output_of_passed {c : Call} {cs : List Call} (h : w.Passed deadline c.2)
    (hkey : ∀ c ∈ cs, keyOf c.1 = some deadline) (hchain : (c :: cs).IsChain Follows) :
    output call w cs = [] := by
  induction cs generalizing w c with
  | nil => rfl
  | cons c' cs ih =>
    obtain ⟨hfollows, htail⟩ := List.isChain_cons_cons.1 hchain
    obtain ⟨hpassed, hquiet⟩ := h.pass hfollows.1
    rw [output_cons, call_of_key h.key (hkey c' List.mem_cons_self), hquiet, List.nil_append]
    exact ih hpassed (fun c hc => hkey c (List.mem_cons_of_mem _ hc)) htail

theorem ladder_of_watching {c : Call} {cs : List Call} (h : w.Watching deadline c.2)
    (hkey : ∀ c ∈ cs, keyOf c.1 = some deadline) (hchain : (c :: cs).IsChain Follows)
    (hlast : numSeconds (deadline.expiresAt - ((c :: cs).getLast (List.cons_ne_nil c cs)).2) ≤ 0) :
    Ladder w.fired (output call w cs) := by
  induction cs generalizing w c with
  | nil => exact absurd h.ahead (not_lt.2 hlast)
  | cons c' cs ih =>
    obtain ⟨⟨ht, ht'⟩, htail⟩ := List.isChain_cons_cons.1 hchain
    have hkey' : ∀ c ∈ cs, keyOf c.1 = some deadline := fun c hc => hkey c (List.mem_cons_of_mem _ hc)
    rw [output_cons, call_of_key h.key (hkey c' List.mem_cons_self)]
    rcases le_or_gt (numSeconds (deadline.expiresAt - c'.2)) 0 with hpassed | hahead
    · obtain ⟨hdone, hfinal, heffects⟩ := h.pass ht' hpassed
      rw [heffects, output_of_passed hdone hkey' htail, hfinal]
      exact .passed
    · obtain ⟨hwatching, hsays⟩ := h.evaluate ht ht' hahead
      have hrest := ih hwatching hkey' htail (by rwa [List.getLast_cons_cons] at hlast)
      rcases hsays with ⟨hfired, hquiet⟩ | ⟨level, hnext, hfired, hone⟩
      · rw [hquiet, ← hfired]
        exact hrest
      · rw [hone]
        rw [hfired] at hrest
        have hlevel := hwatching.fired.symm.trans hfired
        exact .next hnext hahead hlevel hrest

/-- The first evaluation of a fresh state, with more than ten minutes left. -/
theorem watching_new {c : Call} (hkey : keyOf c.1 = some deadline)
    (h : 600 < numSeconds (deadline.expiresAt - c.2)) :
    (new.call c).1.Watching deadline c.2 ∧ (new.call c).1.fired = none ∧ (new.call c).2 = [] := by
  have hnone := levelFor_eq_none_iff.2 h
  have hdue : (new.rekey (some deadline)).1.due deadline c.2 = none := by
    rw [rekey_of_ne (by simp [new])]
    simp only [ExpiryWarnings.due, arrivedLate, if_true]
    rw [arrivingLateLevel_of_lt (by omega), hnone]
  unfold call
  rw [reconcile_of_some hkey, warn_of_none (by omega) hdue, rekey_of_ne (by simp [new])]
  exact ⟨⟨rfl, rfl, by omega, hnone.symm, rfl⟩, rfl, rfl⟩

/-- A watched countdown shows each warning once, in order, and takes the last one down. -/
theorem countdown_warns_once {c : Call} {cs : List Call}
    (hkey : ∀ c' ∈ c :: cs, keyOf c'.1 = some deadline)
    (hfirst : 600 < numSeconds (deadline.expiresAt - c.2)) (hchain : (c :: cs).IsChain Follows)
    (hlast : numSeconds (deadline.expiresAt - ((c :: cs).getLast (List.cons_ne_nil c cs)).2) ≤ 0) :
    ∃ ten five one left, output call new (c :: cs) =
        [.notify (noticeFor .tenMinutes ten), .notify (noticeFor .fiveMinutes five),
          .notify (noticeFor .oneMinute one), .showFinalWarning left, .dismissFinalWarning] ∧
      levelFor ten = some .tenMinutes ∧ levelFor five = some .fiveMinutes ∧
      levelFor one = some .oneMinute ∧ 1 ≤ left ∧ left ≤ 30 := by
  obtain ⟨hwatching, hfired, hquiet⟩ := watching_new (hkey c List.mem_cons_self) hfirst
  have hladder := ladder_of_watching hwatching (fun c hc => hkey c (List.mem_cons_of_mem _ hc))
    hchain hlast
  rw [output_cons, hquiet, List.nil_append]
  rw [hfired] at hladder
  generalize output call (new.call c).1 cs = effects at hladder ⊢
  obtain _ | @⟨_, _, ten, _, ⟨⟩, -, hten, hladder⟩ := hladder
  obtain _ | @⟨_, _, five, _, ⟨⟩, -, hfive, hladder⟩ := hladder
  obtain _ | @⟨_, _, one, _, ⟨⟩, -, hone, hladder⟩ := hladder
  obtain _ | @⟨_, _, left, _, ⟨⟩, hpos, hfinal, hladder⟩ := hladder
  obtain _ | @⟨_, _, _, _, ⟨⟩, -, -, -⟩ := hladder
  exact ⟨ten, five, one, left, rfl, hten, hfive, hone, hpos, levelFor_final_iff.1 hfinal⟩

/-- A session that expires after 605 s, after `i` half minutes. -/
def halfMinutes (i : ℕ) : Call :=
  (some { id := "s1", startedAt := 0, expiresAt := 605 * 1000000000, status := .active,
          updatedAt := 0 }, (i : ℤ) * (30 * 1000000000))

theorem countdown_warns_once_half_minutes :
    ∃ ten five one left,
      output call new (halfMinutes 0 :: (List.range' 1 21).map halfMinutes) =
        [.notify (noticeFor .tenMinutes ten), .notify (noticeFor .fiveMinutes five),
          .notify (noticeFor .oneMinute one), .showFinalWarning left, .dismissFinalWarning] ∧
      levelFor ten = some .tenMinutes ∧ levelFor five = some .fiveMinutes ∧
      levelFor one = some .oneMinute ∧ 1 ≤ left ∧ left ≤ 30 :=
  countdown_warns_once
    (by decide : ∀ c ∈ halfMinutes 0 :: (List.range' 1 21).map halfMinutes,
      keyOf c.1 = some ⟨"s1", 605 * 1000000000⟩)
    (by decide) (by unfold Follows; decide) (by decide)

end ExpiryWarnings

end Taymna.Agent
