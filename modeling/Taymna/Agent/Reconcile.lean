import Taymna.Automata.Transducer
import Taymna.Agent.Warning

/-!
# What one call of `reconcile` does

A call gives `ExpiryWarnings.reconcile` the session that is held and the trusted time. It first takes
the deadline of an `ACTIVE` session over as its key (`rekey_of_ne`), and then judges it in one of
three ways (`Evaluation`): the deadline has passed, or a level fires, or nothing is said.
-/

namespace Taymna.Agent

open Automata

/-! ## Seconds and levels -/

theorem numSeconds_of_nonneg {d : ℤ} (h : 0 ≤ d) : numSeconds d = d / 1000000000 :=
  Int.tdiv_eq_ediv_of_nonneg h

theorem numSeconds_neg (d : ℤ) : numSeconds (-d) = -numSeconds d := Int.neg_tdiv d _

theorem numSeconds_pos_iff {d : ℤ} : 0 < numSeconds d ↔ 1000000000 ≤ d := by
  rcases le_or_gt 0 d with h | h
  · rw [numSeconds_of_nonneg h]
    omega
  · have hneg := numSeconds_of_nonneg (d := -d) (by omega)
    rw [numSeconds_neg] at hneg
    omega

/-- The seconds that are left until `e`, at most half a minute later. -/
theorem numSeconds_step {e t t' : ℤ} (ht : t ≤ t') (ht' : t' ≤ t + 30 * 1000000000) (he : t' ≤ e) :
    numSeconds (e - t') ≤ numSeconds (e - t) ∧ numSeconds (e - t) ≤ numSeconds (e - t') + 30 := by
  rw [numSeconds_of_nonneg (by omega), numSeconds_of_nonneg (by omega)]
  omega

theorem levelFor_final_iff {r : ℤ} : levelFor r = some .final ↔ r ≤ 30 := by
  unfold levelFor final oneMinute fiveMinutes tenMinutes
  split_ifs <;> simp <;> omega

theorem levelFor_eq_none_iff {r : ℤ} : levelFor r = none ↔ 600 < r := by
  unfold levelFor final oneMinute fiveMinutes tenMinutes
  split_ifs <;> simp <;> omega

theorem arrivingLateLevel_of_lt {r : ℤ} (h : 60 < r) : arrivingLateLevel r = levelFor r :=
  if_neg (not_le.2 h)

theorem arrivingLateLevel_of_le {r : ℤ} (h : r ≤ 60) : arrivingLateLevel r = some .final :=
  if_pos h

/-- Only the final warning is for the last half minute. -/
theorem lt_of_level {late : Bool} {r : ℤ} {level : Level}
    (h : (if late then arrivingLateLevel r else levelFor r) = some level) (hlevel : level ≠ .final) :
    30 < r := by
  by_contra hr
  have hfinal : (if late then arrivingLateLevel r else levelFor r) = some .final := by
    cases late with
    | false => exact levelFor_final_iff.2 (not_lt.1 hr)
    | true => exact arrivingLateLevel_of_le (by omega)
  exact hlevel (Option.some.inj (h.symm.trans hfinal))

/-! ## The cases -/

/-- What the user is told when a level fires. -/
def announce : Level → ℤ → WarningEffect
  | .final, remaining => .showFinalWarning remaining
  | level, remaining => .notify (noticeFor level remaining)

/-- A call of `reconcile`: the session as enforcement has left it, and the trusted time. -/
abbrev Call := Option SessionSnapshot × ℤ

namespace ExpiryWarnings

def call (w : ExpiryWarnings) (c : Call) : ExpiryWarnings × List WarningEffect :=
  w.reconcile c.1 c.2

/-- What takes a final warning down that is on screen. -/
def dismissals (w : ExpiryWarnings) : List WarningEffect :=
  if w.finalVisible then [.dismissFinalWarning] else []

theorem dismissFinal_eq (w : ExpiryWarnings) :
    w.dismissFinal = ({ w with finalVisible := false }, w.dismissals) := by
  obtain ⟨key, fired, lastSeen, visible⟩ := w
  cases visible <;> rfl

theorem rekey_of_eq {w : ExpiryWarnings} {key : Option DeadlineKey} (h : key = w.key) :
    w.rekey key = (w, []) := if_neg (not_not.2 h)

theorem rekey_of_ne {w : ExpiryWarnings} {key : Option DeadlineKey} (h : key ≠ w.key) :
    w.rekey key =
      ({ key := key, fired := none, lastSeen := none, finalVisible := false }, w.dismissals) := by
  simp only [rekey, if_pos h, dismissFinal_eq]

@[simp] theorem rekey_key (w : ExpiryWarnings) (key : Option DeadlineKey) :
    (w.rekey key).1.key = key := by
  by_cases h : key = w.key
  · rw [rekey_of_eq h, h]
  · rw [rekey_of_ne h]

theorem keyOf_eq_some_iff {session : Option SessionSnapshot} {key : DeadlineKey} :
    keyOf session = some key ↔ ∃ s, session = some s ∧ s.status = .active ∧ s.id = key.sessionId ∧
      s.expiresAt = key.expiresAt := by
  obtain ⟨id, expiresAt⟩ := key
  cases session with
  | none => simp [keyOf]
  | some s => by_cases hs : s.status = .active <;> simp [keyOf, Option.filter, hs]

theorem keyOf_eq_none_iff {session : Option SessionSnapshot} :
    keyOf session = none ↔ ∀ s, session = some s → s.status ≠ .active := by
  cases session with
  | none => simp [keyOf]
  | some s => by_cases hs : s.status = .active <;> simp [keyOf, Option.filter, hs]

theorem reconcile_of_none {session : Option SessionSnapshot} (h : keyOf session = none)
    (w : ExpiryWarnings) (now : ℤ) : w.reconcile session now = w.rekey none := by
  have hkey := rekey_key w none
  simp only [reconcile, h, hkey]

theorem reconcile_of_some {session : Option SessionSnapshot} {key : DeadlineKey}
    (h : keyOf session = some key) (w : ExpiryWarnings) (now : ℤ) :
    w.reconcile session now = (((w.rekey (some key)).1.warn key now).1,
      (w.rekey (some key)).2 ++ ((w.rekey (some key)).1.warn key now).2) := by
  have hkey := rekey_key w (some key)
  simp only [reconcile, h, hkey]

/-- The level that the time left calls for. -/
def due (w : ExpiryWarnings) (deadline : DeadlineKey) (now : ℤ) : Option Level :=
  if arrivedLate w.lastSeen now then arrivingLateLevel (numSeconds (deadline.expiresAt - now))
  else levelFor (numSeconds (deadline.expiresAt - now))

theorem warn_of_passed (w : ExpiryWarnings) {deadline : DeadlineKey} {now : ℤ}
    (h : numSeconds (deadline.expiresAt - now) ≤ 0) :
    w.warn deadline now = ({ w with lastSeen := some now, finalVisible := false }, w.dismissals) := by
  simp only [warn, if_pos h, dismissFinal_eq, dismissals]

theorem warn_of_none {w : ExpiryWarnings} {deadline : DeadlineKey} {now : ℤ}
    (h : 0 < numSeconds (deadline.expiresAt - now)) (hdue : w.due deadline now = none) :
    w.warn deadline now = ({ w with lastSeen := some now }, []) := by
  unfold due at hdue
  simp only [warn, if_neg (not_le.2 h), hdue]

theorem warn_of_said {w : ExpiryWarnings} {deadline : DeadlineKey} {now : ℤ} {level : Level}
    (h : 0 < numSeconds (deadline.expiresAt - now)) (hdue : w.due deadline now = some level)
    (hfired : (w.fired.any fun already => level.rank ≤ already.rank) = true) :
    w.warn deadline now = ({ w with lastSeen := some now }, []) := by
  unfold due at hdue
  simp only [warn, if_neg (not_le.2 h), hdue, if_pos hfired]

theorem warn_of_due {w : ExpiryWarnings} {deadline : DeadlineKey} {now : ℤ} {level : Level}
    (h : 0 < numSeconds (deadline.expiresAt - now)) (hdue : w.due deadline now = some level)
    (hfired : ¬ (w.fired.any fun already => level.rank ≤ already.rank) = true) :
    w.warn deadline now =
      ({ w with
          lastSeen := some now
          fired := some level
          finalVisible := w.finalVisible || level = .final },
        [announce level (numSeconds (deadline.expiresAt - now))]) := by
  unfold due at hdue
  simp only [warn, if_neg (not_le.2 h), hdue, if_neg hfired]
  cases level <;> simp [announce]

/-- How a deadline is judged. -/
inductive Evaluation (w : ExpiryWarnings) (deadline : DeadlineKey) (now : ℤ) :
    ExpiryWarnings → List WarningEffect → Prop
  | passed : numSeconds (deadline.expiresAt - now) ≤ 0 →
      Evaluation w deadline now { w with lastSeen := some now, finalVisible := false } w.dismissals
  | quiet : 0 < numSeconds (deadline.expiresAt - now) →
      (∀ level, w.due deadline now = some level →
        ∃ already, w.fired = some already ∧ level.rank ≤ already.rank) →
      Evaluation w deadline now { w with lastSeen := some now } []
  | fires {level} : 0 < numSeconds (deadline.expiresAt - now) →
      w.due deadline now = some level →
      (∀ already, w.fired = some already → already.rank < level.rank) →
      Evaluation w deadline now
        { w with
          lastSeen := some now
          fired := some level
          finalVisible := w.finalVisible || level = .final }
        [announce level (numSeconds (deadline.expiresAt - now))]

theorem warn_cases (w : ExpiryWarnings) (deadline : DeadlineKey) (now : ℤ) :
    Evaluation w deadline now (w.warn deadline now).1 (w.warn deadline now).2 := by
  rcases le_or_gt (numSeconds (deadline.expiresAt - now)) 0 with hle | hpos
  · rw [warn_of_passed w hle]
    exact .passed hle
  · cases hdue : w.due deadline now with
    | none =>
      rw [warn_of_none hpos hdue]
      exact .quiet hpos (by simp [hdue])
    | some level =>
      by_cases hfired : (w.fired.any fun already => level.rank ≤ already.rank) = true
      · rw [warn_of_said hpos hdue hfired]
        refine .quiet hpos fun level' hlevel => ?_
        obtain rfl := Option.some.inj (hdue.symm.trans hlevel)
        simpa [Option.any_eq_true] using hfired
      · rw [warn_of_due hpos hdue hfired]
        refine .fires hpos hdue fun already halready => ?_
        simpa [halready] using hfired

/-- What a call does: the key is taken over, and the deadline in it is judged. -/
inductive Called (w : ExpiryWarnings) (c : Call) : ExpiryWarnings → List WarningEffect → Prop
  | idle : keyOf c.1 = none → Called w c (w.rekey none).1 (w.rekey none).2
  | judged {key w' effects} : keyOf c.1 = some key →
      Evaluation (w.rekey (some key)).1 key c.2 w' effects →
      Called w c w' ((w.rekey (some key)).2 ++ effects)

theorem call_cases (w : ExpiryWarnings) (c : Call) : Called w c (w.call c).1 (w.call c).2 := by
  unfold call
  cases hkey : keyOf c.1 with
  | none =>
    rw [reconcile_of_none hkey]
    exact .idle hkey
  | some key =>
    rw [reconcile_of_some hkey]
    exact .judged hkey (warn_cases _ key c.2)

/-- A call about the deadline that is being warned about. -/
theorem call_of_key {w : ExpiryWarnings} {key : DeadlineKey} {c : Call} (hw : w.key = some key)
    (hc : keyOf c.1 = some key) : w.call c = w.warn key c.2 := by
  unfold call
  rw [reconcile_of_some hc, rekey_of_eq hw.symm]
  rfl

/-- A final warning on screen is the last thing that was said about the deadline. -/
structure Coherent (w : ExpiryWarnings) : Prop where
  fired : w.finalVisible = true → w.fired = some .final
  key : w.finalVisible = true → w.key.isSome = true

theorem coherent_new : Coherent new := ⟨by simp [new], by simp [new]⟩

theorem Coherent.rekey {w : ExpiryWarnings} (hw : w.Coherent) (key : Option DeadlineKey) :
    (w.rekey key).1.Coherent := by
  by_cases h : key = w.key
  · rwa [rekey_of_eq h]
  · rw [rekey_of_ne h]
    exact ⟨by simp, by simp⟩

theorem Coherent.evaluation {w w' : ExpiryWarnings} {deadline : DeadlineKey} {now : ℤ}
    {effects : List WarningEffect} (hw : w.Coherent) (hkey : w.key = some deadline)
    (h : Evaluation w deadline now w' effects) : w'.Coherent := by
  cases h with
  | passed => exact ⟨by simp, by simp⟩
  | quiet => exact ⟨hw.fired, hw.key⟩
  | @fires level hpos hdue hrank =>
    refine ⟨fun hvisible => ?_, fun _ => by simp [hkey]⟩
    rcases Bool.or_eq_true_iff.1 hvisible with hold | hfinal
    · have hlt := hrank _ (hw.fired hold)
      cases level <;> simp [Level.rank] at hlt
    · exact congrArg some (of_decide_eq_true hfinal)

theorem Coherent.call {w : ExpiryWarnings} (hw : w.Coherent) (c : Call) : (w.call c).1.Coherent := by
  have hcases := w.call_cases c
  generalize (w.call c).1 = w', (w.call c).2 = effects at hcases ⊢
  cases hcases with
  | idle => exact hw.rekey none
  | @judged key w' effects hkey heval => exact (hw.rekey (some key)).evaluation (rekey_key w _) heval

theorem coherent_after (cs : List Call) : (after call new cs).Coherent :=
  after_invariant (fun _ c hw => hw.call c) coherent_new cs

end ExpiryWarnings

end Taymna.Agent
