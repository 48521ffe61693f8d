import Mathlib.Logic.Function.Basic
import Taymna.Automata.Run

/-!
# A family of automata

Copies of one automaton, one for each index, of which each step moves one. What every step of a copy
preserves holds of every copy along the runs of the family (`family_invariant`), and a run of one
copy is a run of the family that leaves the others where they are (`run_family_single`).
-/

namespace Automata

variable {ι σ ε : Type*} [DecidableEq ι]

/-- One step of the copy `e.1`. -/
def family (step : σ → ε → Option σ) (s : ι → σ) (e : ι × ε) : Option (ι → σ) :=
  (step (s e.1) e.2).map (Function.update s e.1)

variable {step : σ → ε → Option σ}

theorem family_eq_some {s t : ι → σ} {e : ι × ε} :
    family step s e = some t ↔ ∃ u, step (s e.1) e.2 = some u ∧ t = Function.update s e.1 u := by
  simp only [family, Option.map_eq_some_iff, eq_comm (a := t)]

theorem family_invariant {I : σ → Prop} {P : σ → ε → Prop}
    (hstep : ∀ s e t, I s → P s e → step s e = some t → I t) {s t : ι → σ} {es : List (ι × ε)}
    (hs : ∀ i, I (s i)) (hP : Along (family step) (fun s e => P (s e.1) e.2) s es)
    (h : run (family step) s es = some t) (i : ι) : I (t i) := by
  refine run_invariant_along (I := fun s => ∀ i, I (s i)) (fun s e t hs hP h i => ?_) hs hP h i
  obtain ⟨u, hu, rfl⟩ := family_eq_some.1 h
  by_cases hi : i = e.1
  · subst hi
    rw [Function.update_self]
    exact hstep _ _ _ (hs _) hP hu
  · rw [Function.update_of_ne hi]
    exact hs i

theorem run_family_single {s : ι → σ} {i : ι} {t : σ} {es : List ε} (h : run step (s i) es = some t) :
    run (family step) s (es.map fun e => (i, e)) = some (Function.update s i t) := by
  induction es generalizing s with
  | nil =>
    obtain rfl := Option.some.inj h
    rw [Function.update_eq_self]
    rfl
  | cons e es ih =>
    obtain ⟨u, hu, ht⟩ := run_cons_eq_some.1 h
    refine run_cons_eq_some.2 ⟨_, family_eq_some.2 ⟨u, hu, rfl⟩, ?_⟩
    rw [ih (by rwa [Function.update_self]), Function.update_idem]

end Automata
