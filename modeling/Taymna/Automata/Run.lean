import Mathlib.Data.List.Induction
import Mathlib.Tactic.Common

/-!
# Runs of a deterministic automaton

A labelled automaton is a partial step function `step : σ → ε → Option σ`: `none` means that the
label is not enabled. `run step s es` executes a list of labels, and `Along step P s es` says that
`P` holds of every state and label that this execution passes through. The rules below turn what
one step preserves into what a whole run preserves (`run_invariant`, `run_invariant_along`) and
into what holds at each of its steps (`along_of_invariant`).
-/

namespace Automata

variable {σ ε ο : Type*} {step : σ → ε → Option σ}

/-- The state that the labels `es` lead to from `s`, when each is enabled in its turn. -/
def run (step : σ → ε → Option σ) : σ → List ε → Option σ
  | s, [] => some s
  | s, e :: es => (step s e).bind fun t => run step t es

@[simp] theorem run_nil (s : σ) : run step s [] = some s := rfl

theorem run_cons (s : σ) (e : ε) (es : List ε) :
    run step s (e :: es) = (step s e).bind fun t => run step t es := rfl

theorem run_cons_eq_some {s t : σ} {e : ε} {es : List ε} :
    run step s (e :: es) = some t ↔ ∃ u, step s e = some u ∧ run step u es = some t := by
  rw [run_cons, Option.bind_eq_some_iff]

theorem run_append (s : σ) (es fs : List ε) :
    run step s (es ++ fs) = (run step s es).bind fun t => run step t fs := by
  induction es generalizing s with
  | nil => rfl
  | cons e es ih =>
    rw [List.cons_append, run_cons, run_cons, Option.bind_assoc]
    exact congrArg (Option.bind (step s e)) (funext fun t => ih t)

theorem run_append_eq_some {s t : σ} {es fs : List ε} :
    run step s (es ++ fs) = some t ↔ ∃ u, run step s es = some u ∧ run step u fs = some t := by
  rw [run_append, Option.bind_eq_some_iff]

/-- One more step at the end of a run. -/
theorem run_concat_eq_some {s t : σ} {es : List ε} {e : ε} :
    run step s (es ++ [e]) = some t ↔ ∃ u, run step s es = some u ∧ step u e = some t := by
  rw [run_append_eq_some]
  simp only [run_cons_eq_some, run_nil, Option.some.injEq, exists_eq_right]

/-! ## Invariants -/

/-- What every enabled step preserves, every run preserves. -/
theorem run_invariant {I : σ → Prop} (hstep : ∀ s e t, I s → step s e = some t → I t)
    {s t : σ} {es : List ε} (hs : I s) (h : run step s es = some t) : I t := by
  induction es generalizing s with
  | nil =>
    obtain rfl := Option.some.inj h
    exact hs
  | cons e es ih =>
    obtain ⟨u, hu, ht⟩ := run_cons_eq_some.1 h
    exact ih (hstep s e u hs hu) ht

/-- An invariant that speaks of the labels executed so far. -/
theorem run_history_invariant {s₀ : σ} {I : List ε → σ → Prop} (h₀ : I [] s₀)
    (hstep : ∀ es s e t, I es s → step s e = some t → I (es ++ [e]) t)
    {t : σ} {es : List ε} (h : run step s₀ es = some t) : I es t := by
  induction es using List.reverseRecOn generalizing t with
  | nil =>
    obtain rfl := Option.some.inj h
    exact h₀
  | append_singleton es e ih =>
    obtain ⟨u, hu, ht⟩ := run_concat_eq_some.1 h
    exact hstep es u e t (ih hu) ht

/-- `P` holds of every state and label that the run of `es` from `s` passes through. -/
def Along (step : σ → ε → Option σ) (P : σ → ε → Prop) : σ → List ε → Prop
  | _, [] => True
  | s, e :: es => P s e ∧ match step s e with
    | some t => Along step P t es
    | none => True

instance Along.instDecidable (P : σ → ε → Prop) [∀ s e, Decidable (P s e)] :
    ∀ (s : σ) (es : List ε), Decidable (Along step P s es)
  | _, [] => instDecidableTrue
  | s, e :: es =>
    match h : step s e with
    | some t =>
      have := Along.instDecidable P t es
      decidable_of_iff (P s e ∧ Along step P t es) (by simp only [Along, h])
    | none => decidable_of_iff (P s e) (by simp only [Along, h, and_true])

@[simp] theorem along_nil (P : σ → ε → Prop) (s : σ) : Along step P s [] := trivial

theorem along_cons_iff {P : σ → ε → Prop} {s : σ} {e : ε} {es : List ε} :
    Along step P s (e :: es) ↔ P s e ∧ ∀ t, step s e = some t → Along step P t es := by
  rw [Along]
  cases h : step s e <;> simp

theorem along_append_iff {P : σ → ε → Prop} {s : σ} {es fs : List ε} :
    Along step P s (es ++ fs) ↔
      Along step P s es ∧ ∀ t, run step s es = some t → Along step P t fs := by
  induction es generalizing s with
  | nil => simp
  | cons e es ih =>
    simp only [List.cons_append, along_cons_iff, ih, run_cons_eq_some]
    constructor
    · rintro ⟨hp, hr⟩
      exact ⟨⟨hp, fun u hu => (hr u hu).1⟩, fun t ⟨u, hu, ht⟩ => (hr u hu).2 t ht⟩
    · rintro ⟨⟨hp, hr⟩, hf⟩
      exact ⟨hp, fun u hu => ⟨hr u hu, fun t ht => hf t ⟨u, hu, ht⟩⟩⟩

theorem Along.mono {P Q : σ → ε → Prop} (hPQ : ∀ s e, P s e → Q s e) {s : σ} {es : List ε}
    (h : Along step P s es) : Along step Q s es := by
  induction es generalizing s with
  | nil => trivial
  | cons e es ih =>
    rw [along_cons_iff] at h ⊢
    exact ⟨hPQ s e h.1, fun t ht => ih (h.2 t ht)⟩

theorem Along.and {P Q : σ → ε → Prop} {s : σ} {es : List ε} (hP : Along step P s es)
    (hQ : Along step Q s es) : Along step (fun s e => P s e ∧ Q s e) s es := by
  induction es generalizing s with
  | nil => trivial
  | cons e es ih =>
    rw [along_cons_iff] at hP hQ ⊢
    exact ⟨⟨hP.1, hQ.1⟩, fun t ht => ih (hP.2 t ht) (hQ.2 t ht)⟩

theorem along_of_forall {P : σ → ε → Prop} {es : List ε} (h : ∀ s, ∀ e ∈ es, P s e) (s : σ) :
    Along step P s es := by
  induction es generalizing s with
  | nil => trivial
  | cons e es ih =>
    rw [along_cons_iff]
    exact ⟨h s e List.mem_cons_self, fun t _ => ih (fun s e he => h s e (List.mem_cons_of_mem _ he)) t⟩

/-- What every step preserves that meets `P`, every run preserves whose steps all meet `P`. -/
theorem run_invariant_along {I : σ → Prop} {P : σ → ε → Prop}
    (hstep : ∀ s e t, I s → P s e → step s e = some t → I t)
    {s t : σ} {es : List ε} (hs : I s) (hP : Along step P s es) (h : run step s es = some t) :
    I t := by
  induction es generalizing s with
  | nil =>
    obtain rfl := Option.some.inj h
    exact hs
  | cons e es ih =>
    obtain ⟨u, hu, ht⟩ := run_cons_eq_some.1 h
    rw [along_cons_iff] at hP
    exact ih (hstep s e u hs hP.1 hu) (hP.2 u hu) ht

/-- An invariant that gives `Q` at every step that meets `P` gives `Q` at each step of every run
whose steps all meet `P`. -/
theorem along_of_invariant {I : σ → Prop} {P Q : σ → ε → Prop}
    (hstep : ∀ s e t, I s → P s e → step s e = some t → I t)
    (hQ : ∀ s e, I s → P s e → Q s e)
    {s : σ} {es : List ε} (hs : I s) (hP : Along step P s es) : Along step Q s es := by
  induction es generalizing s with
  | nil => trivial
  | cons e es ih =>
    rw [along_cons_iff] at hP ⊢
    exact ⟨hQ s e hs hP.1, fun t ht => ih (hstep s e t hs hP.1 ht) (hP.2 t ht)⟩

/-- If a step leads to `G` just when it comes from `G` and meets `P`, then a run does just when it starts
with `G` and all its steps meet `P`. -/
theorem run_iff_along {I G : σ → Prop} {P : σ → ε → Prop}
    (hstep : ∀ s e t, I s → step s e = some t → I t ∧ (G t ↔ G s ∧ P s e))
    {s t : σ} {es : List ε} (hs : I s) (h : run step s es = some t) : G t ↔ G s ∧ Along step P s es := by
  induction es generalizing s with
  | nil =>
    obtain rfl := Option.some.inj h
    simp
  | cons e es ih =>
    obtain ⟨u, hu, ht⟩ := run_cons_eq_some.1 h
    obtain ⟨hI, hiff⟩ := hstep s e u hs hu
    have hall : (∀ v, step s e = some v → Along step P v es) ↔ Along step P u es :=
      ⟨fun hv => hv u hu, fun ha v hv => Option.some.inj (hu.symm.trans hv) ▸ ha⟩
    rw [ih hI ht, hiff, along_cons_iff, hall, and_assoc]

/-! ## Outputs -/

/-- The automaton that collects, next to the state, everything its steps put out. -/
def logged (step : σ → ε → Option (σ × List ο)) (p : σ × List ο) (e : ε) : Option (σ × List ο) :=
  (step p.1 e).map fun q => (q.1, p.2 ++ q.2)

/-- The state component of a step with outputs. -/
def silent (step : σ → ε → Option (σ × List ο)) (s : σ) (e : ε) : Option σ := (step s e).map Prod.fst

theorem silent_eq_some {step : σ → ε → Option (σ × List ο)} {s t : σ} {e : ε} :
    silent step s e = some t ↔ ∃ os, step s e = some (t, os) := by
  simp [silent]

theorem logged_eq_some {step : σ → ε → Option (σ × List ο)} {p q : σ × List ο} {e : ε} :
    logged step p e = some q ↔ ∃ t os, step p.1 e = some (t, os) ∧ q = (t, p.2 ++ os) := by
  simp only [logged, Option.map_eq_some_iff, Prod.exists, eq_comm (a := q)]

/-- What holds along a run does not see the outputs. -/
theorem along_logged_iff {step : σ → ε → Option (σ × List ο)} {P : σ → ε → Prop}
    {p : σ × List ο} {es : List ε} :
    Along (logged step) (fun p e => P p.1 e) p es ↔ Along (silent step) P p.1 es := by
  induction es generalizing p with
  | nil => exact Iff.rfl
  | cons e es ih =>
    rw [along_cons_iff, along_cons_iff]
    refine and_congr_right fun _ => ⟨fun h t ht => ?_, fun h q hq => ?_⟩
    · obtain ⟨os, ho⟩ := silent_eq_some.1 ht
      exact ih.1 (h _ (logged_eq_some.2 ⟨t, os, ho, rfl⟩))
    · obtain ⟨t, os, ho, rfl⟩ := logged_eq_some.1 hq
      exact ih.2 (h t (silent_eq_some.2 ⟨os, ho⟩))

/-! ## Simulation -/

/-- A relation that each step of the first automaton carries over to a step of the second, as long
as `P` holds there, carries every run over. -/
theorem run_simulation {τ δ : Type*} {step' : τ → δ → Option τ} {f : δ → ε} {R : σ → τ → Prop}
    {P : τ → δ → Prop}
    (hsim : ∀ s t d s', R s t → P t d → step s (f d) = some s' → ∃ t', step' t d = some t' ∧ R s' t')
    {s s' : σ} {t : τ} {ds : List δ} (hR : R s t) (hP : Along step' P t ds)
    (h : run step s (ds.map f) = some s') : ∃ t', run step' t ds = some t' ∧ R s' t' := by
  induction ds generalizing s t with
  | nil =>
    obtain rfl := Option.some.inj h
    exact ⟨t, rfl, hR⟩
  | cons d ds ih =>
    obtain ⟨u, hu, hs'⟩ := run_cons_eq_some.1 h
    rw [along_cons_iff] at hP
    obtain ⟨v, hv, hRv⟩ := hsim s t d u hR hP.1 hu
    obtain ⟨t', ht', hRt⟩ := ih hRv (hP.2 v hv) hs'
    exact ⟨t', run_cons_eq_some.2 ⟨v, hv, ht'⟩, hRt⟩

/-- Two automata that, as long as `P` holds, go on or stop together and keep a relation: so do their
runs. -/
theorem run_rel {τ δ : Type*} {step' : τ → δ → Option τ} {f : δ → ε} {R : τ → σ → Prop}
    {P : σ → ε → Prop}
    (hstep : ∀ t s d, R t s → P s (f d) → Option.Rel R (step' t d) (step s (f d)))
    {t : τ} {s : σ} {ds : List δ} (hR : R t s) (hP : Along step P s (ds.map f)) :
    Option.Rel R (run step' t ds) (run step s (ds.map f)) := by
  induction ds generalizing t s with
  | nil => exact .some hR
  | cons d ds ih =>
    rw [List.map_cons, along_cons_iff] at hP
    have hrel := hstep t s d hR hP.1
    rw [List.map_cons, run_cons, run_cons]
    generalize ht : step' t d = t' at hrel ⊢
    generalize hs : step s (f d) = s' at hrel ⊢
    cases hrel with
    | some hR' => exact ih hR' (hP.2 _ hs)
    | none => exact .none

/-- Where its steps agree with those of another, an automaton has the same runs. -/
theorem run_congr {step' : σ → ε → Option σ} {P : σ → ε → Prop}
    (hstep : ∀ s e, P s e → step' s e = step s e) {s : σ} {es : List ε} (hP : Along step P s es) :
    run step' s es = run step s es := by
  induction es generalizing s with
  | nil => rfl
  | cons e es ih =>
    rw [along_cons_iff] at hP
    rw [run_cons, run_cons, hstep s e hP.1]
    cases hs : step s e with
    | none => rfl
    | some t => exact ih (hP.2 t hs)

/-! ## History variables -/

/-- The automaton that keeps a history variable next to the state. -/
def annotated {γ : Type*} (step : σ → ε → Option σ) (next : σ → ε → γ → γ) (p : σ × γ) (e : ε) :
    Option (σ × γ) := (step p.1 e).map fun t => (t, next p.1 e p.2)

theorem annotated_eq_some {γ : Type*} {next : σ → ε → γ → γ} {p q : σ × γ} {e : ε} :
    annotated step next p e = some q ↔ ∃ t, step p.1 e = some t ∧ q = (t, next p.1 e p.2) := by
  simp only [annotated, Option.map_eq_some_iff, eq_comm (a := q)]

/-- A history variable neither adds a run nor takes one away. -/
theorem exists_run_annotated_iff {γ : Type*} {next : σ → ε → γ → γ} {s t : σ} {g : γ}
    {es : List ε} :
    (∃ g', run (annotated step next) (s, g) es = some (t, g')) ↔ run step s es = some t := by
  induction es generalizing s g with
  | nil => simp
  | cons e es ih =>
    constructor
    · rintro ⟨g', h⟩
      obtain ⟨u, hu, ht⟩ := run_cons_eq_some.1 h
      obtain ⟨v, hv, rfl⟩ := annotated_eq_some.1 hu
      exact run_cons_eq_some.2 ⟨v, hv, ih.1 ⟨g', ht⟩⟩
    · intro h
      obtain ⟨v, hv, ht⟩ := run_cons_eq_some.1 h
      obtain ⟨g', hg⟩ := (ih (g := next s e g)).2 ht
      exact ⟨g', run_cons_eq_some.2 ⟨_, annotated_eq_some.2 ⟨v, hv, rfl⟩, hg⟩⟩

end Automata
