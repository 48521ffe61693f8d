import Taymna.Automata.Run

/-!
# Total automata with outputs

A transducer is a total step function `step : σ → ε → σ × List ο`, which answers each input with a
list of outputs. `after step s es` is the state that the inputs lead to, `outputs step s es` what is
put out at each of them, and `output step s es` all of it in order. A partial automaton over the
outputs is a monitor of them (`run_output`), and two transducers whose steps keep a relation answer
alike (`outputs_eq_of_simulation`).
-/

namespace Automata

variable {σ ε ο : Type*} (step : σ → ε → σ × List ο)

/-- The state that the inputs `es` lead to from `s`. -/
def after (s : σ) (es : List ε) : σ := es.foldl (fun s e => (step s e).1) s

/-- What is put out at each input. -/
def outputs : σ → List ε → List (List ο)
  | _, [] => []
  | s, e :: es => (step s e).2 :: outputs (step s e).1 es

/-- Everything that is put out, in order. -/
def output (s : σ) (es : List ε) : List ο := (outputs step s es).flatten

@[simp] theorem after_nil (s : σ) : after step s [] = s := rfl

@[simp] theorem after_cons (s : σ) (e : ε) (es : List ε) :
    after step s (e :: es) = after step (step s e).1 es := rfl

theorem after_append (s : σ) (es fs : List ε) :
    after step s (es ++ fs) = after step (after step s es) fs := List.foldl_append

@[simp] theorem outputs_cons (s : σ) (e : ε) (es : List ε) :
    outputs step s (e :: es) = (step s e).2 :: outputs step (step s e).1 es := rfl

@[simp] theorem output_nil (s : σ) : output step s [] = [] := rfl

@[simp] theorem output_cons (s : σ) (e : ε) (es : List ε) :
    output step s (e :: es) = (step s e).2 ++ output step (step s e).1 es := rfl

theorem output_append (s : σ) (es fs : List ε) :
    output step s (es ++ fs) = output step s es ++ output step (after step s es) fs := by
  induction es generalizing s with
  | nil => rfl
  | cons e es ih => simp [ih]

variable {step}

/-- What every step preserves, every run preserves. -/
theorem after_invariant {I : σ → Prop} (hstep : ∀ s e, I s → I (step s e).1) {s : σ} (hs : I s)
    (es : List ε) : I (after step s es) := by
  induction es generalizing s with
  | nil => exact hs
  | cons e es ih => exact ih (hstep s e hs)

/-- A monitor of the outputs whose state the transducer's own state tells: it accepts every
output. -/
theorem run_output {μ : Type*} {monitor : μ → ο → Option μ} {I : σ → Prop} {m : σ → μ}
    (hstep : ∀ s e, I s → I (step s e).1 ∧ run monitor (m s) (step s e).2 = some (m (step s e).1))
    {s : σ} (hs : I s) (es : List ε) :
    run monitor (m s) (output step s es) = some (m (after step s es)) := by
  induction es generalizing s with
  | nil => rfl
  | cons e es ih =>
    obtain ⟨hI, hrun⟩ := hstep s e hs
    rw [output_cons, run_append, hrun]
    exact ih hI

/-- A relation between the states that the steps keep on related inputs, with the same answers:
related sequences of inputs are answered alike. -/
theorem outputs_eq_of_simulation {τ δ : Type*} {step' : τ → δ → τ × List ο} {R : σ → τ → Prop}
    {Q : ε → δ → Prop}
    (hstep : ∀ s t e d, R s t → Q e d →
      R (step s e).1 (step' t d).1 ∧ (step s e).2 = (step' t d).2)
    {s : σ} {t : τ} {es : List ε} {ds : List δ} (hR : R s t) (hQ : List.Forall₂ Q es ds) :
    outputs step s es = outputs step' t ds := by
  induction hQ generalizing s t with
  | nil => rfl
  | cons h _ ih =>
    obtain ⟨hR', hout⟩ := hstep _ _ _ _ hR h
    rw [outputs_cons, outputs_cons, hout, ih hR']

end Automata
