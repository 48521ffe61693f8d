import Taymna.Automata.Run

/-!
# Registers

A register is a part of the state that some labels write, and that all others leave as it is. After a
run it has what the last of these labels has written (`register_run`), which then stands in the history,
and nothing after it writes the register (`exists_lastWrite`).
-/

namespace Automata

variable {σ ε ν : Type*} {step : σ → ε → Option σ}

/-- What the last label that writes has written. -/
def lastWrite (writes : ε → Option ν) (es : List ε) : Option ν := (es.filterMap writes).getLast?

theorem lastWrite_concat (writes : ε → Option ν) (es : List ε) (e : ε) :
    lastWrite writes (es ++ [e]) = (writes e).or (lastWrite writes es) := by
  unfold lastWrite
  rw [List.filterMap_append]
  cases h : writes e with
  | none => simp [h]
  | some v => simp [h]

theorem register_run {get : σ → ν} {writes : ε → Option ν}
    (hstep : ∀ s e t, step s e = some t → get t = (writes e).getD (get s)) {s t : σ} {es : List ε}
    (h : run step s es = some t) : get t = (lastWrite writes es).getD (get s) := by
  refine run_history_invariant (I := fun es t => get t = (lastWrite writes es).getD (get s)) rfl ?_ h
  intro es u e t hu ht
  rw [hstep u e t ht, hu, lastWrite_concat]
  cases writes e <;> rfl

theorem exists_lastWrite {writes : ε → Option ν} {es : List ε} {v : ν} (h : lastWrite writes es = some v) :
    ∃ before e after, es = before ++ e :: after ∧ writes e = some v ∧ ∀ f ∈ after, writes f = none := by
  induction es using List.reverseRecOn with
  | nil => cases h
  | append_singleton es e ih =>
    rw [lastWrite_concat] at h
    cases hw : writes e with
    | some w =>
      rw [hw, Option.some_or] at h
      exact ⟨es, e, [], rfl, hw.trans h, fun f hf => by cases hf⟩
    | none =>
      rw [hw, Option.none_or] at h
      obtain ⟨before, e', after, rfl, he', hafter⟩ := ih h
      refine ⟨before, e', after ++ [e], by simp, he', fun f hf => ?_⟩
      rcases List.mem_append.1 hf with hf | hf
      · exact hafter f hf
      · rw [List.mem_singleton.1 hf, hw]

end Automata
