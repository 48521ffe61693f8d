import Mathlib.Algebra.BigOperators.Group.List.Basic
import Mathlib.Tactic.Abel
import Taymna.Automata.Run

/-!
# A pool of calls over a shared world

A `Pool` is a shared world and the calls in progress on it, oldest first; a call that has returned
stays in the pool in its last state. `next` is one atomic step, of the environment or of one call,
so that a run of it is an interleaving of the calls at their suspension points. An assertion about
one call and the world holds of every call along a run once it holds at the start of each call, each
step of a call keeps its own assertion, and no step breaks another call's (`Holds.next`).
-/

namespace Automata

structure Pool (W C : Type*) where
  world : W
  calls : List C

namespace Pool

inductive Label (E I : Type*)
  | env (event : E)
  | call (index : ℕ) (input : I)

variable {W C E I : Type*} {env : W → E → Option (W × List C)} {step : W → C → I → Option (W × C)}

/-- One atomic step: the environment may start calls, and a call goes on to its next suspension. -/
def next (env : W → E → Option (W × List C)) (step : W → C → I → Option (W × C)) (p : Pool W C) :
    Label E I → Option (Pool W C)
  | .env event => (env p.world event).map fun (world, started) => ⟨world, p.calls ++ started⟩
  | .call index input =>
    match p.calls[index]? with
    | some c => (step p.world c input).map fun (world, c) => ⟨world, p.calls.set index c⟩
    | none => none

/-- The steps of a pool. -/
inductive Step (env : W → E → Option (W × List C)) (step : W → C → I → Option (W × C)) :
    Pool W C → Label E I → Pool W C → Prop
  | env {p event world started} : env p.world event = some (world, started) →
      Step env step p (.env event) ⟨world, p.calls ++ started⟩
  | call {p index input c world c'} : p.calls[index]? = some c →
      step p.world c input = some (world, c') →
      Step env step p (.call index input) ⟨world, p.calls.set index c'⟩

theorem next_iff {p q : Pool W C} {label : Label E I} :
    next env step p label = some q ↔ Step env step p label q := by
  constructor
  · intro h
    cases label with
    | env event =>
      obtain ⟨⟨world, started⟩, he, rfl⟩ := Option.map_eq_some_iff.1 h
      exact .env he
    | call index input =>
      simp only [next] at h
      split at h
      · rename_i c hc
        obtain ⟨⟨world, c'⟩, hs, rfl⟩ := Option.map_eq_some_iff.1 h
        exact .call hc hs
      · cases h
  · intro h
    cases h with
    | env he => simp [next, he]
    | call hc hs => simp [next, hc, hs]

/-- A call in the pool was there before, or it is one that has just been made. -/
theorem getElem?_append_cases {cs started : List C} {i : ℕ} {c : C}
    (h : (cs ++ started)[i]? = some c) :
    (i < cs.length ∧ cs[i]? = some c) ∨ ∃ j, i = cs.length + j ∧ started[j]? = some c := by
  rcases lt_or_ge i cs.length with hlt | hge
  · exact Or.inl ⟨hlt, by rwa [List.getElem?_append_left hlt] at h⟩
  · rw [List.getElem?_append_right hge] at h
    exact Or.inr ⟨i - cs.length, (Nat.add_sub_cancel' hge).symm, h⟩

/-- After a step of one call, each call in the pool is the one that moved, or another that was there
before. -/
theorem getElem?_set_cases {cs : List C} {index i : ℕ} {c d : C}
    (h : (cs.set index c)[i]? = some d) :
    (i = index ∧ d = c) ∨ i ≠ index ∧ cs[i]? = some d := by
  rw [List.getElem?_set] at h
  split_ifs at h with hij hlt
  · exact Or.inl ⟨hij.symm, (Option.some.inj h).symm⟩
  · exact Or.inr ⟨Ne.symm hij, h⟩

theorem mem_set_cases_of_ne {cs : List C} {index : ℕ} {c d : C} (h : d ∈ cs.set index c) :
    d = c ∨ ∃ i, i ≠ index ∧ cs[i]? = some d := by
  obtain ⟨i, hi⟩ := List.mem_iff_getElem?.1 h
  rcases getElem?_set_cases hi with ⟨-, rfl⟩ | ⟨hne, hi⟩
  · exact Or.inl rfl
  · exact Or.inr ⟨i, hne, hi⟩

theorem mem_set_cases {cs : List C} {index : ℕ} {c d : C} (h : d ∈ cs.set index c) :
    d = c ∨ d ∈ cs := (List.mem_or_eq_of_mem_set h).symm

/-- What one call has reached, no other call takes back: a property of some call in the pool is kept
by a step that keeps it for the call that moves. -/
theorem exists_mem_set {cs : List C} {index : ℕ} {c c' : C} {Q : C → Prop}
    (hc : cs[index]? = some c) (hQ : Q c → Q c') (h : ∃ d ∈ cs, Q d) :
    ∃ d ∈ cs.set index c', Q d := by
  obtain ⟨d, hd, hq⟩ := h
  obtain ⟨j, hj⟩ := List.mem_iff_getElem?.1 hd
  have hlt : index < cs.length := (List.getElem?_eq_some_iff.1 hc).1
  by_cases hij : index = j
  · subst hij
    rw [hj] at hc
    obtain rfl := Option.some.inj hc
    exact ⟨c', List.mem_set hlt c', hQ hq⟩
  · exact ⟨d, List.mem_iff_getElem?.2 ⟨j, by rw [List.getElem?_set_ne hij, hj]⟩, hq⟩

/-- What the calls add up to changes by what the call that moves adds. -/
theorem sum_map_set {α : Type*} [AddCommGroup α] (f : C → α) {cs : List C} {index : ℕ} {c : C}
    (hc : cs[index]? = some c) (c' : C) :
    ((cs.set index c').map f).sum = (cs.map f).sum + (f c' - f c) := by
  obtain ⟨hlt, he⟩ := List.getElem?_eq_some_iff.1 hc
  rw [List.map_set, List.sum_set', dif_pos (by simpa using hlt), List.getElem_map, he]
  abel

/-- `I` holds of the world, and `A` of the world and each call. -/
structure Holds (I : W → Prop) (A : W → C → Prop) (p : Pool W C) : Prop where
  world : I p.world
  calls : ∀ c ∈ p.calls, A p.world c

/-- The rule for one step: `P` is what the step may be assumed to meet. -/
theorem Holds.next {J : W → Prop} {A : W → C → Prop} {P : Pool W C → Label E I → Prop}
    (henv : ∀ p event world started, Holds J A p → P p (.env event) →
      env p.world event = some (world, started) →
      J world ∧ (∀ c ∈ started, A world c) ∧ ∀ c ∈ p.calls, A world c)
    (hstep : ∀ p index input c world c', Holds J A p → P p (.call index input) →
      p.calls[index]? = some c → step p.world c input = some (world, c') →
      J world ∧ A world c' ∧ ∀ i d, i ≠ index → p.calls[i]? = some d → A world d)
    {p q : Pool W C} {label : Label E I} (hp : Holds J A p) (hP : P p label)
    (h : Pool.next env step p label = some q) : Holds J A q := by
  cases next_iff.1 h with
  | env he =>
    obtain ⟨hJ, hnew, hold⟩ := henv _ _ _ _ hp hP he
    exact ⟨hJ, fun c hc => (List.mem_append.1 hc).elim (hold c) (hnew c)⟩
  | call hc hs =>
    obtain ⟨hJ, hmoved, hold⟩ := hstep _ _ _ _ _ _ hp hP hc hs
    refine ⟨hJ, fun d hd => ?_⟩
    rcases mem_set_cases_of_ne hd with rfl | ⟨i, hi, hd⟩
    · exact hmoved
    · exact hold i d hi hd

end Pool

end Automata
