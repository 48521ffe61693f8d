import Taymna.Automata.Pool

/-!
# The turns of one call

Along a run of a pool, one call goes on whenever its index is chosen, and the world may have become
another in the meantime. `turns` lists what it finds at each of its turns and what it leaves, and
`Takes` says that a call takes such turns, whatever happens between them: what is proved of `Takes`
holds under every interference.
-/

namespace Automata.Pool

/-- One step of a call: the world it finds, where the call is, and the world it leaves. -/
structure Turn (W C : Type*) where
  before : W
  call : C
  after : W

variable {W C E I : Type*} {env : W → E → Option (W × List C)} {step : W → C → I → Option (W × C)}

/-- The turn, if any, that the call `i` has in a step from `p` to `q`. -/
def turn (i : ℕ) (p : Pool W C) (label : Label E I) (q : Pool W C) : List (Turn W C) :=
  match label with
  | .call j _ => if j = i then (p.calls[i]?).toList.map fun c => ⟨p.world, c, q.world⟩ else []
  | .env _ => []

/-- The turns of the call `i` along a run. -/
def turns (env : W → E → Option (W × List C)) (step : W → C → I → Option (W × C)) (i : ℕ) :
    Pool W C → List (Label E I) → List (Turn W C)
  | _, [] => []
  | p, label :: es =>
    match next env step p label with
    | some q => turn i p label q ++ turns env step i q es
    | none => []

/-- A call takes these turns, in worlds that others may have changed. -/
inductive Takes (step : W → C → I → Option (W × C)) : C → List (Turn W C) → C → Prop
  | nil {c} : Takes step c [] c
  | cons {c w input w' c' ts c''} : step w c input = some (w', c') → Takes step c' ts c'' →
      Takes step c (⟨w, c, w'⟩ :: ts) c''

/-- Along a run, a call takes its turns. -/
theorem takes_turns {p q : Pool W C} {es : List (Label E I)} {i : ℕ} {c : C}
    (h : run (next env step) p es = some q) (hc : p.calls[i]? = some c) :
    ∃ c', q.calls[i]? = some c' ∧ Takes step c (turns env step i p es) c' := by
  induction es generalizing p c with
  | nil =>
    obtain rfl := Option.some.inj h
    exact ⟨c, hc, .nil⟩
  | cons label es ih =>
    obtain ⟨r, hr, hq⟩ := run_cons_eq_some.1 h
    have hturns : turns env step i p (label :: es) = turn i p label r ++ turns env step i r es := by
      rw [turns, hr]
    rw [hturns]
    cases next_iff.1 hr with
    | env he =>
      refine ih hq ?_
      rw [List.getElem?_append_left (List.getElem?_eq_some_iff.1 hc).1]
      exact hc
    | @call index input d world d' hd hs =>
      by_cases hij : index = i
      · subst hij
        obtain rfl := Option.some.inj (hc.symm.trans hd)
        have hd' : (p.calls.set index d')[index]? = some d' := by
          rw [List.getElem?_set_self (List.getElem?_eq_some_iff.1 hc).1]
        obtain ⟨c', hc', htakes⟩ := ih hq hd'
        refine ⟨c', hc', ?_⟩
        simp only [turn, if_true, hc, Option.toList_some, List.map_cons, List.map_nil]
        exact .cons hs htakes
      · obtain ⟨c', hc', htakes⟩ := ih hq (by rwa [List.getElem?_set_ne hij])
        refine ⟨c', hc', ?_⟩
        simp only [turn, if_neg hij, List.nil_append]
        exact htakes

/-- What each turn keeps, given the turns so far, all turns keep. -/
theorem Takes.invariant {J : List (Turn W C) → C → Prop}
    (hstep : ∀ ts w c input w' c', J ts c → step w c input = some (w', c') →
      J (ts ++ [⟨w, c, w'⟩]) c')
    {c c' : C} {ts : List (Turn W C)} (h : Takes step c ts c') (hc : J [] c) : J ts c' := by
  have hall : ∀ before, J before c → J (before ++ ts) c' := by
    clear hc
    induction h with
    | nil =>
      intro before hb
      rwa [List.append_nil]
    | @cons c w input w' c' ts c'' hs _ ih =>
      intro before hb
      rw [List.append_cons]
      exact ih _ (hstep _ _ _ _ _ _ hb hs)
  exact hall [] hc

end Automata.Pool
