import Taymna.Text.Replace

/-!
# Templates

A template is a text with holes, behind each of which a separator stands and more text. A pattern
that no separator is part of, and that begins nowhere in the texts, is replaced in what fills the
holes and nowhere else (`replaceAll_fill`), so that a mark which fills a hole is replaced by its
value alone (`replaceAll_fill_mark`).
-/

namespace Text

variable {α ι : Type*}

structure Template (ι α : Type*) where
  start : List α
  /-- Each hole, the separator behind it and the text that follows. -/
  holes : List (ι × α × List α)

/-- The template with a text for each hole. -/
def Template.fill (t : Template ι α) (v : ι → List α) : List α :=
  t.start ++ t.holes.flatMap fun h => v h.1 ++ h.2.1 :: h.2.2

variable [DecidableEq α] {p : List α}

/-- The pattern begins nowhere in `s`, whatever follows it. -/
def Skips (p s : List α) : Prop := ∀ r b, replaceAll p r (s ++ b) = s ++ replaceAll p r b

theorem Skips.nil (p : List α) : Skips p [] := fun _ _ => rfl

theorem Skips.of_notMem {s : List α} (hp : p ≠ []) (h : p.head hp ∉ s) : Skips p s :=
  fun r b => replaceAll_append_of_notMem hp h r b

theorem Skips.append {s t : List α} (hs : Skips p s) (ht : Skips p t) : Skips p (s ++ t) := by
  intro r b
  rw [List.append_assoc, hs, ht, List.append_assoc]

theorem Skips.flatMap {β : Type*} {f : β → List α} {l : List β} (h : ∀ x ∈ l, Skips p (f x)) :
    Skips p (l.flatMap f) := by
  induction l with
  | nil => exact Skips.nil p
  | cons x l ih =>
    rw [List.flatMap_cons]
    exact (h x List.mem_cons_self).append (ih fun y hy => h y (List.mem_cons_of_mem _ hy))

/-- The pattern's first character, but not its second. -/
theorem Skips.pair {c d e : α} {q : List α} (hde : d ≠ e) (he : e ≠ c) : Skips (c :: d :: q) [c, e] := by
  intro r b
  have hfirst : ¬ c :: d :: q <+: c :: e :: b := by
    intro h
    exact hde (List.cons_prefix_cons.1 (List.cons_prefix_cons.1 h).2).1
  have hsecond : ¬ c :: d :: q <+: e :: b := by
    intro h
    exact he (List.cons_prefix_cons.1 h).1.symm
  show replaceAll _ r (c :: e :: b) = c :: e :: replaceAll _ r b
  rw [replaceAll_cons r hfirst, replaceAll_cons r hsecond]

namespace Template

variable {t : Template ι α}

/-- The pattern can only occur in what fills the holes. -/
structure Clear (t : Template ι α) (p : List α) : Prop where
  start : Skips p t.start
  holes : ∀ h ∈ t.holes, h.2.1 ∉ p ∧ Skips p h.2.2

theorem replaceAll_fill (hp : p ≠ []) (ht : t.Clear p) (r : List α) (v : ι → List α) :
    replaceAll p r (t.fill v) = t.fill fun i => replaceAll p r (v i) := by
  have hholes : ∀ hs : List (ι × α × List α), (∀ h ∈ hs, h.2.1 ∉ p ∧ Skips p h.2.2) →
      replaceAll p r (hs.flatMap fun h => v h.1 ++ h.2.1 :: h.2.2) =
        hs.flatMap fun h => replaceAll p r (v h.1) ++ h.2.1 :: h.2.2 := by
    intro hs
    induction hs with
    | nil => exact fun _ => rfl
    | cons h hs ih =>
      intro hclear
      obtain ⟨hsep, hskip⟩ := hclear h List.mem_cons_self
      rw [List.flatMap_cons, List.flatMap_cons, List.append_assoc, List.cons_append,
        replaceAll_append_sep hp hsep, hskip, ih fun h' hh => hclear h' (List.mem_cons_of_mem _ hh),
        List.append_assoc, List.cons_append]
  unfold fill
  rw [ht.start, hholes t.holes ht.holes]

/-- A mark that fills one kind of hole, and occurs in no other filling. -/
theorem replaceAll_fill_mark [DecidableEq ι] (hp : p ≠ []) (ht : t.Clear p) (r : List α)
    {v : ι → List α} {i : ι} (hi : v i = p) (hv : ∀ j, j ≠ i → ¬ p <:+: v j) :
    replaceAll p r (t.fill v) = t.fill (Function.update v i r) := by
  rw [replaceAll_fill hp ht]
  refine congrArg t.fill (funext fun j => ?_)
  by_cases hj : j = i
  · subst hj
    rw [hi, replaceAll_self hp, Function.update_self]
  · rw [replaceAll_eq_self r (hv j hj), Function.update_of_ne hj]

end Template

end Text
