import Mathlib.Data.List.Infix
import Mathlib.Data.List.Count

/-!
# Replacing a pattern in a text

`replaceAll p r s` replaces the occurrences of the pattern `p` in `s` by `r`, from left to right
and without overlaps.  An induction over the pieces the replacement works on
(`pieces_induction`), what a character that is not in the pattern separates
(`replaceAll_append_sep`), and when no occurrence is left over (`not_infix_replaceAll`).
-/

namespace Text

variable {α : Type*} {p r s a b : List α} {c : α}

theorem not_prefix_cons (hc : c ∉ p) (hp : p ≠ []) : ¬ p <+: c :: s := by
  intro h
  rcases List.prefix_cons_iff.1 h with rfl | ⟨q, rfl, -⟩
  · exact hp rfl
  · exact hc List.mem_cons_self

theorem prefix_append_sep (hc : c ∉ p) : p <+: a ++ c :: b ↔ p <+: a := by
  refine ⟨fun h => ?_, fun h => h.trans (List.prefix_append a _)⟩
  rcases List.prefix_or_prefix_of_prefix h (List.prefix_append a (c :: b)) with hpa | ⟨q, rfl⟩
  · exact hpa
  · rw [List.prefix_append_right_inj] at h
    cases q with
    | nil => simp
    | cons d q =>
      obtain ⟨rfl, -⟩ := List.cons_prefix_cons.1 h
      simp at hc

theorem infix_append_sep (hc : c ∉ p) : p <:+: a ++ c :: b ↔ p <:+: a ∨ p <:+: b := by
  induction a with
  | nil =>
    have hnil : p <+: c :: b ↔ p = [] := by
      have := prefix_append_sep (a := []) (b := b) hc
      rwa [List.nil_append, List.prefix_nil] at this
    rw [List.nil_append, List.infix_cons_iff, hnil, List.infix_nil]
  | cons d a ih =>
    have hd : p <+: d :: (a ++ c :: b) ↔ p <+: d :: a := prefix_append_sep (a := d :: a) hc
    rw [List.cons_append, List.infix_cons_iff, hd, ih, List.infix_cons_iff, or_assoc]

variable [DecidableEq α]

/-- `replaceAll`, with `skip` characters of an occurrence still to be passed over. -/
def replaceFrom (p r : List α) : ℕ → List α → List α
  | _, [] => []
  | skip + 1, _ :: s => replaceFrom p r skip s
  | 0, c :: s =>
      if p <+: c :: s then r ++ replaceFrom p r (p.length - 1) s else c :: replaceFrom p r 0 s

/-- Replace the occurrences of the nonempty pattern `p` by `r`, from left to right. -/
def replaceAll (p r s : List α) : List α := replaceFrom p r 0 s

@[simp] theorem replaceAll_nil : replaceAll p r [] = [] := rfl

theorem replaceFrom_append (p r x s : List α) :
    replaceFrom p r x.length (x ++ s) = replaceAll p r s := by
  induction x with
  | nil => rfl
  | cons c x ih => exact ih

theorem replaceAll_append_self (hp : p ≠ []) (r s : List α) :
    replaceAll p r (p ++ s) = r ++ replaceAll p r s := by
  obtain ⟨c, q, rfl⟩ := List.exists_cons_of_ne_nil hp
  have hit : c :: q <+: c :: (q ++ s) := List.prefix_append (c :: q) s
  show (if c :: q <+: c :: (q ++ s) then r ++ replaceFrom (c :: q) r q.length (q ++ s) else _) = _
  rw [if_pos hit, replaceFrom_append]

theorem replaceAll_self (hp : p ≠ []) (r : List α) : replaceAll p r p = r := by
  simpa using replaceAll_append_self hp r []

theorem replaceAll_cons (r : List α) (h : ¬ p <+: c :: s) :
    replaceAll p r (c :: s) = c :: replaceAll p r s := by
  show (if p <+: c :: s then _ else c :: replaceFrom p r 0 s) = _
  rw [if_neg h]
  rfl

/-- Along the pieces of a text: an occurrence of the pattern, or a character at which none
starts. -/
@[elab_as_elim]
theorem pieces_induction {motive : List α → Prop} (hp : p ≠ []) (nil : motive [])
    (hit : ∀ s, motive s → motive (p ++ s))
    (miss : ∀ c s, ¬ p <+: c :: s → motive s → motive (c :: s)) (s : List α) : motive s := by
  induction hn : s.length using Nat.strong_induction_on generalizing s with
  | _ n ih =>
    by_cases hs : p <+: s
    · obtain ⟨t, rfl⟩ := hs
      have hpos : 0 < p.length := List.length_pos_of_ne_nil hp
      have hlt : t.length < n := by rw [← hn, List.length_append]; omega
      exact hit t (ih _ hlt t rfl)
    · cases s with
      | nil => exact nil
      | cons c s =>
        have hlt : s.length < n := by rw [← hn, List.length_cons]; omega
        exact miss c s hs (ih _ hlt s rfl)

/-- A pattern of one character is replaced character by character. -/
theorem replaceAll_singleton (c : α) (r s : List α) :
    replaceAll [c] r s = s.flatMap fun d => if d = c then r else [d] := by
  induction s with
  | nil => rfl
  | cons d s ih =>
    by_cases hd : d = c
    · subst hd
      rw [List.flatMap_cons, if_pos rfl, ← ih]
      exact replaceAll_append_self (List.cons_ne_nil d []) r s
    · have hmiss : ¬ [c] <+: d :: s := by
        rw [List.cons_prefix_cons]
        exact fun h => hd h.1.symm
      rw [List.flatMap_cons, if_neg hd, ← ih, replaceAll_cons r hmiss]
      rfl

/-- Where the pattern does not occur, nothing is replaced. -/
theorem replaceAll_eq_self (r : List α) (h : ¬ p <:+: s) : replaceAll p r s = s := by
  induction s with
  | nil => rfl
  | cons c s ih =>
    rw [List.infix_cons_iff, not_or] at h
    rw [replaceAll_cons r h.1, ih h.2]

/-- A character that is not in the pattern separates the replacements. -/
theorem replaceAll_append_sep (hp : p ≠ []) (hc : c ∉ p) (r a b : List α) :
    replaceAll p r (a ++ c :: b) = replaceAll p r a ++ c :: replaceAll p r b := by
  induction a using pieces_induction hp with
  | nil =>
    rw [List.nil_append, replaceAll_cons r (not_prefix_cons hc hp), replaceAll_nil,
      List.nil_append]
  | hit a ih =>
    rw [List.append_assoc, replaceAll_append_self hp, replaceAll_append_self hp, ih,
      List.append_assoc]
  | miss d a hmiss ih =>
    have hmiss' : ¬ p <+: d :: (a ++ c :: b) := by
      rwa [← List.cons_append, prefix_append_sep hc]
    rw [List.cons_append, replaceAll_cons r hmiss', replaceAll_cons r hmiss, ih, List.cons_append]

/-! ## What is left of the pattern -/

/-- A proper end of the pattern at the start of the result was there before. -/
theorem prefix_of_prefix_replaceAll {q : List α} (hp : p ≠ []) (hlast : p.getLast hp ∉ r)
    (hout : ∃ d ∈ r, d ∉ p) (hq : q <:+ p) (h : q <+: replaceAll p r s) : q <+: s := by
  induction s using pieces_induction hp generalizing q with
  | nil => exact h
  | hit s ih =>
    rw [replaceAll_append_self hp] at h
    by_cases hnil : q = []
    · subst hnil
      exact List.nil_prefix
    · rcases List.prefix_or_prefix_of_prefix h (List.prefix_append r _) with hqr | hrq
      · -- the last character of the pattern would be in what is put in
        have hmem : q.getLast hnil ∈ r := hqr.subset (List.getLast_mem hnil)
        obtain ⟨t, rfl⟩ := hq
        rw [List.getLast_append_of_ne_nil _ hnil] at hlast
        exact absurd hmem hlast
      · obtain ⟨d, hdr, hdp⟩ := hout
        exact absurd (hq.subset (hrq.subset hdr)) hdp
  | miss c s hmiss ih =>
    rw [replaceAll_cons r hmiss] at h
    rcases List.prefix_cons_iff.1 h with rfl | ⟨t, rfl, ht⟩
    · exact List.nil_prefix
    · exact List.cons_prefix_cons.2 ⟨rfl, ih ((List.suffix_cons c t).trans hq) ht⟩

/-- No occurrence is left where what is put in has neither the pattern's first nor its last
character, and some character the pattern does not have. -/
theorem not_infix_replaceAll (hp : p ≠ []) (hhead : p.head hp ∉ r) (hlast : p.getLast hp ∉ r)
    (hout : ∃ d ∈ r, d ∉ p) (s : List α) : ¬ p <:+: replaceAll p r s := by
  induction s using pieces_induction hp with
  | nil => simpa using hp
  | hit s ih =>
    rw [replaceAll_append_self hp]
    intro h
    -- an occurrence does not start inside what is put in
    suffices hskip : ∀ x : List α, x <:+ r → ¬ p <:+: x ++ replaceAll p r s from
      hskip r List.suffix_rfl h
    intro x hx
    induction x with
    | nil => simpa using ih
    | cons e x ihx =>
      rw [List.cons_append, List.infix_cons_iff, not_or]
      refine ⟨fun hpre => ?_, ihx ((List.suffix_cons e x).trans hx)⟩
      obtain ⟨c, q, rfl⟩ := List.exists_cons_of_ne_nil hp
      obtain ⟨rfl, -⟩ := List.cons_prefix_cons.1 hpre
      exact hhead (hx.subset (by simp))
  | miss c s hmiss ih =>
    rw [replaceAll_cons r hmiss, List.infix_cons_iff, not_or]
    refine ⟨fun hpre => hmiss ?_, ih⟩
    rw [← replaceAll_cons r hmiss] at hpre
    exact prefix_of_prefix_replaceAll hp hlast hout List.suffix_rfl hpre

/-- A replacement that keeps a count of the pattern keeps that of the text. -/
theorem countP_replaceAll (f : α → Bool) (hp : p ≠ []) (h : r.countP f = p.countP f)
    (s : List α) : (replaceAll p r s).countP f = s.countP f := by
  induction s using pieces_induction hp with
  | nil => rfl
  | hit s ih => rw [replaceAll_append_self hp, List.countP_append, List.countP_append, ih, h]
  | miss c s hmiss ih => rw [replaceAll_cons r hmiss, List.countP_cons, List.countP_cons, ih]

/-- Nothing is replaced before the first place where the pattern can start. -/
theorem replaceAll_append_of_notMem (hp : p ≠ []) (ha : p.head hp ∉ a) (r b : List α) :
    replaceAll p r (a ++ b) = a ++ replaceAll p r b := by
  induction a with
  | nil => rfl
  | cons d a ih =>
    have hmiss : ¬ p <+: d :: (a ++ b) := by
      intro h
      obtain ⟨c, q, rfl⟩ := List.exists_cons_of_ne_nil hp
      obtain ⟨rfl, -⟩ := List.cons_prefix_cons.1 h
      exact ha List.mem_cons_self
    rw [List.cons_append, replaceAll_cons r hmiss, ih fun h => ha (List.mem_cons_of_mem d h)]
    rfl

/-! ## Strings -/

/-- `replaceAll` of strings. -/
def replace (s p r : String) : String := String.ofList (replaceAll p.toList r.toList s.toList)

@[simp] theorem toList_replace (s p r : String) :
    (replace s p r).toList = replaceAll p.toList r.toList s.toList := String.toList_ofList

/-- The characters of a string are found in the list it is made of. -/
theorem notMem_toList_ofList {c : Char} {l : List Char} (h : c ∉ l) :
    c ∉ (String.ofList l).toList := by
  rwa [String.toList_ofList]

end Text
