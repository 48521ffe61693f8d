import Taymna.Text.Replace

/-!
# Quoted literals with doubled quotes

A literal ends at its first quote that no other quote follows; two quotes stand for one.
`readQuoted` reads a literal from behind its opening quote, `double` doubles one of the quote
characters.  `Reads` is the same piece by piece (`readQuoted_eq_some_iff`).  What is read takes its
characters from the text in order (`Reads.isInfix_of_isInfix`, `Reads.countP_add`), and a text whose
only quote is the doubled one is read back (`readQuoted_double`).
-/

namespace Text

variable {α : Type*} (q : α → Bool)

/-- The value of a literal whose opening quote is read, and what follows its closing quote. -/
def readQuoted : List α → Option (List α × List α)
  | [] => none
  | c :: s =>
      if q c then
        match s with
        | [] => some ([], [])
        | d :: s =>
            if q d then (readQuoted s).map fun x => (d :: x.1, x.2) else some ([], d :: s)
      else (readQuoted s).map fun x => (c :: x.1, x.2)

variable {q} {c d : α} {s t v p : List α}

theorem readQuoted_plain (hc : q c = false) (s : List α) :
    readQuoted q (c :: s) = (readQuoted q s).map fun x => (c :: x.1, x.2) := by
  rw [readQuoted.eq_def]
  simp [hc]

theorem readQuoted_pair (hc : q c = true) (hd : q d = true) (s : List α) :
    readQuoted q (c :: d :: s) = (readQuoted q s).map fun x => (d :: x.1, x.2) := by
  rw [readQuoted.eq_def]
  simp [hc, hd]

theorem readQuoted_close (hc : q c = true) (hs : ∀ d ∈ s.head?, q d = false) :
    readQuoted q (c :: s) = some ([], s) := by
  cases s with
  | nil => rw [readQuoted.eq_def]; simp [hc]
  | cons d s =>
    have hd : q d = false := hs d rfl
    rw [readQuoted.eq_def]
    simp [hc, hd]

/-- What is read, piece by piece: the closing quote, a doubled quote, any other character. -/
inductive Reads (q : α → Bool) : List α → List α → List α → Prop
  | close {c : α} {t : List α} (hc : q c = true) (ht : ∀ d ∈ t.head?, q d = false) :
      Reads q (c :: t) [] t
  | pair {c d : α} {s v t : List α} (hc : q c = true) (hd : q d = true) (hr : Reads q s v t) :
      Reads q (c :: d :: s) (d :: v) t
  | plain {c : α} {s v t : List α} (hc : q c = false) (hr : Reads q s v t) :
      Reads q (c :: s) (c :: v) t

theorem Reads.readQuoted_eq (h : Reads q s v t) : readQuoted q s = some (v, t) := by
  induction h with
  | close hc ht => exact readQuoted_close hc ht
  | pair hc hd _ ih => rw [readQuoted_pair hc hd, ih]; rfl
  | plain hc _ ih => rw [readQuoted_plain hc, ih]; rfl

theorem reads_of_readQuoted (s : List α) (h : readQuoted q s = some (v, t)) : Reads q s v t := by
  induction hn : s.length using Nat.strong_induction_on generalizing s v with
  | _ n ih =>
    cases s with
    | nil => simp [readQuoted] at h
    | cons c s =>
      by_cases hc : q c = true
      · by_cases hs : ∃ d s', s = d :: s' ∧ q d = true
        · obtain ⟨d, s, rfl, hd⟩ := hs
          rw [readQuoted_pair hc hd, Option.map_eq_some_iff] at h
          obtain ⟨⟨w, t'⟩, hr, heq⟩ := h
          cases heq
          have hlt : s.length < n := by rw [← hn, List.length_cons, List.length_cons]; omega
          exact .pair hc hd (ih _ hlt s hr rfl)
        · have hhead : ∀ d ∈ s.head?, q d = false := by
            intro d hd
            obtain ⟨s', rfl⟩ := List.head?_eq_some_iff.1 hd
            exact Bool.eq_false_iff.2 fun hq => hs ⟨d, s', rfl, hq⟩
          rw [readQuoted_close hc hhead] at h
          cases h
          exact .close hc hhead
      · have hplain : q c = false := Bool.eq_false_iff.2 hc
        rw [readQuoted_plain hplain, Option.map_eq_some_iff] at h
        obtain ⟨⟨w, t'⟩, hr, heq⟩ := h
        cases heq
        have hlt : s.length < n := by rw [← hn, List.length_cons]; omega
        exact .plain hplain (ih _ hlt s hr rfl)

theorem readQuoted_eq_some_iff : readQuoted q s = some (v, t) ↔ Reads q s v t :=
  ⟨reads_of_readQuoted s, Reads.readQuoted_eq⟩

/-- What starts with a quote is read as nothing, or as something that starts with a quote. -/
theorem Reads.head (hc : q c = true) (h : Reads q (c :: s) (d :: v) t) : q d = true := by
  cases h with
  | pair _ hd _ => exact hd
  | plain hplain _ => exact hc

/-- A run of other characters in the value is one of the text. -/
theorem Reads.isPrefix_of_isPrefix (h : Reads q s v t) (hp : ∀ c ∈ p, q c = false) (hpv : p <+: v) :
    p <+: s := by
  induction h generalizing p with
  | close hc ht =>
    rw [List.prefix_nil.1 hpv]
    exact List.nil_prefix
  | pair hc hd hr ih =>
    rcases List.prefix_cons_iff.1 hpv with rfl | ⟨p, rfl, -⟩
    · exact List.nil_prefix
    · rw [hp _ List.mem_cons_self] at hd
      cases hd
  | plain hc hr ih =>
    rcases List.prefix_cons_iff.1 hpv with rfl | ⟨p, rfl, hpre⟩
    · exact List.nil_prefix
    · exact List.cons_prefix_cons.2 ⟨rfl, ih (fun c hm => hp c (List.mem_cons_of_mem _ hm)) hpre⟩

theorem Reads.isInfix_of_isInfix (h : Reads q s v t) (hp : ∀ c ∈ p, q c = false) (hpv : p <:+: v) :
    p <:+: s := by
  induction h with
  | close hc ht =>
    rw [List.infix_nil.1 hpv]
    exact List.nil_infix
  | pair hc hd hr ih =>
    rcases List.infix_cons_iff.1 hpv with hpre | hin
    · exact ((Reads.pair hc hd hr).isPrefix_of_isPrefix hp hpre).isInfix
    · exact List.infix_cons (List.infix_cons (ih hin))
  | plain hc hr ih =>
    rcases List.infix_cons_iff.1 hpv with hpre | hin
    · exact ((Reads.plain hc hr).isPrefix_of_isPrefix hp hpre).isInfix
    · exact List.infix_cons (ih hin)

theorem Reads.countP_le (h : Reads q s v t) (f : α → Bool) : v.countP f ≤ s.countP f := by
  induction h with
  | close hc ht => exact Nat.zero_le _
  | pair hc hd hr ih =>
    simp only [List.countP_cons]
    omega
  | plain hc hr ih =>
    simp only [List.countP_cons]
    omega

/-- Characters other than quotes are read as often as they stand there. -/
theorem Reads.countP_add {f : α → Bool} (h : Reads q s v t) (hf : ∀ c, q c = true → f c = false) :
    s.countP f = v.countP f + t.countP f := by
  induction h with
  | close hc ht => simp [hf _ hc]
  | pair hc hd hr ih => simp [hf _ hc, hf _ hd, ih]
  | plain hc hr ih =>
    simp only [List.countP_cons, ih]
    omega

/-- The first of two quotes is not read. -/
theorem Reads.countP_lt {f : α → Bool} (h : Reads q (c :: s) (d :: v) t) (hc : q c = true)
    (hf : f c = true) : (d :: v).countP f < (c :: s).countP f := by
  cases h with
  | pair _ hd hr =>
    have hle := hr.countP_le f
    simp only [List.countP_cons, hf, if_true]
    omega
  | plain hplain _ =>
    rw [hc] at hplain
    cases hplain

/-! ## Doubling -/

variable [DecidableEq α] {e : α} {r a : List α}

/-- Double every `e`. -/
def double (e : α) (s : List α) : List α := s.flatMap fun c => if c = e then [e, e] else [c]

@[simp] theorem double_nil (e : α) : double e [] = [] := rfl

@[simp] theorem double_cons_self (e : α) (s : List α) : double e (e :: s) = e :: e :: double e s := by
  simp [double]

theorem double_cons (hc : c ≠ e) (s : List α) : double e (c :: s) = c :: double e s := by
  simp [double, hc]

@[simp] theorem double_append (e : α) (s t : List α) :
    double e (s ++ t) = double e s ++ double e t := List.flatMap_append

theorem double_of_notMem (h : e ∉ s) : double e s = s := by
  induction s with
  | nil => rfl
  | cons c s ih =>
    have hc : c ≠ e := fun hce => h (by simp [hce])
    rw [double_cons hc, ih fun hs => h (List.mem_cons_of_mem c hs)]

theorem countP_double {f : α → Bool} (he : f e = false) (s : List α) :
    (double e s).countP f = s.countP f := by
  induction s with
  | nil => rfl
  | cons c s ih =>
    by_cases hc : c = e
    · subst hc
      simp [he, ih]
    · rw [double_cons hc, List.countP_cons, List.countP_cons, ih]

/-- A text whose only quote is the doubled one is read back. -/
theorem readQuoted_double (he : q e = true) (hv : ∀ c ∈ v, q c = true → c = e) (s : List α) :
    readQuoted q (double e v ++ s) = (readQuoted q s).map fun x => (v ++ x.1, x.2) := by
  induction v with
  | nil => simp
  | cons c v ih =>
    have ih := ih fun d hd => hv d (by simp [hd])
    by_cases hc : c = e
    · subst hc
      rw [double_cons_self, List.cons_append, List.cons_append, readQuoted_pair he he, ih,
        Option.map_map]
      rfl
    · have hplain : q c = false := Bool.eq_false_iff.2 fun hq => hc (hv c (by simp) hq)
      rw [double_cons hc, List.cons_append, readQuoted_plain hplain, ih, Option.map_map]
      rfl

theorem prefix_double (he : e ∉ p) (h : p <+: double e s) : p <+: s := by
  induction s generalizing p with
  | nil => exact h
  | cons c s ih =>
    by_cases hc : c = e
    · subst hc
      rw [double_cons_self] at h
      rcases List.prefix_cons_iff.1 h with rfl | ⟨p, rfl, -⟩
      · exact List.nil_prefix
      · simp at he
    · rw [double_cons hc] at h
      rcases List.prefix_cons_iff.1 h with rfl | ⟨p, rfl, hp⟩
      · exact List.nil_prefix
      · exact List.cons_prefix_cons.2 ⟨rfl, ih (fun hm => he (List.mem_cons_of_mem c hm)) hp⟩

theorem infix_double (he : e ∉ p) (hp : p ≠ []) (h : p <:+: double e s) : p <:+: s := by
  induction s with
  | nil => exact h
  | cons c s ih =>
    by_cases hc : c = e
    · subst hc
      rw [double_cons_self, List.infix_cons_iff, List.infix_cons_iff] at h
      have hin := (h.resolve_left (not_prefix_cons he hp)).resolve_left (not_prefix_cons he hp)
      exact List.infix_cons (ih hin)
    · have hcons := double_cons hc s
      rw [hcons] at h
      rcases List.infix_cons_iff.1 h with hpre | hin
      · rw [← hcons] at hpre
        exact (prefix_double he hpre).isInfix
      · exact List.infix_cons (ih hin)

/-- An occurrence in a text is one in what is made of it by doubling, and the first one there. -/
theorem exists_first_double (he : e ∉ p) (hp : p ≠ []) (h : p <:+: s) :
    ∃ a b, s = a ++ p ++ b ∧
      ∀ r, replaceAll p r (double e s) = double e a ++ r ++ replaceAll p r (double e b) := by
  induction s with
  | nil => exact absurd (List.infix_nil.1 h) hp
  | cons c s ih =>
    by_cases hpre : p <+: c :: s
    · obtain ⟨b, hb⟩ := hpre
      refine ⟨[], b, hb.symm, fun r => ?_⟩
      rw [← hb, double_append, double_of_notMem he, replaceAll_append_self hp]
      rfl
    · obtain ⟨a, b, rfl, hrep⟩ := ih ((List.infix_cons_iff.1 h).resolve_left hpre)
      refine ⟨c :: a, b, rfl, fun r => ?_⟩
      by_cases hc : c = e
      · subst hc
        rw [double_cons_self, double_cons_self, replaceAll_cons r (not_prefix_cons he hp),
          replaceAll_cons r (not_prefix_cons he hp), hrep]
        rfl
      · have hmiss : ¬ p <+: c :: double e (a ++ p ++ b) := by
          rw [← double_cons hc]
          exact fun hx => hpre (prefix_double he hx)
        rw [double_cons hc, double_cons hc, replaceAll_cons r hmiss, hrep]
        rfl

end Text
