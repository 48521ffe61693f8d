import Mathlib.Algebra.Order.Group.Defs
import Mathlib.Data.Set.Insert
import Taymna.Automata.Run

/-!
# A counter that is read in one step and written in another

Several parties add to a value that they share: each reads it, and later writes what it has read
plus an amount of its own. A `Counter` has next to the value everything that has been added, and
what the parties have read and not yet written. An addition counts only if the value is still what
was read, and what has been lost once is never made up for: at the end of a run the value is the
total if and only if every write was of this kind (`counted_iff`). -/

namespace Automata

structure Counter (α : Type*) where
  value : α
  total : α
  /-- What a write may still go by. -/
  reads : Set α

namespace Counter

variable {α : Type*} [AddCommGroup α] [LinearOrder α] {c c' : Counter α}

/-- A step of one party; `current` says that a write goes by the value as it is. -/
inductive Step (c : Counter α) : (current : Prop) → Counter α → Prop
  | quiet {reads} : reads ⊆ insert c.value c.reads → Step c True ⟨c.value, c.total, reads⟩
  | write {read amount reads} : read ∈ c.reads → 0 < amount → reads ⊆ c.reads →
      Step c (read = c.value) ⟨read + amount, c.total + amount, reads⟩

theorem Step.quiet_of {current : Prop} (hvalue : c'.value = c.value) (htotal : c'.total = c.total)
    (hreads : c'.reads ⊆ insert c.value c.reads) (hcurrent : current) : c.Step current c' := by
  obtain ⟨value, total, reads⟩ := c'
  obtain rfl : value = c.value := hvalue
  obtain rfl : total = c.total := htotal
  rw [eq_true hcurrent]
  exact .quiet hreads

theorem Step.write_of {current : Prop} {read amount : α} (hread : read ∈ c.reads) (hpos : 0 < amount)
    (hvalue : c'.value = read + amount) (htotal : c'.total = c.total + amount)
    (hreads : c'.reads ⊆ c.reads) (hcurrent : current ↔ read = c.value) : c.Step current c' := by
  obtain ⟨value, total, reads⟩ := c'
  obtain rfl : value = read + amount := hvalue
  obtain rfl : total = c.total + amount := htotal
  rw [propext hcurrent]
  exact .write hread hpos hreads

/-- Nobody has read more than has been added, and nobody all of it once something is lost. -/
structure Sound (c : Counter α) : Prop where
  value_le : c.value ≤ c.total
  reads_le : ∀ r ∈ c.reads, r ≤ c.total
  exact : c.total ∈ c.reads → c.value = c.total

theorem Step.sound [IsOrderedAddMonoid α] {current : Prop} (hc : c.Sound) (h : c.Step current c') :
    c'.Sound := by
  cases h with
  | quiet hreads =>
    refine ⟨hc.value_le, fun r hr => ?_, fun htotal => ?_⟩
    · rcases hreads hr with rfl | hr
      · exact hc.value_le
      · exact hc.reads_le r hr
    · rcases hreads htotal with he | ht
      · exact he.symm
      · exact hc.exact ht
  | @write read amount reads hread hpos hreads =>
    have hlt : c.total < c.total + amount := lt_add_of_pos_right _ hpos
    refine ⟨add_le_add_left (hc.reads_le read hread) amount, fun r hr => ?_, fun htotal => ?_⟩
    · exact (hc.reads_le r (hreads hr)).trans hlt.le
    · exact absurd (hc.reads_le _ (hreads htotal)) (not_le.2 hlt)

/-- The value is the total only as long as every write is current. -/
theorem Step.exact_iff {current : Prop} (hc : c.Sound) (h : c.Step current c') :
    c'.value = c'.total ↔ c.value = c.total ∧ current := by
  cases h with
  | quiet => simp
  | @write read amount reads hread hpos hreads =>
    rw [add_left_inj]
    constructor
    · rintro rfl
      have he : c.value = c.total := hc.exact hread
      exact ⟨he, he.symm⟩
    · rintro ⟨he, hcurrent⟩
      exact hcurrent.trans he

/-- A run whose steps are steps of a counter ends with the total if and only if it starts with the
total and every write is current. -/
theorem counted_iff [IsOrderedAddMonoid α] {σ ε : Type*} {step : σ → ε → Option σ} {I : σ → Prop}
    {P : σ → ε → Prop} {f : σ → Counter α}
    (hstep : ∀ s e t, I s → step s e = some t → I t ∧ (f s).Step (P s e) (f t))
    {s t : σ} {es : List ε} (hs : I s) (hsound : (f s).Sound) (h : run step s es = some t) :
    (f t).value = (f t).total ↔ (f s).value = (f s).total ∧ Along step P s es := by
  refine run_iff_along (I := fun s => I s ∧ (f s).Sound) (G := fun s => (f s).value = (f s).total)
    (fun s e t hI h => ?_) ⟨hs, hsound⟩ h
  obtain ⟨hI', hcount⟩ := hstep s e t hI.1 h
  exact ⟨⟨hI', hcount.sound hI.2⟩, hcount.exact_iff hI.2⟩

end Counter

end Automata
