import Mathlib.Algebra.Order.Ring.Int
import Mathlib.Data.Int.LeastGreatest
import Mathlib.Data.Nat.Find
import Mathlib.Tactic.Common

/-!
# Time zones

A zone shows an instant, a number of milliseconds, as a local time that is `offset` later; that the
offset is piecewise constant says nothing more about it, since instants are discrete. `utc` goes the
other way as ECMAScript does: a local time that is shown more than once is its first occurrence, and
one that is never shown is read with the offset that was in force before it was skipped.

`Begins z day t` says that `t` is the first instant of a date. The rules below follow from what a
zone promises, that no clock change goes past a whole date: dates begin in order (`Begins.lt`), and a
local time later than the start of a date is resolved to a later instant (`Begins.lt_utc`).
-/

namespace Time

def msPerDay : ℤ := 86400000

/-- An offset for every instant. -/
structure Zone where
  offset : ℤ → ℤ
  bound : ℕ
  neg_bound_le : ∀ t, -(bound : ℤ) ≤ offset t
  le_bound : ∀ t, offset t ≤ bound
  /-- From one millisecond to the next, the clock goes on by one date at most. -/
  no_date_skipped : ∀ t, (t + 1 + offset (t + 1)) / msPerDay ≤ (t + offset t) / msPerDay + 1

namespace Zone

variable (z : Zone)

/-- What the clock shows at an instant. -/
def localTime (t : ℤ) : ℤ := t + z.offset t

/-- The number of the date that the clock shows. -/
def day (t : ℤ) : ℤ := z.localTime t / msPerDay

/-- The time of day that the clock shows. -/
def timeWithinDay (t : ℤ) : ℤ := z.localTime t % msPerDay

/-- The instants that a local time is shown at, the first one first. -/
def possibleInstants (l : ℤ) : List ℤ :=
  ((List.range (2 * z.bound + 1)).map fun i : ℕ => l - z.bound + i).filter
    fun t => z.localTime t = l

@[simp] theorem mem_possibleInstants {l t : ℤ} : t ∈ z.possibleInstants l ↔ z.localTime t = l := by
  unfold possibleInstants
  rw [List.mem_filter, decide_eq_true_eq, and_iff_right_iff_imp]
  intro h
  have hlow := z.neg_bound_le t
  have hhigh := z.le_bound t
  unfold localTime at h
  refine List.mem_map.2 ⟨(t - (l - z.bound)).toNat, List.mem_range.2 ?_, ?_⟩
  · omega
  · omega

theorem pairwise_possibleInstants (l : ℤ) : (z.possibleInstants l).Pairwise (· < ·) := by
  refine List.Pairwise.filter _ (List.pairwise_map.2 ?_)
  refine List.Pairwise.imp (fun h => ?_) List.pairwise_lt_range
  omega

/-- Before every local time, some other is shown. -/
theorem exists_shown_before (l : ℤ) : ∃ k : ℕ, z.possibleInstants (l - 1 - k) ≠ [] := by
  have hle := z.le_bound (l - 1 - z.bound)
  refine ⟨(l - 1 - z.localTime (l - 1 - z.bound)).toNat, ?_⟩
  refine List.ne_nil_of_mem (a := l - 1 - z.bound) ((z.mem_possibleInstants).2 ?_)
  unfold localTime
  omega

/-- The last local time before `l` that is shown. -/
def shownBefore (l : ℤ) : ℤ := l - 1 - Nat.find (z.exists_shown_before l)

theorem possibleInstants_shownBefore (l : ℤ) : z.possibleInstants (z.shownBefore l) ≠ [] :=
  Nat.find_spec (z.exists_shown_before l)

/-- The last instant that it is shown at. -/
def instantBefore (l : ℤ) : ℤ :=
  (z.possibleInstants (z.shownBefore l)).getLast (z.possibleInstants_shownBefore l)

/-- The instant of a local time. -/
def utc (l : ℤ) : ℤ :=
  match z.possibleInstants l with
  | t :: _ => l - z.offset t
  | [] => l - z.offset (z.instantBefore l)

/-- The same time of day on the next date. -/
def nextDay (t : ℤ) : ℤ := z.utc (z.localTime t + msPerDay)

/-! ## Local times and instants -/

theorem shownBefore_lt (l : ℤ) : z.shownBefore l < l := by
  unfold shownBefore
  omega

/-- No local time between `shownBefore l` and `l` is shown. -/
theorem localTime_le_shownBefore {l t : ℤ} (h : z.localTime t < l) :
    z.localTime t ≤ z.shownBefore l := by
  have hmin : Nat.find (z.exists_shown_before l) ≤ (l - 1 - z.localTime t).toNat := by
    refine Nat.find_min' _ (List.ne_nil_of_mem (a := t) ((z.mem_possibleInstants).2 ?_))
    omega
  unfold shownBefore
  omega

/-- A local time that is shown is resolved to its first occurrence. -/
theorem utc_of_shown {l t : ℤ} (h : z.localTime t = l) :
    z.localTime (z.utc l) = l ∧ z.utc l ≤ t := by
  have hmem : t ∈ z.possibleInstants l := (z.mem_possibleInstants).2 h
  unfold utc
  split
  · rename_i first rest heq
    have hfirst : z.localTime first = l := by
      rw [← z.mem_possibleInstants, heq]
      exact List.mem_cons_self
    have hutc : l - z.offset first = first := by
      unfold localTime at hfirst
      omega
    rw [hutc]
    refine ⟨hfirst, ?_⟩
    have hpair := z.pairwise_possibleInstants l
    rw [heq] at hmem hpair
    rcases List.mem_cons.1 hmem with rfl | hrest
    · exact le_rfl
    · exact (List.rel_of_pairwise_cons hpair hrest).le
  · rename_i heq
    rw [heq] at hmem
    cases hmem

/-- A local time that is skipped is as long after `u` as it is later than what `u` shows, which is
the last local time before it that is shown. -/
theorem utc_of_skipped {l : ℤ} (h : ∀ t, z.localTime t ≠ l) :
    ∃ u, z.localTime u < l ∧ z.utc l = u + (l - z.localTime u) ∧
      ∀ t, z.localTime t < l → z.localTime t ≤ z.localTime u := by
  have hnil : z.possibleInstants l = [] :=
    List.eq_nil_iff_forall_not_mem.2 fun t ht => h t ((z.mem_possibleInstants).1 ht)
  have hu : z.localTime (z.instantBefore l) = z.shownBefore l :=
    (z.mem_possibleInstants).1 (List.getLast_mem (z.possibleInstants_shownBefore l))
  refine ⟨z.instantBefore l, ?_, ?_, fun t ht => ?_⟩
  · rw [hu]
    exact z.shownBefore_lt l
  · simp only [utc, hnil]
    unfold localTime
    omega
  · rw [hu]
    exact z.localTime_le_shownBefore ht

theorem utc_eq_of_first {l t : ℤ} (h : z.localTime t = l) (hfirst : ∀ s < t, z.localTime s ≠ l) :
    z.utc l = t := by
  obtain ⟨hshown, hle⟩ := z.utc_of_shown h
  rcases hle.lt_or_eq with hlt | heq
  · exact absurd hshown (hfirst _ hlt)
  · exact heq

/-! ## Dates -/

theorem day_lt_iff {t n : ℤ} : z.day t < n ↔ z.localTime t < n * msPerDay :=
  Int.ediv_lt_iff_lt_mul (by decide)

theorem le_day_iff {t n : ℤ} : n ≤ z.day t ↔ n * msPerDay ≤ z.localTime t :=
  Int.le_ediv_iff_mul_le (by decide)

theorem day_succ_le (t : ℤ) : z.day (t + 1) ≤ z.day t + 1 := z.no_date_skipped t

/-- The first instant of a date. -/
def Begins (n t : ℤ) : Prop := z.day t = n ∧ ∀ s < t, z.day s ≠ n

/-- The clock shows midnight at the first instant of the date. -/
def BeginsAtMidnight (n : ℤ) : Prop := ∃ t, z.Begins n t ∧ z.localTime t = n * msPerDay

/-- Among the instants that show a date or a later one, the first shows the date itself. -/
theorem exists_first (n : ℤ) : ∃ t, z.day t = n ∧ ∀ s, n ≤ z.day s → t ≤ s := by
  obtain ⟨t, ht, hmin⟩ := Int.exists_least_of_bdd (P := fun t => n ≤ z.day t)
    ⟨n * msPerDay - z.bound, fun t ht => by
      have hle := z.le_bound t
      have hday := z.le_day_iff.1 ht
      unfold localTime at hday
      omega⟩
    ⟨n * msPerDay + z.bound, by
      have hle := z.neg_bound_le (n * msPerDay + z.bound)
      rw [le_day_iff]
      unfold localTime
      omega⟩
  refine ⟨t, le_antisymm ?_ ht, hmin⟩
  have hbefore : z.day (t - 1) < n := by
    by_contra hge
    have := hmin (t - 1) (not_lt.1 hge)
    omega
  have hsucc := z.day_succ_le (t - 1)
  rw [sub_add_cancel] at hsucc
  omega

variable {z}

/-- Before a date begins, only earlier dates are shown. -/
theorem Begins.le_of_le_day {n t s : ℤ} (h : z.Begins n t) (hs : n ≤ z.day s) : t ≤ s := by
  obtain ⟨first, hday, hmin⟩ := z.exists_first n
  have hle : t ≤ first := by
    by_contra hlt
    exact h.2 first (not_le.1 hlt) hday
  exact hle.trans (hmin s hs)

theorem exists_begins (z : Zone) (n : ℤ) : ∃ t, z.Begins n t := by
  obtain ⟨t, hday, hmin⟩ := z.exists_first n
  refine ⟨t, hday, fun s hs heq => ?_⟩
  have := hmin s heq.ge
  omega

theorem Begins.unique {n t s : ℤ} (ht : z.Begins n t) (hs : z.Begins n s) : t = s :=
  le_antisymm (ht.le_of_le_day hs.1.ge) (hs.le_of_le_day ht.1.ge)

/-- Dates begin in order. -/
theorem Begins.lt {n m t s : ℤ} (hnm : n < m) (ht : z.Begins n t) (hs : z.Begins m s) : t < s := by
  refine lt_of_le_of_ne (ht.le_of_le_day (by rw [hs.1]; exact hnm.le)) ?_
  rintro rfl
  exact hnm.ne (ht.1.symm.trans hs.1)

theorem Begins.midnight_le {n t : ℤ} (h : z.Begins n t) : n * msPerDay ≤ z.localTime t :=
  z.le_day_iff.1 h.1.ge

theorem Begins.lt_next_midnight {n t : ℤ} (h : z.Begins n t) :
    z.localTime t < (n + 1) * msPerDay := by
  have hday := h.1
  exact z.day_lt_iff.1 (by omega)

/-- A local time later than the start of a date is resolved to a later instant. -/
theorem Begins.lt_utc {n t l : ℤ} (h : z.Begins n t) (hl : z.localTime t < l) : t < z.utc l := by
  by_cases hshown : ∃ s, z.localTime s = l
  · obtain ⟨s, hs⟩ := hshown
    obtain ⟨hutc, -⟩ := z.utc_of_shown hs
    have hday : n ≤ z.day (z.utc l) := by
      rw [le_day_iff, hutc]
      exact h.midnight_le.trans hl.le
    refine lt_of_le_of_ne (h.le_of_le_day hday) fun heq => ?_
    rw [← heq] at hutc
    omega
  · obtain ⟨u, hu, hutc, hmax⟩ := z.utc_of_skipped (not_exists.1 hshown)
    have hday : n ≤ z.day u := by
      rw [le_day_iff]
      exact h.midnight_le.trans (hmax t hl)
    have hle := h.le_of_le_day hday
    omega

/-- A date that begins at midnight begins where its midnight is resolved. -/
theorem Begins.utc_midnight {n t : ℤ} (h : z.Begins n t) (hl : z.localTime t = n * msPerDay) :
    z.utc (n * msPerDay) = t := by
  refine z.utc_eq_of_first hl fun s hs heq => ?_
  have := h.le_of_le_day (z.le_day_iff.2 heq.ge)
  omega

theorem BeginsAtMidnight.begins {n : ℤ} (h : z.BeginsAtMidnight n) :
    z.Begins n (z.utc (n * msPerDay)) ∧ z.localTime (z.utc (n * msPerDay)) = n * msPerDay := by
  obtain ⟨t, ht, hl⟩ := h
  rw [ht.utc_midnight hl]
  exact ⟨ht, hl⟩

/-- The day after a midnight is the next one. -/
theorem nextDay_of_midnight {n t : ℤ} (h : z.localTime t = n * msPerDay) :
    z.nextDay t = z.utc ((n + 1) * msPerDay) := by
  rw [nextDay, h, add_mul, one_mul]

/-- A date is left within a day. -/
theorem Begins.lt_nextDay {n t : ℤ} (h : z.Begins n t) : t < z.nextDay t :=
  h.lt_utc (by unfold msPerDay; omega)

end Zone

end Time
