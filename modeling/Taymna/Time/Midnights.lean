import Mathlib.Logic.Function.Iterate
import Taymna.Time.Zone

/-!
# Counting dates by the clock

Whoever starts at a local midnight and goes on by `nextDay` carries a time of day along. `Carries`
is when this leads from date to date through their first instants. It does when each date begins at
its midnight; a time of day that was picked up at a skipped midnight is carried to the end, and is
right again only if every later midnight is skipped as well (`carries_iff`,
`Carries.beginsAtMidnight`).
-/

namespace Time.Zone

variable {z : Zone} {n m : ℤ}

/-- Each date from `n` to `m` begins at its midnight. -/
def AtMidnights (z : Zone) (n m : ℤ) : Prop := ∀ k, n ≤ k → k ≤ m → z.BeginsAtMidnight k

/-- From the midnight of `n`, each `nextDay` is the first instant of a date up to `m`, and the one
after is where the midnight of `m + 1` is resolved. The midnight of `m` comes no earlier than the
last of them, and before the one after. -/
structure Carries (z : Zone) (n m : ℤ) : Prop where
  first : z.Begins n (z.utc (n * msPerDay))
  next : ∀ k t, n ≤ k → k < m → z.Begins k t → z.Begins (k + 1) (z.nextDay t)
  last : ∀ t, z.Begins m t → z.nextDay t = z.utc ((m + 1) * msPerDay)
  reached : ∀ t, z.Begins m t → t ≤ z.utc (m * msPerDay)
  passed : z.utc (m * msPerDay) < z.utc ((m + 1) * msPerDay)
  adjacent : z.nextDay (z.utc (m * msPerDay)) = z.utc ((m + 1) * msPerDay)

/-- At `k`, for the first time, midnight is skipped, and the time of day that is shown instead is
the right one on each date that follows. -/
def SkipsOn (z : Zone) (n m : ℤ) : Prop :=
  ∃ k, n ≤ k ∧ k ≤ m ∧ z.AtMidnights n (k - 1) ∧ ¬ z.BeginsAtMidnight k ∧ z.Carries k m

/-- From midnight to midnight. -/
theorem BeginsAtMidnight.nextDay {k t : ℤ} (h : z.BeginsAtMidnight k) (ht : z.Begins k t) :
    z.nextDay t = z.utc ((k + 1) * msPerDay) := by
  obtain ⟨hfirst, hl⟩ := h.begins
  rw [ht.unique hfirst]
  exact nextDay_of_midnight hl

theorem AtMidnights.carries (h : z.AtMidnights n m) (hnm : n ≤ m) : z.Carries n m where
  first := (h n le_rfl hnm).begins.1
  next k t hk hkm ht := by
    rw [(h k hk hkm.le).nextDay ht]
    exact (h (k + 1) (by omega) (by omega)).begins.1
  last t ht := (h m hnm le_rfl).nextDay ht
  reached t ht := (ht.unique (h m hnm le_rfl).begins.1).le
  passed := by
    obtain ⟨hfirst, hl⟩ := (h m hnm le_rfl).begins
    refine hfirst.lt_utc ?_
    rw [hl, add_mul, one_mul]
    unfold msPerDay
    omega
  adjacent := nextDay_of_midnight (h m hnm le_rfl).begins.2

/-- Midnights first, and then the rest of the way. -/
theorem AtMidnights.append {k : ℤ} (h : z.AtMidnights n (k - 1)) (hc : z.Carries k m) (hnk : n ≤ k) :
    z.Carries n m where
  first := by
    by_cases heq : n = k
    · rw [heq]
      exact hc.first
    · exact (h n le_rfl (by omega)).begins.1
  next j t hj hjm ht := by
    by_cases hjk : k ≤ j
    · exact hc.next j t hjk hjm ht
    · rw [(h j hj (by omega)).nextDay ht]
      by_cases heq : j + 1 = k
      · rw [heq]
        exact hc.first
      · exact (h (j + 1) (by omega) (by omega)).begins.1
  last := hc.last
  reached := hc.reached
  passed := hc.passed
  adjacent := hc.adjacent

/-- What is carried from the first date is carried from each later one that the midnights lead to. -/
theorem Carries.drop {k : ℤ} (hc : z.Carries n m) (h : z.AtMidnights n (k - 1)) (hnk : n ≤ k)
    (hkm : k ≤ m) : z.Carries k m where
  first := by
    by_cases heq : n = k
    · rw [← heq]
      exact hc.first
    · have hbefore := h (k - 1) (by omega) le_rfl
      have hnext := hc.next (k - 1) _ (by omega) (by omega) hbefore.begins.1
      rw [hbefore.nextDay hbefore.begins.1, sub_add_cancel] at hnext
      exact hnext
  next j t hj := hc.next j t (hnk.trans hj)
  last := hc.last
  reached := hc.reached
  passed := hc.passed
  adjacent := hc.adjacent

/-- Either all dates begin at midnight, or midnights are skipped from the first that does not. -/
theorem carries_iff (hnm : n ≤ m) : z.Carries n m ↔ z.AtMidnights n m ∨ z.SkipsOn n m := by
  constructor
  · intro hc
    by_cases hall : z.AtMidnights n m
    · exact Or.inl hall
    · have hex : ∃ k, n ≤ k ∧ k ≤ m ∧ ¬ z.BeginsAtMidnight k := by
        unfold AtMidnights at hall
        push Not at hall
        exact hall
      obtain ⟨k, ⟨hnk, hkm, hk⟩, hmin⟩ := Int.exists_least_of_bdd ⟨n, fun k hk => hk.1⟩ hex
      have hbefore : z.AtMidnights n (k - 1) := by
        intro j hnj hjk
        by_contra hj
        have := hmin j ⟨hnj, by omega, hj⟩
        omega
      exact Or.inr ⟨k, hnk, hkm, hbefore, hk, hc.drop hbefore hnk hkm⟩
  · rintro (hall | ⟨k, hnk, -, hbefore, -, hc⟩)
    · exact hall.carries hnm
    · exact hbefore.append hc hnk

/-- The time of day that is carried does not go back to midnight. -/
theorem Begins.not_midnight_nextDay {k t : ℤ} (ht : k * msPerDay < z.localTime t)
    (hnext : z.Begins (k + 1) (z.nextDay t)) :
    (k + 1) * msPerDay < z.localTime (z.nextDay t) := by
  by_contra hle
  have hlt : z.localTime (z.nextDay t) < z.localTime t + msPerDay := by
    rw [add_mul, one_mul] at hle
    omega
  exact lt_irrefl _ (hnext.lt_utc hlt)

/-- Before a midnight that is not skipped, none was. -/
theorem beginsAtMidnight_of_next {k : ℤ} (hlast : z.BeginsAtMidnight (k + 1))
    (hnext : ∀ t, z.Begins k t → z.Begins (k + 1) (z.nextDay t)) : z.BeginsAtMidnight k := by
  obtain ⟨t, ht⟩ := exists_begins z k
  refine ⟨t, ht, le_antisymm (not_lt.1 fun hlt => ?_) ht.midnight_le⟩
  have hgt := Begins.not_midnight_nextDay hlt (hnext t ht)
  rw [(hnext t ht).unique hlast.begins.1, hlast.begins.2] at hgt
  exact lt_irrefl _ hgt

/-- If the date after the last one begins at midnight, so do all before it. -/
theorem Carries.beginsAtMidnight (hc : z.Carries n m) (hlast : z.BeginsAtMidnight (m + 1)) (i : ℕ)
    (hi : n ≤ m - i) : z.BeginsAtMidnight (m - i) := by
  induction i with
  | zero =>
    rw [Nat.cast_zero, sub_zero]
    refine beginsAtMidnight_of_next hlast fun t ht => ?_
    rw [hc.last t ht]
    exact hlast.begins.1
  | succ i ih =>
    have hsucc : m - ((i + 1 : ℕ) : ℤ) + 1 = m - i := by omega
    refine beginsAtMidnight_of_next ?_ fun t ht => hc.next _ t hi (by omega) ht
    rw [hsucc]
    exact ih (by omega)

/-- No midnight is skipped on to one that is not. -/
theorem not_skipsOn (hlast : z.BeginsAtMidnight (m + 1)) : ¬ z.SkipsOn n m := by
  rintro ⟨k, -, hkm, -, hk, hc⟩
  have := hc.beginsAtMidnight hlast (m - k).toNat (by omega)
  rw [show m - ((m - k).toNat : ℤ) = k by omega] at this
  exact hk this

/-! ## The dates one after another -/

/-- The `i`th day is the first instant of the `i`th date. -/
theorem Carries.begins_iterate (hc : z.Carries n m) (i : ℕ) (hi : n + i ≤ m) :
    z.Begins (n + i) (z.nextDay^[i] (z.utc (n * msPerDay))) := by
  induction i with
  | zero => simpa using hc.first
  | succ i ih =>
    rw [Function.iterate_succ_apply', Nat.cast_succ, ← add_assoc]
    exact hc.next _ _ (by omega) (by omega) (ih (by omega))

end Time.Zone
