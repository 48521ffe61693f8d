import Mathlib.Order.Lattice
import Mathlib.Tactic.Common

/-!
# Replicas that keep the newest copy

A replica holds a stamped copy of something that changes elsewhere, and takes over a copy that
reaches it only if its stamp is later than that of the copy it holds. The stamps need not follow the
order of the changes, nor the arrivals that of the stamps. `Settled Q n C` says of the copies `C`,
those that have reached the replica and those that are on their way, that the ones whose view does
not satisfy `Q` are older than `n` while one that does is not: then in whatever order they arrive,
the replica ends up with a view that satisfies `Q` (`Settled.latest`).
-/

namespace Automata

structure Copy (α τ : Type*) where
  view : α
  stamp : τ
deriving DecidableEq, Repr

namespace Copy

variable {α τ : Type*} [LinearOrder τ] {Q : α → Prop} {n : τ} {a m : Copy α τ} {C D : List (Copy α τ)}

/-- What a replica that holds `a` holds once `m` has reached it. -/
def take (a m : Copy α τ) : Copy α τ := if a.stamp < m.stamp then m else a

theorem take_of_lt (h : a.stamp < m.stamp) : a.take m = m := if_pos h

theorem take_of_le (h : m.stamp ≤ a.stamp) : a.take m = a := if_neg (not_lt.2 h)

/-- What it holds once `C` have reached it, in that order. -/
def latest (a : Copy α τ) (C : List (Copy α τ)) : Copy α τ := C.foldl take a

@[simp] theorem latest_nil (a : Copy α τ) : a.latest [] = a := rfl

@[simp] theorem latest_cons (a m : Copy α τ) (C : List (Copy α τ)) :
    a.latest (m :: C) = (a.take m).latest C := rfl

theorem latest_mem (a : Copy α τ) (C : List (Copy α τ)) : a.latest C ∈ a :: C := by
  induction C generalizing a with
  | nil => exact List.mem_singleton_self a
  | cons m C ih =>
    rw [latest_cons]
    rcases lt_or_ge a.stamp m.stamp with h | h
    · rw [take_of_lt h]
      exact List.mem_cons_of_mem a (ih m)
    · rw [take_of_le h]
      rcases List.mem_cons.1 (ih a) with he | hmem
      · rw [he]
        exact List.mem_cons_self
      · exact List.mem_cons_of_mem a (List.mem_cons_of_mem m hmem)

/-- No copy is newer than the one that is kept. -/
theorem stamp_le_latest {x : Copy α τ} (h : x ∈ a :: C) : x.stamp ≤ (a.latest C).stamp := by
  induction C generalizing a x with
  | nil =>
    obtain rfl := List.mem_singleton.1 h
    exact le_rfl
  | cons m C ih =>
    rw [latest_cons]
    have htake : (a.take m).stamp ≤ ((a.take m).latest C).stamp := ih List.mem_cons_self
    rcases List.mem_cons.1 h with rfl | h
    · refine le_trans ?_ htake
      rcases lt_or_ge x.stamp m.stamp with hlt | hge
      · rw [take_of_lt hlt]
        exact hlt.le
      · rw [take_of_le hge]
    · rcases List.mem_cons.1 h with rfl | h
      · refine le_trans ?_ htake
        rcases lt_or_ge a.stamp x.stamp with hlt | hge
        · rw [take_of_lt hlt]
        · rwa [take_of_le hge]
      · exact ih (List.mem_cons_of_mem _ h)

theorem latest_append (a : Copy α τ) (C D : List (Copy α τ)) :
    a.latest (C ++ D) = (a.latest C).latest D := List.foldl_append

/-- Copies that are no newer than the replica's own are not taken over. -/
theorem latest_eq_self (h : ∀ x ∈ C, x.stamp ≤ a.stamp) : a.latest C = a := by
  induction C with
  | nil => rfl
  | cons m C ih =>
    rw [latest_cons, take_of_le (h m List.mem_cons_self)]
    exact ih fun x hx => h x (List.mem_cons_of_mem m hx)

/-- Of copies with different stamps the newest is kept, however they are ordered and repeated. -/
theorem latest_eq_of_newest (hm : m ∈ C) (ha : a.stamp < m.stamp)
    (hmax : ∀ x ∈ C, x.stamp ≤ m.stamp) (hinj : ∀ x ∈ C, x.stamp = m.stamp → x = m) :
    a.latest C = m := by
  have hle : m.stamp ≤ (a.latest C).stamp := stamp_le_latest (List.mem_cons_of_mem a hm)
  rcases List.mem_cons.1 (latest_mem a C) with he | hmem
  · rw [he] at hle
    exact absurd hle (not_le.2 ha)
  · exact hinj _ hmem (le_antisymm (hmax _ hmem) hle)

/-- What is kept is the replica's own copy, or the newest of the others. -/
theorem latest_cases (a : Copy α τ) (C : List (Copy α τ)) :
    (a.latest C = a ∧ ∀ x ∈ C, x.stamp ≤ a.stamp) ∨
      (a.latest C ∈ C ∧ a.stamp < (a.latest C).stamp ∧ ∀ x ∈ C, x.stamp ≤ (a.latest C).stamp) := by
  have hmax : ∀ x ∈ C, x.stamp ≤ (a.latest C).stamp := fun x hx =>
    stamp_le_latest (List.mem_cons_of_mem a hx)
  rcases lt_or_ge a.stamp (a.latest C).stamp with hlt | hge
  · rcases List.mem_cons.1 (latest_mem a C) with he | hmem
    · exact absurd hlt (by simp [he])
    · exact Or.inr ⟨hmem, hlt, hmax⟩
  · have hold : ∀ x ∈ C, x.stamp ≤ a.stamp := fun x hx => (hmax x hx).trans hge
    exact Or.inl ⟨latest_eq_self hold, hold⟩

/-- Copies with different stamps, in another order and repeated otherwise, leave the same. -/
theorem latest_congr (hinj : ∀ x ∈ C, ∀ y ∈ C, x.stamp = y.stamp → x = y) (h : ∀ x, x ∈ C ↔ x ∈ D) :
    a.latest C = a.latest D := by
  rcases latest_cases a C with ⟨he, hold⟩ | ⟨hmem, hlt, hmax⟩
  · rw [he, latest_eq_self fun x hx => hold x ((h x).2 hx)]
  · exact (latest_eq_of_newest ((h _).1 hmem) hlt (fun x hx => hmax x ((h x).2 hx))
      fun x hx he => hinj x ((h x).2 hx) _ hmem he).symm

/-- The copies whose view does not satisfy `Q` are older than `n`. -/
def Below (Q : α → Prop) (n : τ) (C : List (Copy α τ)) : Prop := ∀ x ∈ C, ¬ Q x.view → x.stamp < n

theorem Below.of_subset (h : Below Q n C) (hD : D ⊆ C) : Below Q n D := fun x hx => h x (hD hx)

theorem Below.cons (h : Below Q n C) (hm : Q m.view ∨ m.stamp < n) : Below Q n (m :: C) := by
  intro x hx hq
  rcases List.mem_cons.1 hx with rfl | hx
  · exact hm.resolve_left hq
  · exact h x hx hq

/-- Nothing whose view does not satisfy `Q` can be kept from here on. -/
structure Settled (Q : α → Prop) (n : τ) (C : List (Copy α τ)) : Prop where
  below : Below Q n C
  above : ∃ x ∈ C, Q x.view ∧ n ≤ x.stamp

theorem Settled.of_subset (h : Settled Q n C) (hD : D ⊆ C) (hC : C ⊆ D) : Settled Q n D := by
  obtain ⟨x, hx, hq, hle⟩ := h.above
  exact ⟨h.below.of_subset hD, x, hC hx, hq, hle⟩

theorem Settled.cons (h : Settled Q n C) (hm : Q m.view ∨ m.stamp < n) : Settled Q n (m :: C) := by
  obtain ⟨x, hx, hq, hle⟩ := h.above
  exact ⟨h.below.cons hm, x, List.mem_cons_of_mem m hx, hq, hle⟩

/-- A copy that is not older than those that must not be kept, and whose view satisfies `Q`. -/
theorem Below.settled (h : Below Q n C) (hq : Q m.view) (hle : n ≤ m.stamp) :
    Settled Q n (m :: C) :=
  ⟨h.cons (Or.inl hq), m, List.mem_cons_self, hq, hle⟩

/-- In whatever order the copies have come. -/
theorem Settled.latest (h : Settled Q n (a :: C)) : Q (a.latest C).view := by
  obtain ⟨x, hx, -, hle⟩ := h.above
  by_contra hq
  have hlt : (a.latest C).stamp < n := h.below _ (latest_mem a C) hq
  exact absurd (hle.trans (stamp_le_latest hx)) (not_le.2 hlt)

end Copy

end Automata
