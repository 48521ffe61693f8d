import Mathlib.Algebra.Order.Ring.Nat
import Mathlib.Data.List.Induction
import Mathlib.Tactic.Common

/-!
# Waits that double

A client that tries again after a failure waits before it does: `least` at first, and twice as long each
time, up to `most`. It keeps one number, the next wait; what it has waited since it was last set back is
then a function of how often it has waited (`after_eq_wait`).
-/

namespace Automata

structure Backoff where
  least : ℕ
  most : ℕ
  least_le_most : least ≤ most

namespace Backoff

variable (b : Backoff)

/-- The wait that follows a wait of `d`. -/
def next (d : ℕ) : ℕ := min (d * 2) b.most

/-- The wait after `n` waits in a row. -/
def wait (n : ℕ) : ℕ := min (b.least * 2 ^ n) b.most

@[simp] theorem wait_zero : b.wait 0 = b.least := by
  unfold wait
  rw [Nat.pow_zero, Nat.mul_one, Nat.min_eq_left b.least_le_most]

theorem next_wait (n : ℕ) : b.next (b.wait n) = b.wait (n + 1) := by
  unfold next wait
  rw [Nat.pow_succ, ← Nat.mul_assoc]
  omega

/-! ## Along a history -/

/-- What a client does with the next wait: it waits that long, or it sets it back. -/
inductive Op
  | wait
  | reset
deriving DecidableEq, Repr

def step (d : ℕ) : Op → ℕ
  | .wait => b.next d
  | .reset => b.least

/-- The next wait after all that has been done. -/
def after (ops : List Op) : ℕ := ops.foldl b.step b.least

/-- How often the client has waited since it was last set back. -/
def streak (ops : List Op) : ℕ := ops.foldl (fun n op => match op with | .wait => n + 1 | .reset => 0) 0

@[simp] theorem streak_wait (ops : List Op) : streak (ops ++ [.wait]) = streak ops + 1 := by
  unfold streak
  rw [List.foldl_append]
  rfl

@[simp] theorem streak_reset (ops : List Op) : streak (ops ++ [.reset]) = 0 := by
  unfold streak
  rw [List.foldl_append]
  rfl

theorem after_concat (ops : List Op) (op : Op) : b.after (ops ++ [op]) = b.step (b.after ops) op := by
  unfold after
  rw [List.foldl_append]
  rfl

/-- The next wait is the one after as many waits as there have been since the last reset. -/
theorem after_eq_wait (ops : List Op) : b.after ops = b.wait (streak ops) := by
  induction ops using List.reverseRecOn with
  | nil => exact (b.wait_zero).symm
  | append_singleton ops op ih =>
    rw [after_concat, ih]
    cases op with
    | wait => rw [streak_wait, ← next_wait]; rfl
    | reset => rw [streak_reset, wait_zero]; rfl

end Backoff

end Automata
