import Mathlib.Algebra.Order.Round
import Mathlib.Algebra.Order.BigOperators.Group.List
import Mathlib.Algebra.Order.Field.Power
import Mathlib.Data.List.Induction
import Mathlib.Data.Nat.Log
import Mathlib.Data.Rat.Floor
import Mathlib.Tactic.GCongr
import Mathlib.Tactic.Linarith
import Mathlib.Tactic.Positivity

/-!
# Doubles

A double is the rational number that it stands for, and `toDouble` rounds the exact result of an
operation to the nearest one.  What has 53 bits is a double already (`toDouble_mul_zpow`), and
anything else is off by at most one part in `2 ^ 53` (`abs_toDouble_sub_le`).  So a sum of doubles
that is taken from left to right stays near the exact one (`abs_sum_double_sub_le`), and is the
exact one where its terms are few multiples of a power of two (`sum_double_mul_zpow`).
-/

namespace Number

/-- The nearest integer, and the even one of two. -/
def roundHalfEven (x : ℚ) : ℤ :=
  if x - ⌊x⌋ < 1 / 2 ∨ x - ⌊x⌋ = 1 / 2 ∧ ⌊x⌋ % 2 = 0 then ⌊x⌋ else ⌊x⌋ + 1

/-- The exponent of the last power of two that a number other than zero reaches. -/
def binaryExponent (x : ℚ) : ℤ :=
  let exponent : ℤ := Nat.log2 x.num.natAbs - Nat.log2 x.den
  if 2 ^ exponent ≤ |x| then exponent else exponent - 1

/-- The double nearest to a number in their range: 53 bits, as far as the smallest exponent goes. -/
def toDouble (x : ℚ) : ℚ :=
  let unit : ℚ := 2 ^ max (binaryExponent x - 52) (-1074)
  roundHalfEven (x / unit) * unit

/-! ## Rounding to an integer -/

theorem abs_roundHalfEven_sub_le (x : ℚ) : |(roundHalfEven x : ℚ) - x| ≤ 1 / 2 := by
  have hfloor : (⌊x⌋ : ℚ) ≤ x := Int.floor_le x
  have hlt : x < ⌊x⌋ + 1 := Int.lt_floor_add_one x
  unfold roundHalfEven
  rw [abs_le]
  split_ifs with h
  · have hhalf : x - ⌊x⌋ ≤ 1 / 2 := h.elim le_of_lt fun h => h.1.le
    constructor <;> linarith
  · have hhalf : 1 / 2 ≤ x - ⌊x⌋ := not_lt.1 fun hlt => h (Or.inl hlt)
    push_cast
    constructor <;> linarith

@[simp] theorem roundHalfEven_intCast (n : ℤ) : roundHalfEven n = n := by
  simp [roundHalfEven]

/-! ## The exponent -/

theorem zpow_log2_le {n : ℕ} (hn : n ≠ 0) :
    (2 : ℚ) ^ (Nat.log2 n : ℤ) ≤ n ∧ (n : ℚ) < 2 ^ ((Nat.log2 n : ℤ) + 1) := by
  constructor
  · rw [zpow_natCast]
    exact_mod_cast Nat.log2_self_le hn
  · have hlt : n < 2 ^ (Nat.log2 n + 1) := Nat.lt_log2_self
    exact_mod_cast hlt

theorem zpow_binaryExponent_le {x : ℚ} (hx : x ≠ 0) :
    2 ^ binaryExponent x ≤ |x| ∧ |x| < 2 ^ (binaryExponent x + 1) := by
  obtain ⟨hnum, hnum'⟩ := zpow_log2_le (Int.natAbs_ne_zero.2 (Rat.num_ne_zero.2 hx))
  obtain ⟨hden, hden'⟩ := zpow_log2_le x.den_nz
  have habs : |x| * x.den = x.num.natAbs := by
    rw [Rat.abs_def, Rat.divInt_eq_div, Int.cast_natCast, Int.cast_natCast]
    exact div_mul_cancel₀ _ (Nat.cast_ne_zero.2 x.den_nz)
  have hpos : (0 : ℚ) < x.den := Nat.cast_pos.2 x.den_pos
  have hbelow : (2 : ℚ) ^ ((Nat.log2 x.num.natAbs : ℤ) - Nat.log2 x.den - 1) ≤ |x| := by
    refine le_of_mul_le_mul_right ?_ hpos
    rw [habs]
    refine le_trans ?_ hnum
    calc (2 : ℚ) ^ ((Nat.log2 x.num.natAbs : ℤ) - Nat.log2 x.den - 1) * x.den
        ≤ 2 ^ ((Nat.log2 x.num.natAbs : ℤ) - Nat.log2 x.den - 1) * 2 ^ ((Nat.log2 x.den : ℤ) + 1) := by
          gcongr
      _ = 2 ^ (Nat.log2 x.num.natAbs : ℤ) := by
          rw [← zpow_add₀ two_ne_zero]
          congr 1
          omega
  have habove : |x| < (2 : ℚ) ^ ((Nat.log2 x.num.natAbs : ℤ) - Nat.log2 x.den + 1) := by
    refine lt_of_mul_lt_mul_right ?_ hpos.le
    rw [habs]
    refine hnum'.trans_le ?_
    calc (2 : ℚ) ^ ((Nat.log2 x.num.natAbs : ℤ) + 1)
        = 2 ^ ((Nat.log2 x.num.natAbs : ℤ) - Nat.log2 x.den + 1) * 2 ^ (Nat.log2 x.den : ℤ) := by
          rw [← zpow_add₀ two_ne_zero]
          congr 1
          omega
      _ ≤ 2 ^ ((Nat.log2 x.num.natAbs : ℤ) - Nat.log2 x.den + 1) * x.den := by gcongr
  unfold binaryExponent
  dsimp only
  split_ifs with h
  · exact ⟨h, habove⟩
  · rw [sub_add_cancel]
    exact ⟨hbelow, not_le.1 h⟩

/-! ## Rounding to a double -/

@[simp] theorem toDouble_zero : toDouble 0 = 0 := by
  have hzero : roundHalfEven 0 = 0 := by exact_mod_cast roundHalfEven_intCast 0
  simp [toDouble, hzero]

/-- A normal number is off by half a unit at most. -/
theorem abs_toDouble_sub_le {x : ℚ} (hx : 2 ^ (-1022 : ℤ) ≤ |x|) :
    |toDouble x - x| ≤ |x| / 2 ^ 53 := by
  have hne : x ≠ 0 := abs_pos.1 ((zpow_pos two_pos _).trans_le hx)
  obtain ⟨hle, hlt⟩ := zpow_binaryExponent_le hne
  have hexponent : -1022 ≤ binaryExponent x := by
    have hpow := (zpow_lt_zpow_iff_right₀ (one_lt_two (α := ℚ))).1 (hx.trans_lt hlt)
    omega
  have hmax : max (binaryExponent x - 52) (-1074) = binaryExponent x - 52 := max_eq_left (by omega)
  have hunit : (0 : ℚ) < 2 ^ (binaryExponent x - 52) := zpow_pos two_pos _
  unfold toDouble
  dsimp only
  rw [hmax]
  generalize hu : (2 : ℚ) ^ (binaryExponent x - 52) = unit at hunit
  have hround := abs_roundHalfEven_sub_le (x / unit)
  calc |roundHalfEven (x / unit) * unit - x| = |(roundHalfEven (x / unit) - x / unit) * unit| := by
        rw [sub_mul, div_mul_cancel₀ _ hunit.ne']
    _ = |roundHalfEven (x / unit) - x / unit| * unit := by rw [abs_mul, abs_of_pos hunit]
    _ ≤ 1 / 2 * unit := by gcongr
    _ = 2 ^ binaryExponent x / 2 ^ 53 := by
        rw [← hu, zpow_sub₀ two_ne_zero]
        norm_num
        ring
    _ ≤ |x| / 2 ^ 53 := by gcongr

/-- A number of 53 bits is a double. -/
theorem toDouble_mul_zpow {m : ℤ} {e : ℤ} (hm : |m| < 2 ^ 53) (he : -1074 ≤ e) :
    toDouble (m * 2 ^ e) = m * 2 ^ e := by
  rcases eq_or_ne m 0 with rfl | hne
  · simp
  generalize hx : (m : ℚ) * 2 ^ e = x
  have hpow : (0 : ℚ) < 2 ^ e := zpow_pos two_pos e
  have hx0 : x ≠ 0 := hx ▸ mul_ne_zero (Int.cast_ne_zero.2 hne) hpow.ne'
  have hlt : 2 ^ binaryExponent x < (2 : ℚ) ^ (53 + e) := by
    refine (zpow_binaryExponent_le hx0).1.trans_lt ?_
    rw [← hx, abs_mul, abs_of_pos hpow, zpow_add₀ two_ne_zero]
    gcongr
    exact_mod_cast hm
  have hexponent : max (binaryExponent x - 52) (-1074) ≤ e := by
    have hlt := (zpow_lt_zpow_iff_right₀ (one_lt_two (α := ℚ))).1 hlt
    omega
  obtain ⟨k, hk⟩ := Int.le.dest hexponent
  unfold toDouble
  dsimp only
  generalize max (binaryExponent x - 52) (-1074) = u at hk
  have hunit : (2 : ℚ) ^ u ≠ 0 := zpow_ne_zero _ two_ne_zero
  have hquotient : x / 2 ^ u = ((m * 2 ^ k : ℤ) : ℚ) := by
    rw [div_eq_iff hunit, ← hx, ← hk, zpow_add₀ two_ne_zero, zpow_natCast]
    push_cast
    ring
  rw [hquotient, roundHalfEven_intCast, ← hquotient, div_mul_cancel₀ _ hunit]

/-! ## Sums -/

/-- What the result of an operation is rounded to: nothing normal is rounded off to zero. -/
structure Arithmetic where
  round : ℚ → ℚ
  pos : ∀ x : ℚ, 2 ^ (-1022 : ℤ) ≤ x → 0 < round x

namespace Arithmetic

/-- Nothing is rounded. -/
def exact : Arithmetic where
  round x := x
  pos _ hx := (zpow_pos two_pos _).trans_le hx

def double : Arithmetic where
  round := toDouble
  pos x hx := by
    have hpos : 0 < x := (zpow_pos two_pos _).trans_le hx
    have herror := (abs_le.1 (abs_toDouble_sub_le (hx.trans (le_abs_self x)))).1
    rw [abs_of_pos hpos] at herror
    have hsmall : x / 2 ^ 53 < x := div_lt_self hpos (by norm_num)
    linarith

/-- From left to right. -/
def sum (arithmetic : Arithmetic) (l : List ℚ) : ℚ :=
  l.foldl (fun total x => arithmetic.round (total + x)) 0

theorem exact_sum (l : List ℚ) : exact.sum l = l.sum := List.sum_eq_foldl.symm

end Arithmetic

/-- Multiples of a power of two are added up exactly. -/
theorem sum_double_mul_zpow {l : List ℕ} {e : ℤ} (h : l.sum < 2 ^ 53) (he : -1074 ≤ e) :
    Arithmetic.double.sum (l.map fun n : ℕ => (n : ℚ) * 2 ^ e) = l.sum * 2 ^ e := by
  induction l using List.reverseRecOn with
  | nil => simp [Arithmetic.sum]
  | append_singleton l n ih =>
    rw [List.sum_append, List.sum_singleton] at h ⊢
    have hbits : |((l.sum + n : ℕ) : ℤ)| < 2 ^ 53 := by
      rw [abs_of_nonneg (Int.natCast_nonneg _)]
      exact_mod_cast h
    unfold Arithmetic.sum at ih ⊢
    rw [List.map_append, List.foldl_append, ih (by omega)]
    calc toDouble (l.sum * 2 ^ e + n * 2 ^ e)
        = toDouble (((l.sum + n : ℕ) : ℤ) * 2 ^ e) := by
          rw [Int.cast_natCast, Nat.cast_add, add_mul]
      _ = ((l.sum + n : ℕ) : ℤ) * 2 ^ e := toDouble_mul_zpow hbits he
      _ = ((l.sum + n : ℕ) : ℚ) * 2 ^ e := by rw [Int.cast_natCast]

/-- What the rounding of the terms and of the sums comes to. -/
theorem abs_sum_double_sub_le {l : List ℚ} {total : ℚ} (hpos : ∀ x ∈ l, 2 ^ (-1021 : ℤ) ≤ x)
    (htotal : l.sum ≤ total) (hlength : l.length ≤ 2 ^ 51) :
    0 ≤ Arithmetic.double.sum (l.map toDouble) ∧
      |Arithmetic.double.sum (l.map toDouble) - l.sum| ≤ l.length * (total / 2 ^ 51) := by
  induction l using List.reverseRecOn with
  | nil => simp [Arithmetic.sum]
  | append_singleton l x ih =>
    have hnonneg : ∀ y ∈ l, 0 ≤ y := fun y hy =>
      (zpow_pos two_pos _).le.trans (hpos y (List.mem_append_left _ hy))
    have hx : 2 ^ (-1021 : ℤ) ≤ x := hpos x (by simp)
    have hnormal : 2 ^ (-1022 : ℤ) ≤ x :=
      (zpow_le_zpow_right₀ one_le_two (by decide)).trans hx
    have hx0 : 0 < x := (zpow_pos two_pos _).trans_le hx
    have hsum : 0 ≤ l.sum := List.sum_nonneg hnonneg
    rw [List.sum_append, List.sum_singleton] at htotal ⊢
    rw [List.length_append, List.length_singleton] at hlength ⊢
    obtain ⟨hge, herror⟩ := ih (fun y hy => hpos y (List.mem_append_left _ hy)) (by linarith)
      (by omega)
    have hfold : Arithmetic.double.sum ((l ++ [x]).map toDouble) =
        toDouble (Arithmetic.double.sum (l.map toDouble) + toDouble x) := by
      unfold Arithmetic.sum
      rw [List.map_append, List.foldl_append]
      rfl
    rw [hfold]
    generalize Arithmetic.double.sum (l.map toDouble) = d at hge herror
    -- the term, and the sum with it
    obtain ⟨hterm, hterm'⟩ := abs_le.1 (abs_toDouble_sub_le (hnormal.trans (le_abs_self x)))
    rw [abs_of_pos hx0] at hterm hterm'
    have hhalf : x / 2 ^ 53 ≤ x / 2 := by gcongr; norm_num
    have hresult : 2 ^ (-1022 : ℤ) ≤ d + toDouble x := by
      have hmin : (2 : ℚ) ^ (-1021 : ℤ) = 2 * 2 ^ (-1022 : ℤ) := by
        rw [show (-1021 : ℤ) = 1 + -1022 by decide, zpow_add₀ two_ne_zero, zpow_one]
      linarith
    have hresult0 : 0 < d + toDouble x := (zpow_pos two_pos _).trans_le hresult
    have hround := abs_toDouble_sub_le (hresult.trans (le_abs_self _))
    rw [abs_of_pos hresult0] at hround
    refine ⟨(Arithmetic.double.pos _ hresult).le, ?_⟩
    have hd : d ≤ l.sum + total := by
      have hlength' : (l.length : ℚ) ≤ 2 ^ 51 := by exact_mod_cast Nat.le_of_succ_le hlength
      have hbound : l.length * (total / 2 ^ 51) ≤ total := by
        rw [mul_div_assoc', div_le_iff₀ (by norm_num), mul_comm]
        exact mul_le_mul_of_nonneg_left hlength' (by linarith)
      have hle := (abs_le.1 herror).2
      linarith
    have hsmall : (d + toDouble x) / 2 ^ 53 + x / 2 ^ 53 ≤ total / 2 ^ 51 := by
      rw [← add_div, div_le_div_iff₀ (by norm_num) (by norm_num)]
      linarith
    calc |toDouble (d + toDouble x) - (l.sum + x)|
        = |(toDouble (d + toDouble x) - (d + toDouble x)) + ((d - l.sum) + (toDouble x - x))| := by
          congr 1
          ring
      _ ≤ |toDouble (d + toDouble x) - (d + toDouble x)| + (|d - l.sum| + |toDouble x - x|) :=
          (abs_add_le _ _).trans (add_le_add_right (abs_add_le _ _) _)
      _ ≤ (d + toDouble x) / 2 ^ 53 + (l.length * (total / 2 ^ 51) + x / 2 ^ 53) :=
          add_le_add hround (add_le_add herror (abs_le.2 ⟨hterm, hterm'⟩))
      _ ≤ ((l.length + 1 : ℕ) : ℚ) * (total / 2 ^ 51) := by
          push_cast
          linarith

end Number
