import Mathlib.Algebra.Order.Ring.Nat
import Mathlib.Data.List.Basic
import Mathlib.Tactic.Common

/-!
# Numerals of a fixed width

A number is written with zeros in front of it, up to a width, and read back from as many digits
(`number_digits`). Texts are compared by their first difference, so that numerals of one width stand in
the order of their numbers (`before_digits`), also where more follows them (`before_digits_append`).
-/

namespace Text

/-! ## Comparing texts -/

/-- `a < b` of two texts, by the first character that they differ in. -/
def before : List Char → List Char → Bool
  | _, [] => false
  | [], _ :: _ => true
  | c :: s, d :: t => decide (c.toNat < d.toNat) || (decide (c = d) && before s t)

/-- The first parts decide, or, if they are the same, what follows. -/
theorem before_append {s t : List Char} (h : s.length = t.length) (u v : List Char) :
    before (s ++ u) (t ++ v) = true ↔ before s t = true ∨ s = t ∧ before u v = true := by
  induction s generalizing t with
  | nil =>
    obtain rfl := List.length_eq_zero_iff.1 h.symm
    simp [before]
  | cons c s ih =>
    obtain ⟨d, t, rfl⟩ := List.exists_cons_of_length_eq_add_one h.symm
    have hrest := ih (Nat.succ.inj h)
    by_cases hcd : c = d
    · subst hcd
      simpa [before] using hrest
    · simp [before, hcd]

/-! ## Writing -/

/-- The last digits of a number, as many as the width says. -/
def digits : ℕ → ℕ → List Char
  | 0, _ => []
  | width + 1, n => digits width (n / 10) ++ [Nat.digitChar (n % 10)]

@[simp] theorem length_digits (width n : ℕ) : (digits width n).length = width := by
  induction width generalizing n with
  | zero => rfl
  | succ width ih => rw [digits, List.length_append, ih, List.length_singleton]

theorem isDigit_of_mem_digits {width n : ℕ} {c : Char} (h : c ∈ digits width n) :
    c.isDigit = true := by
  induction width generalizing n with
  | zero => cases h
  | succ width ih =>
    rw [digits, List.mem_append, List.mem_singleton] at h
    rcases h with h | rfl
    · exact ih h
    · rw [Nat.isDigit_digitChar, decide_eq_true_eq]
      exact Nat.mod_lt n (by decide)

/-- `padStart(width, "0")` of a number that is not wider. -/
theorem leftpad_toDigits {width n : ℕ} (hpos : 0 < width) (h : n < 10 ^ width) :
    (Nat.toDigits 10 n).leftpad width '0' = digits width n := by
  induction width generalizing n with
  | zero => exact absurd hpos (Nat.lt_irrefl 0)
  | succ width ih =>
    by_cases hten : n < 10
    · have hzero : ∀ w, digits w 0 = List.replicate w '0' := by
        intro w
        induction w with
        | zero => rfl
        | succ w ihw =>
          rw [digits, Nat.zero_div, ihw, List.replicate_succ']
          rfl
      rw [Nat.toDigits_of_lt_base hten, digits, Nat.div_eq_of_lt hten, Nat.mod_eq_of_lt hten, hzero]
      rfl
    · have hdiv : n / 10 < 10 ^ width := by
        rw [Nat.pow_succ] at h
        omega
      have hwidth : 0 < width := by
        refine Nat.pos_of_ne_zero fun hw => ?_
        subst hw
        omega
      have hlast := ih hwidth hdiv
      rw [digits, ← hlast, Nat.toDigits_of_base_le (by decide) (not_lt.1 hten)]
      unfold List.leftpad
      rw [List.length_append, List.length_singleton, Nat.add_sub_add_right, List.append_assoc]

/-! ## Reading -/

/-- A number of so many digits, and what comes after it. -/
def number (width : ℕ) (s : List Char) : Option (ℕ × List Char) :=
  if (s.take width).length = width ∧ (s.take width).all Char.isDigit then
    some (Nat.ofDigitChars 10 (s.take width) 0, s.drop width)
  else none

/-- A character, and what comes after it. -/
def expect (c : Char) : List Char → Option (List Char)
  | [] => none
  | d :: s => if d = c then some s else none

@[simp] theorem expect_cons (c : Char) (s : List Char) : expect c (c :: s) = some s := if_pos rfl

theorem ofDigitChars_digits {width n : ℕ} (h : n < 10 ^ width) :
    Nat.ofDigitChars 10 (digits width n) 0 = n := by
  induction width generalizing n with
  | zero =>
    rw [Nat.pow_zero, Nat.lt_one_iff] at h
    rw [h]
    rfl
  | succ width ih =>
    have hdiv : n / 10 < 10 ^ width := by
      rw [Nat.pow_succ] at h
      omega
    have hdigit := Nat.toNat_digitChar_sub_48_of_lt_ten (Nat.mod_lt n (by decide : 10 > 0))
    have hlast := ih hdiv
    rw [Nat.ofDigitChars_eq_foldl] at hlast ⊢
    rw [digits, List.foldl_append, hlast, List.foldl_cons, List.foldl_nil]
    show 10 * (n / 10) + ((n % 10).digitChar.toNat - 48) = n
    omega

/-- A numeral is read back, whatever comes after it. -/
theorem number_digits {width n : ℕ} (h : n < 10 ^ width) (rest : List Char) :
    number width (digits width n ++ rest) = some (n, rest) := by
  have htake : (digits width n ++ rest).take width = digits width n := by
    rw [List.take_append_of_le_length (by simp), List.take_of_length_le (by simp)]
  have hdrop : (digits width n ++ rest).drop width = rest := List.drop_left' (length_digits width n)
  have hall : (digits width n).all Char.isDigit = true :=
    List.all_eq_true.2 fun c hc => isDigit_of_mem_digits hc
  unfold number
  rw [htake, hdrop, if_pos ⟨length_digits width n, hall⟩, ofDigitChars_digits h]

theorem digits_inj {width a b : ℕ} (ha : a < 10 ^ width) (hb : b < 10 ^ width) :
    digits width a = digits width b ↔ a = b := by
  constructor
  · intro h
    rw [← ofDigitChars_digits ha, h, ofDigitChars_digits hb]
  · rintro rfl
    rfl

/-! ## The order of numerals -/

theorem before_digit {a b : ℕ} (ha : a < 10) (hb : b < 10) :
    before [Nat.digitChar a] [Nat.digitChar b] = true ↔ a < b := by
  simp only [before, Nat.toNat_digitChar_of_lt_ten ha, Nat.toNat_digitChar_of_lt_ten hb, Bool.and_false,
    Bool.or_false, decide_eq_true_eq]
  omega

/-- Numerals of one width stand in the order of their numbers. -/
theorem before_digits {width a b : ℕ} (ha : a < 10 ^ width) (hb : b < 10 ^ width) :
    before (digits width a) (digits width b) = true ↔ a < b := by
  induction width generalizing a b with
  | zero =>
    rw [Nat.pow_zero, Nat.lt_one_iff] at ha hb
    simp [digits, before, ha, hb]
  | succ width ih =>
    have hdiva : a / 10 < 10 ^ width := by
      rw [Nat.pow_succ] at ha
      omega
    have hdivb : b / 10 < 10 ^ width := by
      rw [Nat.pow_succ] at hb
      omega
    rw [digits, digits, before_append (by simp), ih hdiva hdivb, digits_inj hdiva hdivb,
      before_digit (Nat.mod_lt a (by decide)) (Nat.mod_lt b (by decide))]
    omega

theorem before_digits_append {width a b : ℕ} (ha : a < 10 ^ width) (hb : b < 10 ^ width)
    (s t : List Char) :
    before (digits width a ++ s) (digits width b ++ t) = true ↔ a < b ∨ a = b ∧ before s t = true := by
  rw [before_append (by simp), before_digits ha hb, digits_inj ha hb]

theorem before_cons (c : Char) (s t : List Char) : before (c :: s) (c :: t) = before s t := by
  simp [before]

end Text
