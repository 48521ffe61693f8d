import Mathlib.Data.List.DropRight
import Taymna.Number.Double

/-!
# Numbers as texts

The finite numbers of ECMAScript are the doubles, and `toFixed` is `Number.prototype.toFixed`.  Its
texts are made of the characters of numerals alone (`isNumeral_of_mem_toFixed`).
-/

namespace Number

/-- The integer with the fewest digits, zeros at the end aside, that `n` is the nearest double to. -/
def shortest (n : ℕ) : ℕ :=
  let width := (Nat.toDigits 10 n).length
  let candidates : List ℕ := (List.range 17).flatMap fun digits =>
    let unit : ℕ := 10 ^ (width - (digits + 1))
    [(roundHalfEven ((n : ℚ) / unit)).toNat * unit, n / unit * unit, (n / unit + 1) * unit]
  (candidates.find? fun m : ℕ => toDouble m = n).getD n

/-- `Number::toString` of an integer with more than 21 digits. -/
def exponential (n : ℕ) : String :=
  let digits := Nat.toDigits 10 (shortest n)
  let fraction := digits.tail.rdropWhile fun d => d = '0'
  String.ofList (digits.take 1 ++ (if fraction = [] then [] else '.' :: fraction) ++ ['e', '+'] ++
    Nat.toDigits 10 (digits.length - 1))

/-- `Number.prototype.toFixed`. -/
def toFixed (x : ℚ) (fractionDigits : ℕ) : String :=
  let sign := if x < 0 then "-" else ""
  if 10 ^ 21 ≤ |x| then sign ++ exponential ⌊|x|⌋.toNat
  else
    let n := ⌊|x| * 10 ^ fractionDigits + 1 / 2⌋.toNat
    let m := (Nat.toDigits 10 n).leftpad (fractionDigits + 1) '0'
    let fraction := m.drop (m.length - fractionDigits)
    sign ++ String.ofList (m.take (m.length - fractionDigits) ++
      if fraction = [] then [] else '.' :: fraction)

/-! ## The characters of a text -/

/-- A character of a numeral. -/
def isNumeral (c : Char) : Bool := c.isDigit || c ∈ ['-', '.', 'e', '+']

theorem isNumeral_of_mem_toDigits {n : ℕ} {c : Char} (h : c ∈ Nat.toDigits 10 n) :
    isNumeral c = true := by
  have hdigit : c.isDigit = true := Nat.isDigit_of_mem_toDigits (by decide) (by decide) h
  simp [isNumeral, hdigit]

theorem isNumeral_of_mem_point {s : List Char} (hs : ∀ c ∈ s, isNumeral c = true) :
    ∀ c ∈ if s = [] then [] else '.' :: s, isNumeral c = true := by
  split_ifs with hnil
  · simp
  · exact List.forall_mem_cons.2 ⟨by decide, hs⟩

theorem isNumeral_of_mem_exponential (n : ℕ) :
    ∀ c ∈ (exponential n).toList, isNumeral c = true := by
  have hfraction : ∀ c ∈ (Nat.toDigits 10 (shortest n)).tail.rdropWhile fun d => d = '0',
      isNumeral c = true := fun c hc =>
    isNumeral_of_mem_toDigits (List.mem_of_mem_tail ((List.rdropWhile_prefix _ _).subset hc))
  have hexponent : ∀ c ∈ ['e', '+'], isNumeral c = true := List.all_eq_true.1 (by decide)
  unfold exponential
  dsimp only
  rw [String.toList_ofList]
  simp only [List.forall_mem_append]
  refine ⟨⟨⟨fun c hc => ?_, isNumeral_of_mem_point hfraction⟩, hexponent⟩, fun c hc => ?_⟩
  · exact isNumeral_of_mem_toDigits (List.mem_of_mem_take hc)
  · exact isNumeral_of_mem_toDigits hc

theorem isNumeral_of_mem_leftpad {n width : ℕ} :
    ∀ c ∈ (Nat.toDigits 10 n).leftpad width '0', isNumeral c = true := by
  unfold List.leftpad
  rw [List.forall_mem_append]
  refine ⟨fun c hc => ?_, fun c hc => isNumeral_of_mem_toDigits hc⟩
  rw [List.eq_of_mem_replicate hc]
  decide

theorem isNumeral_of_mem_toFixed (x : ℚ) (fractionDigits : ℕ) :
    ∀ c ∈ (toFixed x fractionDigits).toList, isNumeral c = true := by
  have hsign : ∀ c ∈ (if x < 0 then "-" else "").toList, isNumeral c = true := by
    split_ifs
    · exact List.all_eq_true.1 (by decide)
    · exact List.all_eq_true.1 (by decide)
  unfold toFixed
  dsimp only
  by_cases hlarge : 10 ^ 21 ≤ |x|
  · rw [if_pos hlarge, String.toList_append, List.forall_mem_append]
    exact ⟨hsign, isNumeral_of_mem_exponential _⟩
  · rw [if_neg hlarge, String.toList_append, List.forall_mem_append, String.toList_ofList,
      List.forall_mem_append]
    refine ⟨hsign, fun c hc => ?_, isNumeral_of_mem_point fun c hc => ?_⟩
    · exact isNumeral_of_mem_leftpad c (List.mem_of_mem_take hc)
    · exact isNumeral_of_mem_leftpad c (List.mem_of_mem_drop hc)

end Number
