import Mathlib.Algebra.Order.Ring.Nat
import Mathlib.Data.List.Basic
import Mathlib.Tactic.Common

/-!
# Lines, words and numbers

Reading a text line by line, taking the first word of a line, and reading a decimal number, as Rust's
`str::lines`, `str::split_whitespace` and `u32::from_str` do. Lines that are written one after the
other, each with its end, are read back (`lines_unlines`), and so is a number (`parseU32_toDigits`).
A table of `KEY=value` lines answers for a key with the first value that stands there
(`property_table`).
-/

namespace Text

/-! ## Lines -/

/-- A line ends with a newline, or with a carriage return and a newline; the last one may have no
end. -/
def lines : List Char → List (List Char)
  | [] => []
  | '\n' :: s => [] :: lines s
  | '\r' :: '\n' :: s => [] :: lines s
  | c :: s =>
    match lines s with
    | [] => [[c]]
    | l :: ls => (c :: l) :: ls

/-- Every line with its end. -/
def unlines (ls : List (List Char)) : List Char := ls.flatMap fun l => l ++ ['\n']

/-- A text that is a line of its own. -/
def IsLine (l : List Char) : Prop := '\n' ∉ l ∧ l.getLast? ≠ some '\r'

theorem lines_newline (s : List Char) : lines ('\n' :: s) = [] :: lines s := by
  rw [lines]

theorem lines_append_newline {l : List Char} (h : IsLine l) (s : List Char) :
    lines (l ++ '\n' :: s) = l :: lines s := by
  induction l with
  | nil => exact lines_newline s
  | cons c l ih =>
    obtain ⟨hnewline, hreturn⟩ := h
    rw [List.mem_cons, not_or] at hnewline
    have hl : IsLine l := by
      refine ⟨hnewline.2, fun hlast => hreturn ?_⟩
      rw [List.getLast?_cons, hlast]
      rfl
    have hcons : lines (c :: (l ++ '\n' :: s)) =
        match lines (l ++ '\n' :: s) with
        | [] => [[c]]
        | l :: ls => (c :: l) :: ls := by
      by_cases hc : c = '\r'
      · -- A carriage return inside the line: no newline follows it.
        subst hc
        cases l with
        | nil => exact absurd rfl hreturn
        | cons d l =>
          have hd : d ≠ '\n' := fun h => hnewline.2 (h ▸ List.mem_cons_self)
          rw [List.cons_append, lines]
          · exact fun h => absurd h (by decide)
          · intro t _ ht
            exact hd (List.cons.inj ht).1
      · rw [lines]
        · exact fun h => hnewline.1 h.symm
        · exact fun _ h => absurd h hc
    rw [List.cons_append, hcons, ih hl]

theorem lines_unlines {ls : List (List Char)} (h : ∀ l ∈ ls, IsLine l) : lines (unlines ls) = ls := by
  induction ls with
  | nil => rfl
  | cons l ls ih =>
    unfold unlines at ih ⊢
    rw [List.flatMap_cons, List.append_assoc, List.singleton_append,
      lines_append_newline (h l List.mem_cons_self), ih fun l hl => h l (List.mem_cons_of_mem _ hl)]

/-! ## Words -/

/-- Unicode's `White_Space`. -/
def isWhitespace (c : Char) : Bool :=
  (9 ≤ c.toNat && c.toNat ≤ 13) || (8192 ≤ c.toNat && c.toNat ≤ 8202) ||
    [32, 133, 160, 5760, 8232, 8233, 8239, 8287, 12288].contains c.toNat

def trim (s : List Char) : List Char :=
  ((s.dropWhile isWhitespace).reverse.dropWhile isWhitespace).reverse

/-- `split_whitespace().next()`. -/
def firstWord (s : List Char) : Option (List Char) :=
  match s.dropWhile isWhitespace with
  | [] => none
  | c :: s => some ((c :: s).takeWhile fun d => !isWhitespace d)

/-- A word between white space, with nothing but white space before it. -/
theorem firstWord_append {blank word rest : List Char} (hblank : ∀ c ∈ blank, isWhitespace c = true)
    (hne : word ≠ []) (hword : ∀ c ∈ word, isWhitespace c = false)
    (hrest : ∀ c ∈ rest.head?, isWhitespace c = true) :
    firstWord (blank ++ word ++ rest) = some word := by
  obtain ⟨c, word, rfl⟩ := List.exists_cons_of_ne_nil hne
  have hdrop : (blank ++ (c :: word) ++ rest).dropWhile isWhitespace = c :: (word ++ rest) := by
    rw [List.append_assoc, List.dropWhile_append_of_pos hblank, List.cons_append,
      List.dropWhile_cons_of_neg (by simpa using hword c List.mem_cons_self)]
  unfold firstWord
  rw [hdrop]
  show some ((c :: (word ++ rest)).takeWhile fun d => !isWhitespace d) = _
  rw [← List.cons_append, List.takeWhile_append_of_pos fun d hd => by simp [hword d hd]]
  cases rest with
  | nil => simp
  | cons d rest => simp [hrest d rfl]

/-! ## Numbers -/

/-- A plus sign in front is left out. -/
def unsigned : List Char → List Char
  | '+' :: digits => digits
  | digits => digits

/-- `u32::from_str`: digits, perhaps behind a plus sign, of a number that fits. -/
def parseU32 (s : List Char) : Option ℕ :=
  if unsigned s ≠ [] ∧ (unsigned s).all Char.isDigit ∧ Nat.ofDigitChars 10 (unsigned s) 0 < 2 ^ 32 then
    some (Nat.ofDigitChars 10 (unsigned s) 0)
  else none

theorem unsigned_of_digits {s : List Char} (h : ∀ c ∈ s, c.isDigit = true) : unsigned s = s := by
  unfold unsigned
  split
  · exact absurd (h '+' List.mem_cons_self) (by decide)
  · rfl

theorem parseU32_toDigits {n : ℕ} (h : n < 2 ^ 32) : parseU32 (Nat.toDigits 10 n) = some n := by
  have hdigit : ∀ c ∈ Nat.toDigits 10 n, c.isDigit = true :=
    fun c hc => Nat.isDigit_of_mem_toDigits (by decide) (by decide) hc
  have hvalue : Nat.ofDigitChars 10 (Nat.toDigits 10 n) 0 = n := Nat.ofDigitChars_ten_toDigits
  unfold parseU32
  rw [unsigned_of_digits hdigit,
    if_pos ⟨Nat.toDigits_ne_nil, List.all_eq_true.2 hdigit, lt_of_eq_of_lt hvalue h⟩, hvalue]

/-! ## Tables -/

/-- The value of the first line that is the key, an equals sign and a value. -/
def property (text key : List Char) : Option (List Char) :=
  (lines text).findSome? fun line => (line.dropPrefix? key).bind fun rest => rest.dropPrefix? ['=']

/-- A `KEY=value` line for each entry. -/
def table (entries : List (List Char × List Char)) : List Char :=
  unlines (entries.map fun entry => entry.1 ++ '=' :: entry.2)

theorem dropPrefix?_line {key key' value : List Char} (hkey : '=' ∉ key) (hkey' : '=' ∉ key') :
    ((key' ++ '=' :: value).dropPrefix? key).bind (fun rest => rest.dropPrefix? ['=']) =
      if key = key' then some value else none := by
  split_ifs with h
  · subst h
    rw [List.dropPrefix?_append_of_beq _ (by simp), Option.bind_some]
    exact List.dropPrefix?_eq_some_iff.2 ⟨['='], rfl, by simp⟩
  · rw [Option.eq_none_iff_forall_ne_some]
    intro v hv
    obtain ⟨rest, hrest, hvalue⟩ := Option.bind_eq_some_iff.1 hv
    obtain ⟨key'', hline, hbeq⟩ := List.dropPrefix?_eq_some_iff.1 hrest
    obtain ⟨eq, hrest', heq⟩ := List.dropPrefix?_eq_some_iff.1 hvalue
    rw [beq_iff_eq] at hbeq heq
    subst hbeq heq hrest'
    -- Both keys reach up to the first equals sign of the line.
    have htake := congrArg (List.takeWhile fun c => c != '=') hline
    have hstop : ∀ k : List Char, '=' ∉ k → ∀ t, (k ++ '=' :: t).takeWhile (fun c => c != '=') = k := by
      intro k hk t
      have hpos : ∀ c ∈ k, (c != '=') = true := fun c hc =>
        bne_iff_ne.2 fun heq => hk (heq ▸ hc)
      rw [List.takeWhile_append_of_pos hpos]
      simp
    rw [hstop key' hkey' value, List.singleton_append, hstop key'' hkey v] at htake
    exact h htake.symm

/-- What a table is asked for is the first entry of that key. -/
theorem property_table {entries : List (List Char × List Char)}
    (h : ∀ entry ∈ entries, '=' ∉ entry.1 ∧ IsLine (entry.1 ++ '=' :: entry.2)) {key : List Char}
    (hkey : '=' ∉ key) : property (table entries) key = entries.lookup key := by
  unfold property table
  rw [lines_unlines]
  · induction entries with
    | nil => rfl
    | cons entry entries ih =>
      obtain ⟨key', value⟩ := entry
      have hentry := h (key', value) List.mem_cons_self
      rw [List.map_cons, List.findSome?_cons, dropPrefix?_line hkey hentry.1, List.lookup_cons]
      by_cases hk : key = key'
      · subst hk
        simp
      · rw [if_neg hk, beq_eq_false_iff_ne.2 hk]
        exact ih fun entry he => h entry (List.mem_cons_of_mem _ he)
  · intro l hl
    obtain ⟨entry, he, rfl⟩ := List.mem_map.1 hl
    exact (h entry he).2

end Text
