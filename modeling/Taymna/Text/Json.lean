import Mathlib.Data.List.TakeWhile
import Taymna.Text.Percent

/-!
# JSON

Values, the texts that writers make of them, and a reader for all texts of the grammar. Writers differ in
where they put blanks, which is a `Layout`; in whatever layout a value is written, it is read back
(`parse_render`). An escape of half a surrogate pair stands for no character and is not read.
-/

namespace Json

/-! ## Numbers -/

/-- A sign in front is left out. -/
def unsigned : List Char → List Char
  | '+' :: s | '-' :: s => s
  | s => s

def exponent : List Char → Bool
  | [] => true
  | c :: s => (c == 'e' || c == 'E') && unsigned s != [] && (unsigned s).all Char.isDigit

def fraction : List Char → Bool
  | '.' :: s => s.head?.any Char.isDigit && exponent (s.dropWhile Char.isDigit)
  | s => exponent s

def magnitude : List Char → Bool
  | '0' :: s => fraction s
  | c :: s => c.isDigit && fraction (s.dropWhile Char.isDigit)
  | [] => false

/-- The grammar of a number. -/
def isNumber : List Char → Bool
  | '-' :: s => magnitude s
  | s => magnitude s

/-- A number is kept as it is written. -/
structure Number where
  literal : List Char
  isNumber_literal : isNumber literal = true
deriving DecidableEq, Repr

/-- Decimal digits that do not begin with a zero. -/
theorem exists_toDigits {n : ℕ} (h : 0 < n) :
    ∃ c t, Nat.toDigits 10 n = c :: t ∧ c.isDigit = true ∧ c ≠ '0' ∧ t.all Char.isDigit = true := by
  induction n using Nat.strong_induction_on with
  | h n ih =>
    have hlast : ∀ m, (Nat.digitChar (m % 10)).isDigit = true := by
      intro m
      rw [Nat.isDigit_digitChar, decide_eq_true_eq]
      exact Nat.mod_lt m (by decide)
    by_cases hten : n < 10
    · refine ⟨Nat.digitChar n, [], Nat.toDigits_of_lt_base hten, ?_, ?_, rfl⟩
      · rw [Nat.isDigit_digitChar, decide_eq_true_eq]
        exact hten
      · interval_cases n <;> decide
    · obtain ⟨c, t, hct, hdigit, hzero, hall⟩ := ih (n / 10) (by omega) (by omega)
      refine ⟨c, t ++ [Nat.digitChar (n % 10)], ?_, hdigit, hzero, ?_⟩
      · rw [Nat.toDigits_of_base_le (by decide) (not_lt.1 hten), hct]
        rfl
      · rw [List.all_append, hall, List.all_cons, hlast n]
        rfl

theorem magnitude_toDigits (n : ℕ) : magnitude (Nat.toDigits 10 n) = true := by
  rcases Nat.eq_zero_or_pos n with rfl | hpos
  · decide
  · obtain ⟨c, t, hct, hdigit, hzero, hall⟩ := exists_toDigits hpos
    have hdrop : t.dropWhile Char.isDigit = [] := List.dropWhile_eq_nil_iff.2 (List.all_eq_true.1 hall)
    rw [hct]
    unfold magnitude
    split
    · rename_i heq
      exact absurd (List.cons.inj heq).1 hzero
    · rename_i heq
      obtain ⟨rfl, rfl⟩ := List.cons.inj heq
      rw [hdigit, hdrop]
      rfl
    · rename_i heq
      cases heq

/-- A decimal integer. -/
def Number.ofInt (n : ℤ) : Number where
  literal := if n < 0 then '-' :: Nat.toDigits 10 n.natAbs else Nat.toDigits 10 n.natAbs
  isNumber_literal := by
    have hdigits := magnitude_toDigits n.natAbs
    split_ifs with h
    · exact hdigits
    · unfold isNumber
      split
      · rename_i heq
        rw [heq] at hdigits
        cases hdigits
      · exact hdigits

def isNumberChar (c : Char) : Bool := c.isDigit || c ∈ ['-', '+', '.', 'e', 'E']

/-! ## Values -/

/-- An object has its members in the order of the text. -/
inductive Value
  | null
  | bool (b : Bool)
  | number (n : Number)
  | string (s : List Char)
  | array (elements : List Value)
  | object (members : List (List Char × Value))

/-- A value without numbers whose arrays and objects are at most so deep. -/
def Value.shallow : ℕ → Value → Bool
  | _, .null | _, .bool _ | _, .string _ => true
  | _, .number _ => false
  | depth + 1, .array elements => elements.all (Value.shallow depth)
  | depth + 1, .object members => members.all fun m => Value.shallow depth m.2
  | 0, _ => false

/-! ## Writing -/

def hexDigit (n : ℕ) : Char := if n < 10 then Char.ofNat (48 + n) else Char.ofNat (87 + n)

def escapeChar (c : Char) : List Char :=
  if c = '\"' then ['\\', '\"']
  else if c = '\\' then ['\\', '\\']
  else if c = Char.ofNat 8 then ['\\', 'b']
  else if c = Char.ofNat 12 then ['\\', 'f']
  else if c = '\n' then ['\\', 'n']
  else if c = '\r' then ['\\', 'r']
  else if c = '\t' then ['\\', 't']
  else if c.toNat < 32 then ['\\', 'u', '0', '0', hexDigit (c.toNat / 16), hexDigit (c.toNat % 16)]
  else [c]

def quote (s : List Char) : List Char := '\"' :: (s.flatMap escapeChar ++ ['\"'])

def isBlank (c : Char) : Bool := c ∈ [' ', '\t', '\n', '\r']

/-- What a writer puts before an item or a closing bracket, at a depth, and after a colon. -/
structure Layout where
  newline : ℕ → List Char
  afterColon : List Char
  blank_newline : ∀ depth, (newline depth).all isBlank = true
  blank_afterColon : afterColon.all isBlank = true

/-- Without blanks. -/
def compact : Layout := ⟨fun _ => [], [], fun _ => rfl, rfl⟩

/-- Every item on a line of its own, indented by two blanks. -/
def pretty : Layout where
  newline depth := '\n' :: List.replicate (2 * depth) ' '
  afterColon := [' ']
  blank_newline depth := by
    rw [List.all_cons, List.all_eq_true.2 fun c hc => by rw [List.eq_of_mem_replicate hc]; rfl]
    rfl
  blank_afterColon := rfl

variable (l : Layout)

mutual

/-- A value whose brackets stand at a depth. -/
def render (depth : ℕ) : Value → List Char
  | .null => ['n', 'u', 'l', 'l']
  | .bool true => ['t', 'r', 'u', 'e']
  | .bool false => ['f', 'a', 'l', 's', 'e']
  | .number n => n.literal
  | .string s => quote s
  | .array [] => ['[', ']']
  | .array (v :: vs) => '[' :: (l.newline (depth + 1) ++ (render (depth + 1) v ++ renderElements depth vs))
  | .object [] => ['\x7b', '\x7d']
  | .object ((key, v) :: members) => '\x7b' :: (l.newline (depth + 1) ++ (quote key ++ ':' ::
      (l.afterColon ++ (render (depth + 1) v ++ renderMembers depth members))))

/-- The elements after the first, and the closing bracket. -/
def renderElements (depth : ℕ) : List Value → List Char
  | [] => l.newline depth ++ [']']
  | v :: vs => ',' :: (l.newline (depth + 1) ++ (render (depth + 1) v ++ renderElements depth vs))

/-- The members after the first, and the closing brace. -/
def renderMembers (depth : ℕ) : List (List Char × Value) → List Char
  | [] => l.newline depth ++ ['\x7d']
  | (key, v) :: members => ',' :: (l.newline (depth + 1) ++ (quote key ++ ':' ::
      (l.afterColon ++ (render (depth + 1) v ++ renderMembers depth members))))

end

/-! ## Reading -/

/-- Four hexadecimal digits. -/
def hex4 : List Char → Option (ℕ × List Char)
  | a :: b :: c :: d :: s => do
    let a ← Percent.hexValue a
    let b ← Percent.hexValue b
    let c ← Percent.hexValue c
    let d ← Percent.hexValue d
    some (((a * 16 + b) * 16 + c) * 16 + d, s)
  | _ => none

/-- What comes after `\u`: a character, or the first half of a surrogate pair, and then the second. -/
def readUnicode (s : List Char) : Option (Char × List Char) := do
  let (high, s) ← hex4 s
  if 0xd800 ≤ high ∧ high < 0xdc00 then
    match s with
    | '\\' :: 'u' :: s => do
      let (low, s) ← hex4 s
      if 0xdc00 ≤ low ∧ low < 0xe000 then
        some (Char.ofNat (0x10000 + (high - 0xd800) * 0x400 + (low - 0xdc00)), s)
      else none
    | _ => none
  else if 0xdc00 ≤ high ∧ high < 0xe000 then none
  else some (Char.ofNat high, s)

/-- What comes after a backslash. -/
def readEscape : List Char → Option (Char × List Char)
  | '\"' :: s => some ('\"', s)
  | '\\' :: s => some ('\\', s)
  | '/' :: s => some ('/', s)
  | 'b' :: s => some (Char.ofNat 8, s)
  | 'f' :: s => some (Char.ofNat 12, s)
  | 'n' :: s => some ('\n', s)
  | 'r' :: s => some ('\r', s)
  | 't' :: s => some ('\t', s)
  | 'u' :: s => readUnicode s
  | _ => none

/-- A string up to its closing quote, of at most so many characters. -/
def readString : ℕ → List Char → Option (List Char × List Char)
  | 0, _ => none
  | _ + 1, [] => none
  | fuel + 1, c :: s =>
    if c = '\"' then some ([], s)
    else if c = '\\' then do
      let (c, s) ← readEscape s
      let (t, s) ← readString fuel s
      some (c :: t, s)
    else if c.toNat < 32 then none
    else do
      let (t, s) ← readString fuel s
      some (c :: t, s)

def readNumber (s : List Char) : Option (Value × List Char) :=
  if h : isNumber (s.takeWhile isNumberChar) = true then
    some (.number ⟨s.takeWhile isNumberChar, h⟩, s.dropWhile isNumberChar)
  else none

/-- A value that has no parts. -/
def readAtom (s : List Char) : Option (Value × List Char) :=
  match s with
  | 'n' :: 'u' :: 'l' :: 'l' :: s => some (.null, s)
  | 't' :: 'r' :: 'u' :: 'e' :: s => some (.bool true, s)
  | 'f' :: 'a' :: 'l' :: 's' :: 'e' :: s => some (.bool false, s)
  | s => readNumber s

mutual

/-- A value, after blanks. The fuel is for the values in it. -/
def readValue : ℕ → List Char → Option (Value × List Char)
  | 0, _ => none
  | fuel + 1, s =>
    match s.dropWhile isBlank with
    | '\"' :: s => (readString fuel s).map fun read => (.string read.1, read.2)
    | '[' :: s =>
      match s.dropWhile isBlank with
      | ']' :: s => some (.array [], s)
      | s => (readElements fuel s).map fun read => (.array read.1, read.2)
    | '\x7b' :: s =>
      match s.dropWhile isBlank with
      | '\x7d' :: s => some (.object [], s)
      | s => (readMembers fuel s).map fun read => (.object read.1, read.2)
    | s => readAtom s

/-- One element at least, and the closing bracket. -/
def readElements : ℕ → List Char → Option (List Value × List Char)
  | 0, _ => none
  | fuel + 1, s => do
    let (v, s) ← readValue fuel s
    match s.dropWhile isBlank with
    | ',' :: s => (readElements fuel s).map fun read => (v :: read.1, read.2)
    | ']' :: s => some ([v], s)
    | _ => none

/-- One member at least, and the closing brace. -/
def readMembers : ℕ → List Char → Option (List (List Char × Value) × List Char)
  | 0, _ => none
  | fuel + 1, s =>
    match s.dropWhile isBlank with
    | '\"' :: s => do
      let (key, s) ← readString fuel s
      match s.dropWhile isBlank with
      | ':' :: s => do
        let (v, s) ← readValue fuel s
        match s.dropWhile isBlank with
        | ',' :: s => (readMembers fuel s).map fun read => ((key, v) :: read.1, read.2)
        | '\x7d' :: s => some ([(key, v)], s)
        | _ => none
      | _ => none
    | _ => none

end

/-- A text that is one value, with blanks around it. -/
def parse (s : List Char) : Option Value := do
  let (v, rest) ← readValue (s.length + 1) s
  if rest.all isBlank then some v else none

/-! ## Strings are read back -/

theorem hexValue_hexDigit {n : ℕ} (hn : n < 16) : Percent.hexValue (hexDigit n) = some n := by
  interval_cases n <;> decide

theorem hexValue_zero : Percent.hexValue '0' = some 0 := by decide

theorem readEscape_unicode {n : ℕ} (hn : n < 32) (rest : List Char) :
    readEscape ('u' :: '0' :: '0' :: hexDigit (n / 16) :: hexDigit (n % 16) :: rest) =
      some (Char.ofNat n, rest) := by
  have hhex : hex4 ('0' :: '0' :: hexDigit (n / 16) :: hexDigit (n % 16) :: rest) = some (n, rest) := by
    simp only [hex4, hexValue_zero, hexValue_hexDigit (by omega : n / 16 < 16),
      hexValue_hexDigit (by omega : n % 16 < 16), Option.bind_eq_bind, Option.bind_some, Option.some.injEq,
      Prod.mk.injEq, and_true]
    omega
  show readUnicode _ = _
  unfold readUnicode
  rw [hhex]
  show (if _ then _ else _) = _
  rw [if_neg (by omega), if_neg (by omega)]

/-- One character is read back, with what comes after it. -/
theorem readString_escapeChar (c : Char) (fuel : ℕ) (rest : List Char) :
    readString (fuel + 1) (escapeChar c ++ rest) =
      (readString fuel rest).map fun read => (c :: read.1, read.2) := by
  have hescape : ∀ d s t, readEscape (d :: s) = some (c, t) →
      readString (fuel + 1) ('\\' :: d :: s) =
        (readString fuel t).map fun read => (c :: read.1, read.2) := by
    intro d s t h
    simp only [readString, h, Option.bind_eq_bind, Option.bind_some]
    cases readString fuel t <;> rfl
  unfold escapeChar
  split_ifs with h₁ h₂ h₃ h₄ h₅ h₆ h₇ h₈
  · exact hescape _ _ _ (by rw [h₁]; rfl)
  · exact hescape _ _ _ (by rw [h₂]; rfl)
  · exact hescape _ _ _ (by rw [h₃]; rfl)
  · exact hescape _ _ _ (by rw [h₄]; rfl)
  · exact hescape _ _ _ (by rw [h₅]; rfl)
  · exact hescape _ _ _ (by rw [h₆]; rfl)
  · exact hescape _ _ _ (by rw [h₇]; rfl)
  · have hread := readEscape_unicode h₈ rest
    rw [Char.ofNat_toNat] at hread
    exact hescape _ _ _ hread
  · show readString (fuel + 1) (c :: rest) = _
    rw [readString, if_neg h₁, if_neg h₂, if_neg h₈]
    cases readString fuel rest <;> rfl

theorem escapeChar_ne_nil (c : Char) : escapeChar c ≠ [] := by
  unfold escapeChar
  split_ifs <;> exact List.cons_ne_nil _ _

theorem length_le_flatMap_escapeChar (s : List Char) : s.length ≤ (s.flatMap escapeChar).length := by
  induction s with
  | nil => exact le_rfl
  | cons c s ih =>
    have hpos := List.length_pos_iff.2 (escapeChar_ne_nil c)
    rw [List.flatMap_cons, List.length_append, List.length_cons]
    omega

theorem readString_flatMap (s rest : List Char) {fuel : ℕ} (h : s.length < fuel) :
    readString fuel (s.flatMap escapeChar ++ '\"' :: rest) = some (s, rest) := by
  induction s generalizing fuel with
  | nil =>
    obtain ⟨fuel, rfl⟩ := Nat.exists_eq_succ_of_ne_zero (Nat.ne_of_gt h)
    rw [List.flatMap_nil, List.nil_append, readString, if_pos rfl]
  | cons c s ih =>
    obtain ⟨fuel, rfl⟩ := Nat.exists_eq_succ_of_ne_zero (Nat.ne_of_gt (Nat.zero_lt_of_lt h))
    rw [List.flatMap_cons, List.append_assoc, readString_escapeChar, ih (Nat.lt_of_succ_lt_succ h)]
    rfl

/-! ## Values are read back -/

theorem dropWhile_blank {w : List Char} (hw : w.all isBlank = true) {c : Char} (hc : isBlank c = false)
    (s : List Char) : (w ++ c :: s).dropWhile isBlank = c :: s := by
  rw [List.dropWhile_append_of_pos (List.all_eq_true.1 hw), List.dropWhile_cons_of_neg (by simp [hc])]

/-- What comes after a value does not go on with a number. -/
def Ends (rest : List Char) : Prop := ∀ c ∈ rest.head?, isNumberChar c = false

theorem ends_cons {c : Char} (h : isNumberChar c = false) (s : List Char) : Ends (c :: s) := by
  intro d hd
  obtain rfl := Option.some.inj hd
  exact h

theorem ends_blank {w : List Char} (hw : w.all isBlank = true) {c : Char} (h : isNumberChar c = false)
    (s : List Char) : Ends (w ++ c :: s) := by
  cases w with
  | nil => exact ends_cons h s
  | cons d w =>
    rw [List.all_cons, Bool.and_eq_true] at hw
    refine ends_cons ?_ _
    have hmem := hw.1
    simp only [isBlank, List.mem_cons, List.not_mem_nil, or_false, decide_eq_true_eq] at hmem
    rcases hmem with rfl | rfl | rfl | rfl <;> decide

theorem isNumberChar_of_isDigit {c : Char} (h : c.isDigit = true) : isNumberChar c = true := by
  unfold isNumberChar
  rw [h, Bool.true_or]

theorem all_of_all_isDigit {s : List Char} (h : s.all Char.isDigit = true) : s.all isNumberChar = true :=
  List.all_eq_true.2 fun c hc => isNumberChar_of_isDigit (List.all_eq_true.1 h c hc)

theorem all_cons {c : Char} {s : List Char} (hc : isNumberChar c = true)
    (hs : s.all isNumberChar = true) : (c :: s).all isNumberChar = true := by
  rw [List.all_cons, hc, hs]
  rfl

theorem all_unsigned {s : List Char} (h : (unsigned s).all Char.isDigit = true) :
    s.all isNumberChar = true := by
  unfold unsigned at h
  split at h
  · exact all_cons rfl (all_of_all_isDigit h)
  · exact all_cons rfl (all_of_all_isDigit h)
  · exact all_of_all_isDigit h

theorem all_exponent {s : List Char} (h : exponent s = true) : s.all isNumberChar = true := by
  unfold exponent at h
  split at h
  · rfl
  · simp only [Bool.and_eq_true, Bool.or_eq_true, beq_iff_eq] at h
    refine all_cons ?_ (all_unsigned h.2)
    rcases h.1.1 with rfl | rfl <;> rfl

/-- Digits, and what is made of the characters of a number. -/
theorem all_of_dropWhile {s : List Char} (h : (s.dropWhile Char.isDigit).all isNumberChar = true) :
    s.all isNumberChar = true := by
  have htake : (s.takeWhile Char.isDigit).all isNumberChar = true :=
    all_of_all_isDigit (List.all_eq_true.2 fun c hc => List.mem_takeWhile_imp hc)
  rw [← List.takeWhile_append_dropWhile (p := Char.isDigit) (l := s), List.all_append, htake, h]
  rfl

theorem all_fraction {s : List Char} (h : fraction s = true) : s.all isNumberChar = true := by
  unfold fraction at h
  split at h
  · rw [Bool.and_eq_true] at h
    exact all_cons rfl (all_of_dropWhile (all_exponent h.2))
  · exact all_exponent h

theorem all_magnitude {s : List Char} (h : magnitude s = true) : s.all isNumberChar = true := by
  unfold magnitude at h
  split at h
  · exact all_cons rfl (all_fraction h)
  · rw [Bool.and_eq_true] at h
    exact all_cons (isNumberChar_of_isDigit h.1) (all_of_dropWhile (all_fraction h.2))
  · cases h

/-- All of a number is made of the characters that it is read by. -/
theorem all_isNumber {s : List Char} (h : isNumber s = true) : s.all isNumberChar = true := by
  unfold isNumber at h
  split at h
  · exact all_cons rfl (all_magnitude h)
  · exact all_magnitude h

theorem readNumber_literal (n : Number) {rest : List Char} (hrest : Ends rest) :
    readNumber (n.literal ++ rest) = some (.number n, rest) := by
  have hall := List.all_eq_true.1 (all_isNumber n.isNumber_literal)
  have htail : rest.takeWhile isNumberChar = [] ∧ rest.dropWhile isNumberChar = rest := by
    cases rest with
    | nil => exact ⟨rfl, rfl⟩
    | cons c rest =>
      have hc := hrest c rfl
      exact ⟨List.takeWhile_cons_of_neg (by simp [hc]), List.dropWhile_cons_of_neg (by simp [hc])⟩
  have htake : (n.literal ++ rest).takeWhile isNumberChar = n.literal := by
    rw [List.takeWhile_append_of_pos hall, htail.1, List.append_nil]
  have hdrop : (n.literal ++ rest).dropWhile isNumberChar = rest := by
    rw [List.dropWhile_append_of_pos hall, htail.2]
  unfold readNumber
  simp only [htake, hdrop, n.isNumber_literal, dite_true]

/-- A number begins with a character that no other value, and no bracket, begins with. -/
theorem exists_literal (n : Number) : ∃ c t, n.literal = c :: t ∧ isNumberChar c = true := by
  cases h : n.literal with
  | nil =>
    have hnot := n.isNumber_literal
    rw [h] at hnot
    cases hnot
  | cons c t =>
    have hall := all_isNumber n.isNumber_literal
    rw [h, List.all_cons, Bool.and_eq_true] at hall
    exact ⟨c, t, rfl, hall.1⟩

theorem readAtom_number (n : Number) {rest : List Char} (hrest : Ends rest) :
    readAtom (n.literal ++ rest) = some (.number n, rest) := by
  have hread := readNumber_literal n hrest
  obtain ⟨c, t, hct, hc⟩ := exists_literal n
  rw [hct, List.cons_append] at hread ⊢
  unfold readAtom
  split
  · rename_i heq
    obtain ⟨rfl, -⟩ := List.cons.inj heq
    cases hc
  · rename_i heq
    obtain ⟨rfl, -⟩ := List.cons.inj heq
    cases hc
  · rename_i heq
    obtain ⟨rfl, -⟩ := List.cons.inj heq
    cases hc
  · exact hread

/-- A value without parts is read, unless its text begins like one of another kind. -/
theorem readValue_atom {fuel : ℕ} {w : List Char} (hw : w.all isBlank = true) {c : Char} {s : List Char}
    (hblank : isBlank c = false) (hquote : c ≠ '\"') (hbracket : c ≠ '[') (hbrace : c ≠ '\x7b') :
    readValue (fuel + 1) (w ++ c :: s) = readAtom (c :: s) := by
  rw [readValue, dropWhile_blank hw hblank]
  split
  · rename_i heq
    exact absurd (List.cons.inj heq).1 hquote
  · rename_i heq
    exact absurd (List.cons.inj heq).1 hbracket
  · rename_i heq
    exact absurd (List.cons.inj heq).1 hbrace
  · rfl

/-- What the text of a value begins with. -/
theorem exists_render (depth : ℕ) (v : Value) :
    ∃ c t, render l depth v = c :: t ∧ isBlank c = false ∧ c ≠ ']' ∧ c ≠ '\x7d' := by
  cases v with
  | null => exact ⟨'n', _, rfl, by decide, by decide, by decide⟩
  | bool b => cases b <;> exact ⟨_, _, rfl, by decide, by decide, by decide⟩
  | number n =>
    obtain ⟨c, t, hct, hc⟩ := exists_literal n
    refine ⟨c, t, hct, ?_, ?_, ?_⟩
    · by_contra hblank
      rw [Bool.not_eq_false] at hblank
      simp only [isBlank, List.mem_cons, List.not_mem_nil, or_false, decide_eq_true_eq] at hblank
      rcases hblank with rfl | rfl | rfl | rfl <;> cases hc
    · rintro rfl
      cases hc
    · rintro rfl
      cases hc
  | string s => exact ⟨'\"', _, rfl, by decide, by decide, by decide⟩
  | array vs => cases vs <;> exact ⟨'[', _, by rw [render], by decide, by decide, by decide⟩
  | object members =>
    cases members with
    | nil => exact ⟨'\x7b', _, by rw [render], by decide, by decide, by decide⟩
    | cons member members =>
      obtain ⟨key, v⟩ := member
      exact ⟨'\x7b', _, by rw [render], by decide, by decide, by decide⟩

theorem length_quote (s : List Char) : s.length + 2 ≤ (quote s).length := by
  have h := length_le_flatMap_escapeChar s
  unfold quote
  rw [List.length_cons, List.length_append, List.length_singleton]
  omega

theorem readValue_string {fuel : ℕ} {w : List Char} (hw : w.all isBlank = true) (s rest : List Char)
    (h : (quote s).length < fuel + 1) :
    readValue (fuel + 1) (w ++ (quote s ++ rest)) = some (.string s, rest) := by
  have hlen := length_quote s
  have htext : quote s ++ rest = '\"' :: (s.flatMap escapeChar ++ '\"' :: rest) := by
    unfold quote
    simp
  rw [htext, readValue, dropWhile_blank hw (by decide)]
  show (readString fuel _).map _ = _
  rw [readString_flatMap s rest (by omega)]
  rfl

theorem readValue_number {fuel : ℕ} {w : List Char} (hw : w.all isBlank = true) (n : Number)
    {rest : List Char} (hrest : Ends rest) :
    readValue (fuel + 1) (w ++ (n.literal ++ rest)) = some (.number n, rest) := by
  have hread := readAtom_number n hrest
  obtain ⟨c, t, hct, hc⟩ := exists_literal n
  rw [hct, List.cons_append] at hread ⊢
  have hne : ∀ d, isNumberChar d = false → c ≠ d := by
    rintro d hd rfl
    rw [hc] at hd
    cases hd
  have hblank : isBlank c = false := by
    by_contra h
    rw [Bool.not_eq_false] at h
    simp only [isBlank, List.mem_cons, List.not_mem_nil, or_false, decide_eq_true_eq] at h
    rcases h with rfl | rfl | rfl | rfl <;> cases hc
  rw [readValue_atom hw hblank (hne _ (by decide)) (hne _ (by decide)) (hne _ (by decide)), hread]

/-- What comes after a value inside of brackets. -/
theorem ends_renderElements (depth : ℕ) (vs : List Value) (rest : List Char) :
    Ends (renderElements l depth vs ++ rest) := by
  cases vs with
  | nil =>
    rw [renderElements, List.append_assoc]
    exact ends_blank (l.blank_newline depth) (by decide) rest
  | cons v vs =>
    rw [renderElements]
    exact ends_cons (by decide) _

theorem ends_renderMembers (depth : ℕ) (members : List (List Char × Value)) (rest : List Char) :
    Ends (renderMembers l depth members ++ rest) := by
  cases members with
  | nil =>
    rw [renderMembers, List.append_assoc]
    exact ends_blank (l.blank_newline depth) (by decide) rest
  | cons member members =>
    obtain ⟨key, v⟩ := member
    rw [renderMembers]
    exact ends_cons (by decide) _

theorem length_renderElements_pos (depth : ℕ) (vs : List Value) :
    0 < (renderElements l depth vs).length := by
  cases vs with
  | nil =>
    rw [renderElements, List.length_append]
    exact Nat.succ_pos _
  | cons v vs =>
    rw [renderElements, List.length_cons]
    exact Nat.succ_pos _

/-! One step of a reader, where the text goes on as a writer goes on. -/

theorem readValue_array {fuel : ℕ} {w w' : List Char} (hw : w.all isBlank = true)
    (hw' : w'.all isBlank = true) {c : Char} (hblank : isBlank c = false) (hne : c ≠ ']') (s : List Char) :
    readValue (fuel + 1) (w ++ '[' :: (w' ++ c :: s)) =
      (readElements fuel (c :: s)).map fun read => (.array read.1, read.2) := by
  rw [readValue, dropWhile_blank hw (by decide)]
  simp only [dropWhile_blank hw' hblank]
  split
  · rename_i heq
    exact absurd (List.cons.inj heq).1 hne
  · rfl

theorem readValue_object {fuel : ℕ} {w w' : List Char} (hw : w.all isBlank = true)
    (hw' : w'.all isBlank = true) (s : List Char) :
    readValue (fuel + 1) (w ++ '\x7b' :: (w' ++ '\"' :: s)) =
      (readMembers fuel ('\"' :: s)).map fun read => (.object read.1, read.2) := by
  rw [readValue, dropWhile_blank hw (by decide)]
  simp only [dropWhile_blank hw' (by decide : isBlank '\"' = false)]
  split
  · rename_i heq
    exact absurd (List.cons.inj heq).1 (by decide)
  · rfl

theorem readElements_comma {fuel : ℕ} {s s' : List Char} {v : Value}
    (h : readValue fuel s = some (v, ',' :: s')) :
    readElements (fuel + 1) s = (readElements fuel s').map fun read => (v :: read.1, read.2) := by
  rw [readElements, h]
  rfl

theorem readElements_close {fuel : ℕ} {w s s' : List Char} {v : Value} (hw : w.all isBlank = true)
    (h : readValue fuel s = some (v, w ++ ']' :: s')) : readElements (fuel + 1) s = some ([v], s') := by
  rw [readElements, h]
  simp only [Option.bind_eq_bind, Option.bind_some, dropWhile_blank hw (by decide : isBlank ']' = false)]

/-- A member up to its value. -/
theorem readMembers_key {fuel : ℕ} {w key : List Char} (hw : w.all isBlank = true)
    (hfuel : key.length < fuel) (s : List Char) :
    readMembers (fuel + 1) (w ++ (quote key ++ ':' :: s)) = (readValue fuel s).bind fun read =>
      match read.2.dropWhile isBlank with
      | ',' :: s => (readMembers fuel s).map fun members => ((key, read.1) :: members.1, members.2)
      | '\x7d' :: s => some ([(key, read.1)], s)
      | _ => none := by
  have htext : quote key ++ ':' :: s = '\"' :: (key.flatMap escapeChar ++ '\"' :: (':' :: s)) := by
    unfold quote
    simp
  rw [htext, readMembers, dropWhile_blank hw (by decide)]
  show (readString fuel _).bind _ = _
  rw [readString_flatMap key _ hfuel]
  rfl

theorem readMembers_comma {fuel : ℕ} {w key : List Char} (hw : w.all isBlank = true)
    (hfuel : key.length < fuel) {s s' : List Char} {v : Value}
    (h : readValue fuel s = some (v, ',' :: s')) :
    readMembers (fuel + 1) (w ++ (quote key ++ ':' :: s)) =
      (readMembers fuel s').map fun members => ((key, v) :: members.1, members.2) := by
  rw [readMembers_key hw hfuel, h]
  rfl

theorem readMembers_close {fuel : ℕ} {w key : List Char} (hw : w.all isBlank = true)
    (hfuel : key.length < fuel) {w' s s' : List Char} {v : Value} (hw' : w'.all isBlank = true)
    (h : readValue fuel s = some (v, w' ++ '\x7d' :: s')) :
    readMembers (fuel + 1) (w ++ (quote key ++ ':' :: s)) = some ([(key, v)], s') := by
  rw [readMembers_key hw hfuel, h]
  simp only [Option.bind_some, dropWhile_blank hw' (by decide : isBlank '\x7d' = false)]

/-- Whatever blanks stand before it, a value whose text is shorter than the fuel is read back, and what comes
after it is left. -/
def ReadsValues (fuel : ℕ) : Prop :=
  ∀ (v : Value) (depth : ℕ) (w rest : List Char), w.all isBlank = true → Ends rest →
    (render l depth v).length < fuel →
      readValue fuel (w ++ (render l depth v ++ rest)) = some (v, rest)

def ReadsElements (fuel : ℕ) : Prop :=
  ∀ (v : Value) (vs : List Value) (depth : ℕ) (w rest : List Char), w.all isBlank = true →
    (render l (depth + 1) v).length + (renderElements l depth vs).length < fuel →
      readElements fuel (w ++ (render l (depth + 1) v ++ (renderElements l depth vs ++ rest))) =
        some (v :: vs, rest)

def ReadsMembers (fuel : ℕ) : Prop :=
  ∀ (key : List Char) (v : Value) (members : List (List Char × Value)) (depth : ℕ) (w rest : List Char),
    w.all isBlank = true →
    (quote key).length + (render l (depth + 1) v).length + (renderMembers l depth members).length < fuel →
      readMembers fuel (w ++ (quote key ++ ':' :: (l.afterColon ++ (render l (depth + 1) v ++
        (renderMembers l depth members ++ rest))))) = some ((key, v) :: members, rest)

variable {l} {fuel : ℕ}

theorem readsValues_succ (helements : ReadsElements l fuel) (hmembers : ReadsMembers l fuel) :
    ReadsValues l (fuel + 1) := by
  intro v depth w rest hw hrest h
  match v with
  | .null => exact readValue_atom hw (by decide) (by decide) (by decide) (by decide)
  | .bool true => exact readValue_atom hw (by decide) (by decide) (by decide) (by decide)
  | .bool false => exact readValue_atom hw (by decide) (by decide) (by decide) (by decide)
  | .number n => exact readValue_number hw n hrest
  | .string s => exact readValue_string hw s rest h
  | .array [] =>
    rw [render]
    show readValue (fuel + 1) (w ++ '[' :: ']' :: rest) = _
    rw [readValue, dropWhile_blank hw (by decide)]
    rfl
  | .array (v :: vs) =>
    obtain ⟨c, t, hct, hblank, hne, -⟩ := exists_render l (depth + 1) v
    rw [render, List.length_cons, List.length_append, List.length_append] at h
    have hread := helements v vs depth [] rest rfl (by omega)
    rw [hct, List.nil_append, List.cons_append] at hread
    rw [render, List.cons_append, List.append_assoc, List.append_assoc, hct, List.cons_append,
      readValue_array hw (l.blank_newline (depth + 1)) hblank hne, hread]
    rfl
  | .object [] =>
    rw [render]
    show readValue (fuel + 1) (w ++ '\x7b' :: '\x7d' :: rest) = _
    rw [readValue, dropWhile_blank hw (by decide)]
    rfl
  | .object ((key, v) :: members) =>
    rw [render, List.length_cons, List.length_append, List.length_append, List.length_cons,
      List.length_append, List.length_append] at h
    have hread := hmembers key v members depth [] rest rfl (by omega)
    rw [List.nil_append] at hread
    rw [render, List.cons_append, List.append_assoc, List.append_assoc, List.cons_append, List.append_assoc,
      List.append_assoc]
    show readValue (fuel + 1) (w ++ '\x7b' :: (l.newline (depth + 1) ++ '\"' :: _)) = _
    rw [readValue_object hw (l.blank_newline (depth + 1))]
    show (readMembers fuel (quote key ++ _)).map _ = _
    rw [hread]
    rfl

theorem readsElements_succ (hvalues : ReadsValues l fuel) (helements : ReadsElements l fuel) :
    ReadsElements l (fuel + 1) := by
  intro v vs depth w rest hw h
  have hpos := length_renderElements_pos l depth vs
  have hread := hvalues v (depth + 1) w _ hw (ends_renderElements l depth vs rest) (by omega)
  cases vs with
  | nil =>
    rw [renderElements, List.append_assoc] at hread ⊢
    exact readElements_close (l.blank_newline depth) hread
  | cons v' vs =>
    rw [renderElements, List.length_cons, List.length_append, List.length_append] at h
    rw [renderElements, List.cons_append, List.append_assoc, List.append_assoc] at hread ⊢
    rw [readElements_comma hread, helements v' vs depth _ rest (l.blank_newline (depth + 1)) (by omega)]
    rfl

theorem readsMembers_succ (hvalues : ReadsValues l fuel) (hmembers : ReadsMembers l fuel) :
    ReadsMembers l (fuel + 1) := by
  intro key v members depth w rest hw h
  have hkey := length_quote key
  have hread := hvalues v (depth + 1) _ _ l.blank_afterColon (ends_renderMembers l depth members rest)
    (by omega)
  match members with
  | [] =>
    rw [renderMembers, List.append_assoc] at hread ⊢
    exact readMembers_close hw (by omega) (l.blank_newline depth) hread
  | (key', v') :: members =>
    rw [renderMembers, List.length_cons, List.length_append, List.length_append, List.length_cons,
      List.length_append, List.length_append] at h
    rw [renderMembers, List.cons_append, List.append_assoc, List.append_assoc, List.cons_append,
      List.append_assoc, List.append_assoc] at hread ⊢
    rw [readMembers_comma hw (by omega) hread,
      hmembers key' v' members depth _ rest (l.blank_newline (depth + 1)) (by omega)]
    rfl

variable (l) in
theorem reads (fuel : ℕ) : ReadsValues l fuel ∧ ReadsElements l fuel ∧ ReadsMembers l fuel := by
  induction fuel with
  | zero =>
    refine ⟨fun v depth w rest _ _ h => ?_, fun v vs depth w rest _ h => ?_,
      fun key v members depth w rest _ h => ?_⟩
    · exact absurd h (Nat.not_lt_zero _)
    · exact absurd h (Nat.not_lt_zero _)
    · exact absurd h (Nat.not_lt_zero _)
  | succ fuel ih =>
    obtain ⟨hvalues, helements, hmembers⟩ := ih
    exact ⟨readsValues_succ helements hmembers, readsElements_succ hvalues helements,
      readsMembers_succ hvalues hmembers⟩

variable (l) in
/-- In whatever layout a value is written, it is read back. -/
theorem parse_render (v : Value) : parse (render l 0 v) = some v := by
  have hread := (reads l ((render l 0 v).length + 1)).1 v 0 [] [] rfl (fun c hc => by cases hc)
    (Nat.lt_succ_self _)
  rw [List.nil_append, List.append_nil] at hread
  unfold parse
  rw [hread]
  rfl

end Json
