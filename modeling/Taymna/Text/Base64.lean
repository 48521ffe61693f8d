import Mathlib.Data.List.Basic
import Mathlib.Algebra.Order.Group.Nat
import Mathlib.Tactic.Ring
import Mathlib.Tactic.Linarith

/-!
# Base64 (RFC 4648, section 4)

`encode` is the definition by bits: the bits of the bytes, most significant first, regrouped by
six, each group one character of the alphabet, and `=` up to a multiple of four characters.
`decode` is the strict decoder.  Both are computed on groups of three bytes (`encode_cons`,
`encode_one`, `encode_two`), from which `decode_encode` follows.
-/

namespace Base64

/-! ## Bits -/

/-- The last `w` binary digits of a number, most significant first. -/
def bits : ℕ → ℕ → List Bool
  | 0, _ => []
  | w + 1, n => n.testBit w :: bits w n

/-- The number of a list of binary digits, most significant first. -/
def ofBits (l : List Bool) : ℕ := l.foldl (fun n b => 2 * n + b.toNat) 0

@[simp] theorem length_bits (w n : ℕ) : (bits w n).length = w := by
  induction w with
  | zero => rfl
  | succ w ih => rw [bits, List.length_cons, ih]

theorem bits_add (v w n : ℕ) : bits (v + w) n = bits v (n / 2 ^ w) ++ bits w n := by
  induction v with
  | zero => rw [Nat.zero_add]; rfl
  | succ v ih =>
    rw [Nat.succ_add, bits, ih, bits, Nat.testBit_div_two_pow, Nat.add_comm v w]
    rfl

theorem foldl_bits (l : List Bool) (m : ℕ) :
    l.foldl (fun n b => 2 * n + b.toNat) m = m * 2 ^ l.length + ofBits l := by
  induction l generalizing m with
  | nil => simp [ofBits]
  | cons b l ih =>
    have htail : ofBits (b :: l) = (2 * 0 + b.toNat) * 2 ^ l.length + ofBits l := ih _
    rw [List.foldl_cons, ih, htail, List.length_cons, Nat.pow_succ]
    ring

theorem ofBits_append (k l : List Bool) :
    ofBits (k ++ l) = ofBits k * 2 ^ l.length + ofBits l := by
  rw [ofBits, List.foldl_append, foldl_bits]
  rfl

theorem ofBits_bits (w n : ℕ) : ofBits (bits w n) = n % 2 ^ w := by
  induction w with
  | zero => rw [Nat.pow_zero, Nat.mod_one]; rfl
  | succ w ih =>
    rw [bits, ← List.singleton_append, ofBits_append, ih, length_bits, Nat.mod_pow_succ,
      Nat.testBit_eq_decide_div_mod_eq]
    rcases Nat.mod_two_eq_zero_or_one (n / 2 ^ w) with h | h <;> simp [h, ofBits, Nat.add_comm]

theorem ofBits_replicate_false (k : ℕ) : ofBits (List.replicate k false) = 0 := by
  induction k with
  | zero => rfl
  | succ k ih =>
    rw [List.replicate_succ, ← List.singleton_append, ofBits_append, ih]
    simp [ofBits]

/-! ## Groups of six bits -/

/-- The values of the consecutive groups of six bits, the last one filled up with zeros. -/
def sextets : List Bool → List ℕ
  | b₀ :: b₁ :: b₂ :: b₃ :: b₄ :: b₅ :: l => ofBits [b₀, b₁, b₂, b₃, b₄, b₅] :: sextets l
  | [] => []
  | l => [ofBits (l ++ List.replicate (6 - l.length) false)]

theorem sextets_append {k : List Bool} (hk : k.length = 6) (l : List Bool) :
    sextets (k ++ l) = ofBits k :: sextets l := by
  match k, hk with
  | [_, _, _, _, _, _], _ => rfl

theorem sextets_short {l : List Bool} (hpos : 0 < l.length) (hlt : l.length < 6) :
    sextets l = [ofBits l * 2 ^ (6 - l.length)] := by
  have hfill : ofBits (l ++ List.replicate (6 - l.length) false) =
      ofBits l * 2 ^ (6 - l.length) := by
    rw [ofBits_append, ofBits_replicate_false, List.length_replicate, Nat.add_zero]
  rw [← hfill]
  match l, hpos, hlt with
  | [_], _, _ => rfl
  | [_, _], _, _ => rfl
  | [_, _, _], _, _ => rfl
  | [_, _, _, _], _, _ => rfl
  | [_, _, _, _, _], _, _ => rfl

/-- Three bytes are four groups. -/
theorem sextets_three (a b c : UInt8) (l : List Bool) :
    sextets (bits 8 a.toNat ++ (bits 8 b.toNat ++ (bits 8 c.toNat ++ l))) =
      a.toNat / 4 :: (a.toNat % 4 * 16 + b.toNat / 16) :: (b.toNat % 16 * 4 + c.toNat / 64) ::
        c.toNat % 64 :: sextets l := by
  have ha := a.toNat_lt
  have hb := b.toNat_lt
  have hc := c.toNat_lt
  have hsplit : bits 8 a.toNat ++ (bits 8 b.toNat ++ (bits 8 c.toNat ++ l)) =
      bits 6 (a.toNat / 2 ^ 2) ++ ((bits 2 a.toNat ++ bits 4 (b.toNat / 2 ^ 4)) ++
        ((bits 4 b.toNat ++ bits 2 (c.toNat / 2 ^ 6)) ++ (bits 6 c.toNat ++ l))) := by
    rw [bits_add 6 2, bits_add 4 4, bits_add 2 6]
    simp only [List.append_assoc]
  rw [hsplit, sextets_append (by simp), sextets_append (by simp), sextets_append (by simp),
    sextets_append (by simp)]
  simp only [ofBits_append, ofBits_bits, length_bits]
  congr 1
  · omega
  · congr 1
    · omega
    · congr 1
      omega

theorem sextets_two (a b : UInt8) :
    sextets (bits 8 a.toNat ++ bits 8 b.toNat) =
      [a.toNat / 4, a.toNat % 4 * 16 + b.toNat / 16, b.toNat % 16 * 4] := by
  have ha := a.toNat_lt
  have hb := b.toNat_lt
  have hsplit : bits 8 a.toNat ++ bits 8 b.toNat =
      bits 6 (a.toNat / 2 ^ 2) ++ ((bits 2 a.toNat ++ bits 4 (b.toNat / 2 ^ 4)) ++
        bits 4 b.toNat) := by
    rw [bits_add 6 2, bits_add 4 4]
    simp only [List.append_assoc]
  rw [hsplit, sextets_append (by simp), sextets_append (by simp), sextets_short (by simp) (by simp)]
  simp only [ofBits_append, ofBits_bits, length_bits]
  congr 1
  · omega
  · congr 1
    omega

theorem sextets_one (a : UInt8) :
    sextets (bits 8 a.toNat) = [a.toNat / 4, a.toNat % 4 * 16] := by
  have ha := a.toNat_lt
  rw [bits_add 6 2, sextets_append (by simp), sextets_short (by simp) (by simp)]
  simp only [ofBits_bits, length_bits]
  congr 1
  omega

/-! ## The alphabet -/

/-- The characters of the values 0 to 63. -/
def alphabet : List Char :=
  ['A', 'B', 'C', 'D', 'E', 'F', 'G', 'H', 'I', 'J', 'K', 'L', 'M',
    'N', 'O', 'P', 'Q', 'R', 'S', 'T', 'U', 'V', 'W', 'X', 'Y', 'Z',
    'a', 'b', 'c', 'd', 'e', 'f', 'g', 'h', 'i', 'j', 'k', 'l', 'm',
    'n', 'o', 'p', 'q', 'r', 's', 't', 'u', 'v', 'w', 'x', 'y', 'z',
    '0', '1', '2', '3', '4', '5', '6', '7', '8', '9', '+', '/']

theorem pad_notMem_alphabet : '=' ∉ alphabet := by decide

/-- The character of a value below 64. -/
def char (n : ℕ) : Char := alphabet.getD n '='

/-- The value of a character. -/
def value (c : Char) : Option ℕ := alphabet.idxOf? c

theorem char_mem {n : ℕ} (hn : n < 64) : char n ∈ alphabet := by
  have hlt : n < alphabet.length := hn
  rw [char, List.getD_eq_getElem?_getD, List.getElem?_eq_getElem hlt, Option.getD_some]
  exact List.getElem_mem hlt

theorem char_ne_pad {n : ℕ} (hn : n < 64) : char n ≠ '=' :=
  fun h => pad_notMem_alphabet (h ▸ char_mem hn)

theorem value_char {n : ℕ} (hn : n < 64) : value (char n) = some n := by
  have h : ∀ n : Fin 64, value (char n) = some n.1 := by decide
  exact h ⟨n, hn⟩

/-! ## Encoding -/

/-- The base64 encoding of a byte string. -/
def encode (l : List UInt8) : List Char :=
  (sextets (l.flatMap fun a => bits 8 a.toNat)).map char ++
    List.replicate ((3 - l.length % 3) % 3) '='

theorem encode_cons (a b c : UInt8) (l : List UInt8) :
    encode (a :: b :: c :: l) =
      char (a.toNat / 4) :: char (a.toNat % 4 * 16 + b.toNat / 16) ::
        char (b.toNat % 16 * 4 + c.toNat / 64) :: char (c.toNat % 64) :: encode l := by
  have hpad : (3 - (l.length + 1 + 1 + 1) % 3) % 3 = (3 - l.length % 3) % 3 := by omega
  simp only [encode, List.flatMap_cons, sextets_three, List.map_cons, List.cons_append,
    List.length_cons, hpad]

theorem encode_two (a b : UInt8) :
    encode [a, b] =
      [char (a.toNat / 4), char (a.toNat % 4 * 16 + b.toNat / 16), char (b.toNat % 16 * 4),
        '='] := by
  simp only [encode, List.flatMap_cons, List.flatMap_nil, List.append_nil, sextets_two]
  rfl

theorem encode_one (a : UInt8) :
    encode [a] = [char (a.toNat / 4), char (a.toNat % 4 * 16), '=', '='] := by
  simp only [encode, List.flatMap_cons, List.flatMap_nil, List.append_nil, sextets_one]
  rfl

/-- Along the groups of three bytes. -/
@[elab_as_elim]
theorem triples_induction {motive : List UInt8 → Prop} (nil : motive []) (one : ∀ a, motive [a])
    (two : ∀ a b, motive [a, b]) (cons : ∀ a b c l, motive l → motive (a :: b :: c :: l)) :
    ∀ l, motive l
  | [] => nil
  | [a] => one a
  | [a, b] => two a b
  | a :: b :: c :: l => cons a b c l (triples_induction nil one two cons l)

/-- Four characters for every three bytes begun. -/
theorem length_encode (l : List UInt8) : (encode l).length = 4 * ((l.length + 2) / 3) := by
  induction l using triples_induction with
  | nil => rfl
  | one a => simp [encode_one]
  | two a b => simp [encode_two]
  | cons a b c l ih =>
    simp only [encode_cons, List.length_cons, ih]
    omega

/-- The alphabet's characters, and the padding behind them. -/
theorem encode_eq_append (l : List UInt8) :
    ∃ s, encode l = s ++ List.replicate ((3 - l.length % 3) % 3) '=' ∧ ∀ c ∈ s, c ∈ alphabet := by
  induction l using triples_induction with
  | nil => exact ⟨[], rfl, by simp⟩
  | one a =>
    have ha := a.toNat_lt
    refine ⟨[char (a.toNat / 4), char (a.toNat % 4 * 16)], encode_one a, ?_⟩
    simp only [List.mem_cons, List.not_mem_nil, or_false]
    rintro c (rfl | rfl) <;> exact char_mem (by omega)
  | two a b =>
    have ha := a.toNat_lt
    have hb := b.toNat_lt
    refine ⟨[char (a.toNat / 4), char (a.toNat % 4 * 16 + b.toNat / 16),
      char (b.toNat % 16 * 4)], encode_two a b, ?_⟩
    simp only [List.mem_cons, List.not_mem_nil, or_false]
    rintro c (rfl | rfl | rfl) <;> exact char_mem (by omega)
  | cons a b c l ih =>
    have ha := a.toNat_lt
    have hb := b.toNat_lt
    have hc := c.toNat_lt
    obtain ⟨s, hs, hmem⟩ := ih
    have hpad : (3 - (l.length + 1 + 1 + 1) % 3) % 3 = (3 - l.length % 3) % 3 := by omega
    refine ⟨char (a.toNat / 4) :: char (a.toNat % 4 * 16 + b.toNat / 16) ::
      char (b.toNat % 16 * 4 + c.toNat / 64) :: char (c.toNat % 64) :: s, ?_, ?_⟩
    · rw [encode_cons, hs, List.length_cons, List.length_cons, List.length_cons, hpad]
      rfl
    · simp only [List.mem_cons]
      rintro d (rfl | rfl | rfl | rfl | hd)
      · exact char_mem (by omega)
      · exact char_mem (by omega)
      · exact char_mem (by omega)
      · exact char_mem (by omega)
      · exact hmem d hd

/-! ## Decoding -/

/-- The bytes of four characters.  `=` stands at the end only, and the bits it leaves unused are
zero. -/
def decode : List Char → Option (List UInt8)
  | [] => some []
  | [c, d, '=', '='] => do
      let x ← value c
      let y ← value d
      if y % 16 = 0 then some [UInt8.ofNat (x * 4 + y / 16)] else none
  | [c, d, e, '='] => do
      let x ← value c
      let y ← value d
      let z ← value e
      if z % 4 = 0 then
        some [UInt8.ofNat (x * 4 + y / 16), UInt8.ofNat (y % 16 * 16 + z / 4)]
      else none
  | c :: d :: e :: f :: l => do
      let x ← value c
      let y ← value d
      let z ← value e
      let w ← value f
      let bytes ← decode l
      some (UInt8.ofNat (x * 4 + y / 16) :: UInt8.ofNat (y % 16 * 16 + z / 4) ::
        UInt8.ofNat (z % 4 * 64 + w) :: bytes)
  | _ => none

theorem ofNat_eq {n : ℕ} {a : UInt8} (h : n = a.toNat) : UInt8.ofNat n = a := by
  rw [h, UInt8.ofNat_toNat]

theorem decode_one {x y : ℕ} (hx : x < 64) (hy : y < 64) (hzero : y % 16 = 0) :
    decode [char x, char y, '=', '='] = some [UInt8.ofNat (x * 4 + y / 16)] := by
  simp [decode, value_char hx, value_char hy, hzero]

theorem decode_two {x y z : ℕ} (hx : x < 64) (hy : y < 64) (hz : z < 64) (hzero : z % 4 = 0) :
    decode [char x, char y, char z, '='] =
      some [UInt8.ofNat (x * 4 + y / 16), UInt8.ofNat (y % 16 * 16 + z / 4)] := by
  rw [decode]
  · simp [value_char hx, value_char hy, value_char hz, hzero]
  · exact char_ne_pad hz

theorem decode_cons {x y z w : ℕ} (hx : x < 64) (hy : y < 64) (hz : z < 64) (hw : w < 64)
    (l : List Char) :
    decode (char x :: char y :: char z :: char w :: l) =
      (decode l).map fun bytes => UInt8.ofNat (x * 4 + y / 16) ::
        UInt8.ofNat (y % 16 * 16 + z / 4) :: UInt8.ofNat (z % 4 * 64 + w) :: bytes := by
  rw [decode]
  · simp only [value_char hx, value_char hy, value_char hz, value_char hw, Option.bind_eq_bind,
      Option.bind_some]
    cases decode l <;> rfl
  · intro h _
    exact absurd h (char_ne_pad hz)
  · intro h _
    exact absurd h (char_ne_pad hw)

/-- Decoding an encoding gives the bytes back. -/
theorem decode_encode (l : List UInt8) : decode (encode l) = some l := by
  induction l using triples_induction with
  | nil => rfl
  | one a =>
    have ha := a.toNat_lt
    have hbyte : a.toNat / 4 * 4 + a.toNat % 4 * 16 / 16 = a.toNat := by omega
    rw [encode_one, decode_one (by omega) (by omega) (by omega), ofNat_eq hbyte]
  | two a b =>
    have ha := a.toNat_lt
    have hb := b.toNat_lt
    have hfirst : a.toNat / 4 * 4 + (a.toNat % 4 * 16 + b.toNat / 16) / 16 = a.toNat := by omega
    have hsecond : (a.toNat % 4 * 16 + b.toNat / 16) % 16 * 16 + b.toNat % 16 * 4 / 4 =
        b.toNat := by omega
    rw [encode_two, decode_two (by omega) (by omega) (by omega) (by omega), ofNat_eq hfirst,
      ofNat_eq hsecond]
  | cons a b c l ih =>
    have ha := a.toNat_lt
    have hb := b.toNat_lt
    have hc := c.toNat_lt
    have hfirst : a.toNat / 4 * 4 + (a.toNat % 4 * 16 + b.toNat / 16) / 16 = a.toNat := by omega
    have hsecond : (a.toNat % 4 * 16 + b.toNat / 16) % 16 * 16 +
        (b.toNat % 16 * 4 + c.toNat / 64) / 4 = b.toNat := by omega
    have hthird : (b.toNat % 16 * 4 + c.toNat / 64) % 4 * 64 + c.toNat % 64 = c.toNat := by omega
    rw [encode_cons, decode_cons (by omega) (by omega) (by omega) (by omega), ih,
      ofNat_eq hfirst, ofNat_eq hsecond, ofNat_eq hthird]
    rfl

end Base64
