import Mathlib.Data.Char
import Mathlib.Data.List.DropRight
import Taymna.Text.Base64

/-!
# The encoded command of PowerShell (`agent/src/platform/windows.rs`)

`run_powershell` hands a script over as the base64 of its UTF-16LE bytes.  The hand-written encoder
is base64 (`toList_base64`), and what PowerShell decodes from the command line is the script
(`decodeCommand_commandLine`).
-/

namespace Taymna.Agent.Windows

/-! ## UTF-16 -/

/-- The code units of one character (`encode_utf16`). -/
def encodeUtf16 (c : Char) : List UInt16 :=
  if c.toNat < 0x10000 then [UInt16.ofNat c.toNat]
  else
    let code := c.toNat - 0x10000
    [UInt16.ofNat (0xD800 + code / 0x400), UInt16.ofNat (0xDC00 + code % 0x400)]

/-- `u16::to_le_bytes`. -/
def toLeBytes (unit : UInt16) : List UInt8 := [unit.toUInt8, (unit >>> 8).toUInt8]

def utf16le (value : String) : List UInt8 :=
  (value.toList.flatMap encodeUtf16).flatMap toLeBytes

/-- The code units of little-endian bytes. -/
def unitsOf : List UInt8 → Option (List ℕ)
  | [] => some []
  | low :: high :: bytes => (unitsOf bytes).map ((low.toNat + 256 * high.toNat) :: ·)
  | [_] => none

/-- The text of code units; a surrogate by itself is no character. -/
def decodeUtf16 : List ℕ → Option (List Char)
  | [] => some []
  | unit :: units =>
      if unit < 0xD800 ∨ 0xE000 ≤ unit then (decodeUtf16 units).map (Char.ofNat unit :: ·)
      else
        match units with
        | [] => none
        | next :: units =>
            if unit < 0xDC00 ∧ 0xDC00 ≤ next ∧ next < 0xE000 then
              (decodeUtf16 units).map
                (Char.ofNat (0x10000 + (unit - 0xD800) * 0x400 + (next - 0xDC00)) :: ·)
            else none

/-! ## Base64 -/

/-- The alphabet of base64. -/
def alphabet : List Char :=
  "ABCDEFGHIJKLMNOPQRSTUVWXYZabcdefghijklmnopqrstuvwxyz0123456789+/".toList

/-- The three bytes of a chunk in one word, a missing one as zero. -/
def block (chunk : List UInt8) : UInt32 :=
  (chunk.getD 0 0).toUInt32 <<< 16 ||| (chunk.getD 1 0).toUInt32 <<< 8 |||
    (chunk.getD 2 0).toUInt32

theorem alphabet_eq : alphabet = Base64.alphabet := String.toList_ofList

theorem and_lt_alphabet (n : ℕ) : n &&& 0x3f < alphabet.length := by
  rw [alphabet_eq]
  exact Nat.lt_of_le_of_lt Nat.and_le_right (by decide)

def sextet (block : UInt32) (shift : UInt32) : Char :=
  alphabet.get ⟨(block >>> shift).toNat &&& 0x3f, and_lt_alphabet _⟩

/-- The four characters of a chunk. -/
def encodeChunk (chunk : List UInt8) : List Char :=
  [sextet (block chunk) 18, sextet (block chunk) 12,
    if chunk.length > 1 then sextet (block chunk) 6 else '=',
    if chunk.length > 2 then sextet (block chunk) 0 else '=']

/-- `bytes.chunks(3)`. -/
def chunks : List UInt8 → List (List UInt8)
  | [] => []
  | a :: b :: c :: bytes => [a, b, c] :: chunks bytes
  | bytes => [bytes]

/-- `base64`. -/
def base64 (bytes : List UInt8) : String := String.ofList ((chunks bytes).flatMap encodeChunk)

/-- The command line `run_powershell` spawns. -/
def commandLine (script : String) : String :=
  "C:\\Windows\\System32\\WindowsPowerShell\\v1.0\\powershell.exe" ++
    " -NoProfile -NonInteractive -WindowStyle Hidden -EncodedCommand " ++ base64 (utf16le script)

/-! ## The encoder is base64 -/

theorem toNat_block (chunk : List UInt8) :
    (block chunk).toNat = (chunk.getD 0 0).toNat * 65536 + (chunk.getD 1 0).toNat * 256 +
      (chunk.getD 2 0).toNat := by
  unfold block
  generalize chunk.getD 0 0 = a
  generalize chunk.getD 1 0 = b
  generalize chunk.getD 2 0 = c
  have ha := a.toNat_lt
  have hb := b.toNat_lt
  have hc := c.toNat_lt
  have hfirst : (a.toUInt32 <<< 16).toNat = a.toNat <<< 16 := by
    rw [UInt32.toNat_shiftLeft, UInt8.toNat_toUInt32]
    exact Nat.mod_eq_of_lt (by rw [Nat.shiftLeft_eq]; simp; omega)
  have hsecond : (b.toUInt32 <<< 8).toNat = b.toNat <<< 8 := by
    rw [UInt32.toNat_shiftLeft, UInt8.toNat_toUInt32]
    exact Nat.mod_eq_of_lt (by rw [Nat.shiftLeft_eq]; simp; omega)
  have hlow : b.toNat <<< 8 + c.toNat = b.toNat <<< 8 ||| c.toNat :=
    Nat.shiftLeft_add_eq_or_of_lt hc _
  have hall : a.toNat <<< 16 + (b.toNat <<< 8 + c.toNat) =
      a.toNat <<< 16 ||| (b.toNat <<< 8 + c.toNat) :=
    Nat.shiftLeft_add_eq_or_of_lt (by rw [Nat.shiftLeft_eq]; omega) _
  rw [UInt32.toNat_or, UInt32.toNat_or, hfirst, hsecond, UInt8.toNat_toUInt32, Nat.or_assoc, ← hlow,
    ← hall, Nat.shiftLeft_eq, Nat.shiftLeft_eq]
  omega

theorem sextet_eq_char (block shift : UInt32) (hshift : shift.toNat < 32) :
    sextet block shift = Base64.char (block.toNat / 2 ^ shift.toNat % 64) := by
  have hlt := and_lt_alphabet (block >>> shift).toNat
  have hindex : (block >>> shift).toNat &&& 0x3f = block.toNat / 2 ^ shift.toNat % 64 := by
    rw [UInt32.toNat_shiftRight, Nat.mod_eq_of_lt hshift, Nat.shiftRight_eq_div_pow]
    exact Nat.and_two_pow_sub_one_eq_mod _ 6
  rw [← hindex, sextet, List.get_eq_getElem, Base64.char, ← alphabet_eq,
    List.getD_eq_getElem?_getD]
  exact (congrArg (fun o => Option.getD o '=') (List.getElem?_eq_getElem hlt)).symm

/-- The four characters of a chunk, by its value. -/
theorem encodeChunk_eq {chunk : List UInt8} {n : ℕ} (hn : (block chunk).toNat = n) :
    encodeChunk chunk =
      [Base64.char (n / 262144 % 64), Base64.char (n / 4096 % 64),
        if chunk.length > 1 then Base64.char (n / 64 % 64) else '=',
        if chunk.length > 2 then Base64.char (n % 64) else '='] := by
  have h18 : sextet (block chunk) 18 = Base64.char (n / 262144 % 64) := by
    rw [sextet_eq_char _ _ (by decide), hn]
    rfl
  have h12 : sextet (block chunk) 12 = Base64.char (n / 4096 % 64) := by
    rw [sextet_eq_char _ _ (by decide), hn]
    rfl
  have h6 : sextet (block chunk) 6 = Base64.char (n / 64 % 64) := by
    rw [sextet_eq_char _ _ (by decide), hn]
    rfl
  have h0 : sextet (block chunk) 0 = Base64.char (n % 64) := by
    rw [sextet_eq_char _ _ (by decide), hn]
    show Base64.char (n / 1 % 64) = _
    rw [Nat.div_one]
  rw [encodeChunk, h18, h12, h6, h0]

/-- The hand-written encoder is base64. -/
theorem flatMap_encodeChunk (bytes : List UInt8) :
    (chunks bytes).flatMap encodeChunk = Base64.encode bytes := by
  induction bytes using Base64.triples_induction with
  | nil => rfl
  | one a =>
    have ha := a.toNat_lt
    have hblock : (block [a]).toNat = a.toNat * 65536 := by rw [toNat_block]; simp
    have h18 : a.toNat * 65536 / 262144 % 64 = a.toNat / 4 := by omega
    have h12 : a.toNat * 65536 / 4096 % 64 = a.toNat % 4 * 16 := by omega
    have hchunks : chunks [a] = [[a]] := rfl
    rw [Base64.encode_one, hchunks, List.flatMap_singleton, encodeChunk_eq hblock, h18, h12]
    rfl
  | two a b =>
    have ha := a.toNat_lt
    have hb := b.toNat_lt
    have hblock : (block [a, b]).toNat = a.toNat * 65536 + b.toNat * 256 := by
      rw [toNat_block]; simp
    have h18 : (a.toNat * 65536 + b.toNat * 256) / 262144 % 64 = a.toNat / 4 := by omega
    have h12 : (a.toNat * 65536 + b.toNat * 256) / 4096 % 64 =
        a.toNat % 4 * 16 + b.toNat / 16 := by omega
    have h6 : (a.toNat * 65536 + b.toNat * 256) / 64 % 64 = b.toNat % 16 * 4 := by omega
    have hchunks : chunks [a, b] = [[a, b]] := rfl
    rw [Base64.encode_two, hchunks, List.flatMap_singleton, encodeChunk_eq hblock, h18, h12, h6]
    rfl
  | cons a b c bytes ih =>
    have ha := a.toNat_lt
    have hb := b.toNat_lt
    have hc := c.toNat_lt
    have hblock : (block [a, b, c]).toNat = a.toNat * 65536 + b.toNat * 256 + c.toNat :=
      toNat_block [a, b, c]
    have h18 : (a.toNat * 65536 + b.toNat * 256 + c.toNat) / 262144 % 64 = a.toNat / 4 := by omega
    have h12 : (a.toNat * 65536 + b.toNat * 256 + c.toNat) / 4096 % 64 =
        a.toNat % 4 * 16 + b.toNat / 16 := by omega
    have h6 : (a.toNat * 65536 + b.toNat * 256 + c.toNat) / 64 % 64 =
        b.toNat % 16 * 4 + c.toNat / 64 := by omega
    have h0 : (a.toNat * 65536 + b.toNat * 256 + c.toNat) % 64 = c.toNat % 64 := by omega
    rw [Base64.encode_cons, chunks, List.flatMap_cons, encodeChunk_eq hblock, h18, h12, h6, h0, ih]
    rfl

theorem toList_base64 (bytes : List UInt8) : (base64 bytes).toList = Base64.encode bytes := by
  rw [base64, String.toList_ofList, flatMap_encodeChunk]

/-- The encoder is the one of RFC 4648: the alphabet's characters and at most two `=`, four
characters for every three bytes begun, and a decoder finds the bytes again. -/
theorem base64_roundTrip :
    (∀ bytes : List UInt8,
      (base64 bytes).toList = Base64.encode bytes ∧
      (∃ s pad, (base64 bytes).toList = s ++ List.replicate pad '=' ∧ pad ≤ 2 ∧
        ∀ c ∈ s, c ∈ Base64.alphabet) ∧
      (base64 bytes).length = 4 * ((bytes.length + 2) / 3) ∧
      Base64.decode (base64 bytes).toList = some bytes) ∧
    ∀ value, Base64.decode (base64 (utf16le value)).toList = some (utf16le value) := by
  refine ⟨fun bytes => ⟨toList_base64 bytes, ?_, ?_, ?_⟩, fun value => ?_⟩
  · obtain ⟨s, hs, hmem⟩ := Base64.encode_eq_append bytes
    exact ⟨s, _, (toList_base64 bytes).trans hs, by omega, hmem⟩
  · rw [← String.length_toList, toList_base64, Base64.length_encode]
  · rw [toList_base64, Base64.decode_encode]
  · rw [toList_base64, Base64.decode_encode]

/-! ## What PowerShell decodes -/

theorem toNat_ofNat_unit {n : ℕ} (h : n < 65536) : (UInt16.ofNat n).toNat = n :=
  UInt16.toNat_ofNat_of_lt' h

theorem unitsOf_toLeBytes (units : List UInt16) :
    unitsOf (units.flatMap toLeBytes) = some (units.map UInt16.toNat) := by
  induction units with
  | nil => rfl
  | cons unit units ih =>
    have hunit := unit.toNat_lt
    have hlow : unit.toUInt8.toNat = unit.toNat % 256 := UInt16.toNat_toUInt8 unit
    have hhigh : (unit >>> 8).toUInt8.toNat = unit.toNat / 256 := by
      rw [UInt16.toNat_toUInt8, UInt16.toNat_shiftRight]
      show unit.toNat >>> 8 % 256 = _
      rw [Nat.shiftRight_eq_div_pow]
      omega
    have hjoin : unit.toNat % 256 + 256 * (unit.toNat / 256) = unit.toNat := by omega
    rw [List.flatMap_cons]
    show (unitsOf (units.flatMap toLeBytes)).map _ = _
    rw [ih, hlow, hhigh, hjoin]
    rfl

theorem decodeUtf16_plain {unit : ℕ} (h : unit < 0xD800 ∨ 0xE000 ≤ unit) (units : List ℕ) :
    decodeUtf16 (unit :: units) = (decodeUtf16 units).map (Char.ofNat unit :: ·) := by
  rw [decodeUtf16.eq_def]
  exact if_pos h

theorem decodeUtf16_pair {high low : ℕ} (hhigh : 0xD800 ≤ high ∧ high < 0xDC00)
    (hlow : 0xDC00 ≤ low ∧ low < 0xE000) (units : List ℕ) :
    decodeUtf16 (high :: low :: units) = (decodeUtf16 units).map
      (Char.ofNat (0x10000 + (high - 0xD800) * 0x400 + (low - 0xDC00)) :: ·) := by
  have hsurrogate : ¬ (high < 0xD800 ∨ 0xE000 ≤ high) := by omega
  rw [decodeUtf16.eq_def]
  exact (if_neg hsurrogate).trans (if_pos ⟨hhigh.2, hlow⟩)

theorem decodeUtf16_encodeUtf16 (c : Char) (units : List ℕ) :
    decodeUtf16 ((encodeUtf16 c).map UInt16.toNat ++ units) =
      (decodeUtf16 units).map (c :: ·) := by
  have hvalid : c.toNat < 0xD800 ∨ 0xDFFF < c.toNat ∧ c.toNat < 0x110000 := c.valid
  unfold encodeUtf16
  split_ifs with hsmall
  · have hplain : c.toNat < 0xD800 ∨ 0xE000 ≤ c.toNat := by omega
    rw [List.map_singleton, toNat_ofNat_unit hsmall, List.singleton_append,
      decodeUtf16_plain hplain, Char.ofNat_toNat]
  · have hhigh : 0xD800 ≤ 0xD800 + (c.toNat - 0x10000) / 0x400 ∧
        0xD800 + (c.toNat - 0x10000) / 0x400 < 0xDC00 := by omega
    have hlow : 0xDC00 ≤ 0xDC00 + (c.toNat - 0x10000) % 0x400 ∧
        0xDC00 + (c.toNat - 0x10000) % 0x400 < 0xE000 := by omega
    have hjoin : 0x10000 + (0xD800 + (c.toNat - 0x10000) / 0x400 - 0xD800) * 0x400 +
        (0xDC00 + (c.toNat - 0x10000) % 0x400 - 0xDC00) = c.toNat := by omega
    rw [List.map_cons, List.map_singleton, toNat_ofNat_unit (by omega),
      toNat_ofNat_unit (by omega), List.cons_append, List.singleton_append,
      decodeUtf16_pair hhigh hlow, hjoin, Char.ofNat_toNat]

theorem decodeUtf16_flatMap (s : List Char) :
    decodeUtf16 ((s.flatMap encodeUtf16).map UInt16.toNat) = some s := by
  induction s with
  | nil => rfl
  | cons c s ih => rw [List.flatMap_cons, List.map_append, decodeUtf16_encodeUtf16, ih]; rfl

/-- The script an encoded command stands for. -/
def decodeCommand (command : String) : Option (List Char) := do
  let bytes ← Base64.decode command.toList
  let units ← unitsOf bytes
  decodeUtf16 units

/-- PowerShell runs the script it was given. -/
theorem decodeCommand_base64 (script : String) :
    decodeCommand (base64 (utf16le script)) = some script.toList := by
  rw [decodeCommand, toList_base64, Base64.decode_encode]
  show (unitsOf (utf16le script)).bind decodeUtf16 = _
  rw [utf16le, unitsOf_toLeBytes]
  exact decodeUtf16_flatMap script.toList

/-! ## The command line -/

/-- The last argument of a command line without quotes. -/
def lastArgument (line : List Char) : List Char := line.rtakeWhile fun c => c ≠ ' '

theorem lastArgument_append (line : List Char) {argument : List Char} (h : ' ' ∉ argument) :
    lastArgument (line ++ ' ' :: argument) = argument := by
  have hall : ∀ c ∈ argument.reverse, decide (c ≠ ' ') = true := fun c hc =>
    decide_eq_true fun hblank => h (hblank ▸ List.mem_reverse.1 hc)
  rw [lastArgument, List.rtakeWhile, List.reverse_append, List.reverse_cons, List.append_assoc,
    List.takeWhile_append_of_pos hall]
  simp

theorem notMem_base64 {c : Char} (halphabet : c ∉ Base64.alphabet) (hpad : c ≠ '=')
    (bytes : List UInt8) : c ∉ (base64 bytes).toList := by
  obtain ⟨s, hs, hmem⟩ := Base64.encode_eq_append bytes
  rw [toList_base64, hs, List.mem_append]
  rintro (h | h)
  · exact halphabet (hmem c h)
  · exact hpad (List.eq_of_mem_replicate h)

/-- Whatever the script is, it takes no part in the quoting of the command line: the last argument
is its encoding, and PowerShell runs the script it was given. -/
theorem decodeCommand_commandLine (script : String) :
    decodeCommand (String.ofList (lastArgument (commandLine script).toList)) =
      some script.toList := by
  have hblank : ' ' ∉ (base64 (utf16le script)).toList :=
    notMem_base64 (by decide) (by decide) (utf16le script)
  have hoptions : " -NoProfile -NonInteractive -WindowStyle Hidden -EncodedCommand " =
      " -NoProfile -NonInteractive -WindowStyle Hidden -EncodedCommand" ++ " " := by simp
  have hend : " ".toList = [' '] := by decide
  have hlast : lastArgument (commandLine script).toList = (base64 (utf16le script)).toList := by
    unfold commandLine
    rw [hoptions, ← String.append_assoc, String.toList_append, String.toList_append, hend,
      List.append_assoc]
    exact lastArgument_append _ hblank
  rw [hlast, String.ofList_toList, decodeCommand_base64]

end Taymna.Agent.Windows
