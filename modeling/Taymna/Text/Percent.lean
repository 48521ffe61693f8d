import Mathlib.Data.List.TakeWhile
import Mathlib.Tactic.IntervalCases

/-!
# Percent-encoding and query strings

`encode` writes the UTF-8 bytes of every character that is not `plain` as `%XX`, and `decode` reads
them back (`decode_encode`). A query is a list of names and values between `&` and `=`; what an encoded
value stands for is found again under its name (`get_write`).
-/

namespace Percent

/-! ## Bytes -/

def hexDigit (n : ℕ) : Char := if n < 10 then Char.ofNat (48 + n) else Char.ofNat (55 + n)

def hexValue (c : Char) : Option ℕ :=
  if '0' ≤ c ∧ c ≤ '9' then some (c.toNat - 48)
  else if 'A' ≤ c ∧ c ≤ 'F' then some (c.toNat - 55)
  else if 'a' ≤ c ∧ c ≤ 'f' then some (c.toNat - 87)
  else none

theorem hexValue_hexDigit {n : ℕ} (hn : n < 16) : hexValue (hexDigit n) = some n := by
  interval_cases n <;> decide

def triplet (b : UInt8) : List Char := ['%', hexDigit (b.toNat / 16), hexDigit (b.toNat % 16)]

variable (plain : Char → Bool)

def encodeChar (c : Char) : List Char :=
  if plain c then [c] else (String.utf8EncodeChar c).flatMap triplet

def encode (text : List Char) : List Char := text.flatMap (encodeChar plain)

/-- A `%` without two digits behind it stands for itself. -/
def decode : List Char → List UInt8
  | [] => []
  | c :: high :: low :: rest =>
    if c = '%' then
      match hexValue high, hexValue low with
      | some high, some low => UInt8.ofNat (16 * high + low) :: decode rest
      | _, _ => String.utf8EncodeChar c ++ decode (high :: low :: rest)
    else String.utf8EncodeChar c ++ decode (high :: low :: rest)
  | c :: rest => String.utf8EncodeChar c ++ decode rest

theorem decode_triplet (b : UInt8) (rest : List Char) : decode (triplet b ++ rest) = b :: decode rest := by
  have hb : b.toNat < 256 := b.toNat_lt
  have hhigh : hexValue (hexDigit (b.toNat / 16)) = some (b.toNat / 16) := hexValue_hexDigit (by omega)
  have hlow : hexValue (hexDigit (b.toNat % 16)) = some (b.toNat % 16) := hexValue_hexDigit (by omega)
  change decode ('%' :: hexDigit (b.toNat / 16) :: hexDigit (b.toNat % 16) :: rest) = _
  rw [decode, if_pos rfl]
  simp only [hhigh, hlow]
  rw [Nat.div_add_mod, UInt8.ofNat_toNat]

theorem decode_triplets (bytes : List UInt8) (rest : List Char) :
    decode (bytes.flatMap triplet ++ rest) = bytes ++ decode rest := by
  induction bytes with
  | nil => rfl
  | cons b bytes ih => rw [List.flatMap_cons, List.append_assoc, decode_triplet, ih, List.cons_append]

theorem decode_cons_of_ne {c : Char} (hc : c ≠ '%') (rest : List Char) :
    decode (c :: rest) = String.utf8EncodeChar c ++ decode rest := by
  match rest with
  | [] => rfl
  | [_] => rfl
  | _ :: _ :: _ => exact if_neg hc

variable {plain}

theorem decode_encodeChar (hplain : plain '%' = false) (c : Char) (rest : List Char) :
    decode (encodeChar plain c ++ rest) = String.utf8EncodeChar c ++ decode rest := by
  unfold encodeChar
  split_ifs with hc
  · refine decode_cons_of_ne ?_ rest
    rintro rfl
    rw [hplain] at hc
    cases hc
  · exact decode_triplets _ _

/-- What has been encoded is decoded into its UTF-8. -/
theorem decode_encode (hplain : plain '%' = false) (text : List Char) :
    decode (encode plain text) = text.flatMap String.utf8EncodeChar := by
  induction text with
  | nil => rfl
  | cons c text ih =>
    have hcons : encode plain (c :: text) = encodeChar plain c ++ encode plain text := rfl
    rw [hcons, decode_encodeChar hplain, ih, List.flatMap_cons]

/-- Of the characters that are not plain, an encoded text has only what the triplets are made of. -/
theorem notMem_encode {d : Char} (hplain : plain d = false) (hpercent : d ≠ '%')
    (hdigit : ∀ n < 16, hexDigit n ≠ d) (text : List Char) : d ∉ encode plain text := by
  intro hmem
  obtain ⟨c, -, hc⟩ := List.mem_flatMap.1 hmem
  unfold encodeChar at hc
  split_ifs at hc with hplainc
  · obtain rfl := List.mem_singleton.1 hc
    rw [hplain] at hplainc
    cases hplainc
  · obtain ⟨b, -, hb⟩ := List.mem_flatMap.1 hc
    have hb256 : b.toNat < 256 := b.toNat_lt
    simp only [triplet, List.mem_cons, List.not_mem_nil, or_false] at hb
    rcases hb with rfl | rfl | rfl
    · exact hpercent rfl
    · exact hdigit _ (by omega) rfl
    · exact hdigit _ (by omega) rfl

/-! ## UTF-8 -/

/-- The text of UTF-8; `replace` says what a lenient decoder makes of other bytes. -/
def textOf (replace : List UInt8 → List Char) (bytes : List UInt8) : List Char :=
  match bytes.toByteArray.utf8Decode? with
  | some text => text.toList
  | none => replace bytes

theorem textOf_utf8 (replace : List UInt8 → List Char) (text : List Char) :
    textOf replace (text.flatMap String.utf8EncodeChar) = text := by
  have hdecode : (text.flatMap String.utf8EncodeChar).toByteArray.utf8Decode? = some text.toArray :=
    List.utf8Decode?_utf8Encode
  unfold textOf
  rw [hdecode]

/-! ## Queries -/

variable (replace : List UInt8 → List Char)

/-- A name or a value: `+` stands for a blank, and then the triplets are decoded. -/
def component (s : List Char) : List Char :=
  textOf replace (decode (s.map fun c => if c = '+' then ' ' else c))

theorem component_encode (hpercent : plain '%' = false) (hplus : plain '+' = false) (text : List Char) :
    component replace (encode plain text) = text := by
  have hnot : '+' ∉ encode plain text := notMem_encode hplus (by decide) (by decide) text
  have hsame : ((encode plain text).map fun c => if c = '+' then ' ' else c) = encode plain text := by
    refine (List.map_congr_left fun c hc => if_neg ?_).trans (List.map_id _)
    rintro rfl
    exact hnot hc
  unfold component
  rw [hsame, decode_encode hpercent, textOf_utf8]

/-- A part of a query: its name up to the first `=`, and its value. -/
def pair (part : List Char) : List Char × List Char :=
  (component replace (part.takeWhile (· ≠ '=')), component replace ((part.dropWhile (· ≠ '=')).drop 1))

/-- The first value in a query under a name. -/
def get (name query : List Char) : Option (List Char) :=
  (((query.splitOn '&').filter (· ≠ [])).map (pair replace)).lookup name

/-- A query of fields, whose values are encoded. -/
def write (plain : Char → Bool) (fields : List (List Char × List Char)) : List Char :=
  ['&'].intercalate (fields.map fun field => field.1 ++ '=' :: encode plain field.2)

theorem pair_of_encode (hpercent : plain '%' = false) (hplus : plain '+' = false) {name : List Char}
    (hname : component replace name = name) (heq : '=' ∉ name) (text : List Char) :
    pair replace (name ++ '=' :: encode plain text) = (name, text) := by
  have hpos : ∀ c ∈ name, decide (c ≠ '=') = true :=
    fun c hc => decide_eq_true fun h => heq (h ▸ hc)
  unfold pair
  rw [List.takeWhile_append_of_pos hpos, List.dropWhile_append_of_pos hpos]
  simp [hname, component_encode replace hpercent hplus]

/-- Every value is found under the first field of its name. -/
theorem get_write (hpercent : plain '%' = false) (hplus : plain '+' = false) (hamp : plain '&' = false)
    {fields : List (List Char × List Char)}
    (h : ∀ field ∈ fields, component replace field.1 = field.1 ∧ '=' ∉ field.1 ∧ '&' ∉ field.1)
    (name : List Char) : get replace name (write plain fields) = fields.lookup name := by
  by_cases hnil : fields = []
  · subst hnil
    rfl
  · have hsplit : (write plain fields).splitOn '&' =
        fields.map fun field => field.1 ++ '=' :: encode plain field.2 := by
      unfold write
      apply List.splitOn_intercalate
      · intro part hpart
        obtain ⟨field, hfield, rfl⟩ := List.mem_map.1 hpart
        rw [List.mem_append, List.mem_cons]
        rintro (h' | h' | h')
        · exact (h field hfield).2.2 h'
        · cases h'
        · exact notMem_encode hamp (by decide) (by decide) field.2 h'
      · exact fun hmap => hnil (List.map_eq_nil_iff.1 hmap)
    have hfilter : (fields.map fun field => field.1 ++ '=' :: encode plain field.2).filter (· ≠ []) =
        fields.map fun field => field.1 ++ '=' :: encode plain field.2 := by
      rw [List.filter_eq_self]
      intro part hpart
      obtain ⟨field, -, rfl⟩ := List.mem_map.1 hpart
      simp
    have hpairs : (fields.map fun field => field.1 ++ '=' :: encode plain field.2).map (pair replace) =
        fields := by
      rw [List.map_map]
      refine (List.map_congr_left fun field hfield => ?_).trans (List.map_id fields)
      exact pair_of_encode replace hpercent hplus (h field hfield).1 (h field hfield).2.1 field.2
    unfold get
    rw [hsplit, hfilter, hpairs]

end Percent
