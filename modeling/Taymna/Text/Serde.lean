import Taymna.Text.Json

/-!
# Records in JSON, as serde derives them

A record is an object with one member for each field, and an enumeration an object with its variant under
a tag. Of a field it says what the derived reader makes of its member: it has to be there (`required`), it
may be missing or `null` (`optional`), or there is a value for when it is missing (`defaulted`). A member
twice is an error, and members that no field asks for are passed over (`entry_append`).
-/

namespace Serde

open Json

variable {α : Type}

/-! ## Writing -/

def object (members : List (String × Value)) : Value :=
  .object (members.map fun m => (m.1.toList, m.2))

def string (s : String) : Value := .string s.toList

/-- An `Option` is its value, or `null`. -/
def option (write : α → Value) : Option α → Value
  | some a => write a
  | none => .null

/-! ## Reading -/

def members : Value → Option (List (String × Value))
  | .object members => some (members.map fun m => (String.ofList m.1, m.2))
  | _ => none

def text : Value → Option String
  | .string s => some (String.ofList s)
  | _ => none

def boolean : Value → Option Bool
  | .bool b => some b
  | _ => none

/-- What there is under a key. -/
inductive Entry
  | missing
  | twice
  | found (v : Value)

def entry (key : String) (members : List (String × Value)) : Entry :=
  match members.filter fun m => m.1 = key with
  | [] => .missing
  | [m] => .found m.2
  | _ => .twice

variable (key : String) (read : Value → Option α) (fields : List (String × Value))

def required : Option α :=
  match entry key fields with
  | .found v => read v
  | _ => none

def optional : Option (Option α) :=
  match entry key fields with
  | .missing => some none
  | .found .null => some none
  | .found v => (read v).map some
  | .twice => none

def defaulted (default : α) : Option α :=
  match entry key fields with
  | .missing => some default
  | .found v => read v
  | .twice => none

/-- The variant under a tag, and then its fields. -/
def tagged {β : Type} (tag : String) (variant : String → List (String × Value) → Option β)
    (v : Value) : Option β := do
  let fields ← members v
  let name ← required tag text fields
  variant name (fields.filter fun m => m.1 ≠ tag)

/-! ## Reading what is written -/

@[simp] theorem members_object : members (object fields) = some fields := by
  have hkey : (fun m : String × Value => (String.ofList m.1.toList, m.2)) = id := by
    funext m
    rw [String.ofList_toList]
    rfl
  show some ((fields.map _).map _) = some fields
  rw [List.map_map]
  show some (fields.map fun m => (String.ofList m.1.toList, m.2)) = some fields
  rw [hkey, List.map_id]

@[simp] theorem text_string (s : String) : text (string s) = some s := by
  unfold text string
  simp

theorem shallow_object (depth : ℕ) :
    (object fields).shallow (depth + 1) = fields.all fun m => m.2.shallow depth := by
  show (fields.map _).all _ = _
  rw [List.all_map]
  rfl

variable {key} {read} {fields}

/-- Members under other keys are passed over. -/
theorem entry_append {others : List (String × Value)} (h : ∀ m ∈ others, m.1 ≠ key) :
    entry key (fields ++ others) = entry key fields := by
  have hnone : (others.filter fun m => m.1 = key) = [] :=
    List.filter_eq_nil_iff.2 fun m hm => by simpa using h m hm
  unfold entry
  rw [List.filter_append, hnone, List.append_nil]

theorem defaulted_append {others : List (String × Value)} (h : ∀ m ∈ others, m.1 ≠ key) (default : α) :
    defaulted key read (fields ++ others) default = defaulted key read fields default := by
  unfold defaulted
  rw [entry_append h]

theorem required_of_entry {v : Value} (h : entry key fields = .found v) :
    required key read fields = read v := by
  unfold required
  rw [h]

/-- What is written of an `Option` is read, if no value is written as `null`. -/
theorem optional_of_entry {β : Type} {write : β → Value} {f : β → α} {b : Option β}
    (h : entry key fields = .found (option write b)) (hnull : ∀ c ∈ b, write c ≠ .null)
    (hread : ∀ c ∈ b, read (write c) = some (f c)) : optional key read fields = some (b.map f) := by
  unfold optional
  rw [h]
  cases b with
  | none => rfl
  | some c =>
    have hnot := hnull c rfl
    have hsome := hread c rfl
    show (match Entry.found (write c) with
      | .missing => some none
      | .found .null => some none
      | .found v => (read v).map some
      | .twice => none) = _
    split
    · rename_i heq
      cases heq
    · rename_i heq
      exact absurd (Entry.found.inj heq) hnot
    · rename_i heq
      rw [← Entry.found.inj heq, hsome]
      rfl
    · rename_i heq
      cases heq

theorem tagged_of_entry {tag name : String} {variant : String → List (String × Value) → Option α}
    (h : entry tag fields = .found (string name)) :
    tagged tag variant (object fields) = variant name (fields.filter fun m => m.1 ≠ tag) := by
  unfold tagged
  rw [members_object]
  show (required tag text fields).bind _ = _
  rw [required_of_entry h, text_string]
  rfl

end Serde
