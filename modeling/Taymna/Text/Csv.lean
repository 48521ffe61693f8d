import Mathlib.Data.List.Basic
import Taymna.Automata.Run

/-!
# Comma-separated values (RFC 4180)

The grammar of RFC 4180, section 2, and a reader for it.  `IsFile s rows` says that the text `s` is
a file with these rows; it is written rule by rule, and leaves open whether a line break at the end
ends the last row or begins an empty one.  `Csv.read` goes over the text once, character by
character, and settles this as every reader does (`read_eq_some_iff`).  A file without a row that is
one empty field has no other reading than this (`IsRecords.isFile_iff`).

Text is every character but the four that the grammar uses, as in a file with a `charset`.
-/

namespace Csv

open Automata

/-! ## The grammar -/

/-- `TEXTDATA`. -/
def isText (c : Char) : Bool := c ≠ '\"' ∧ c ≠ ',' ∧ c ≠ '\r' ∧ c ≠ '\n'

/-- What stands between the quotes of an escaped field, and the value it stands for. -/
inductive Escaped : List Char → List Char → Prop
  | nil : Escaped [] []
  | quote {s v : List Char} (h : Escaped s v) : Escaped ('\"' :: '\"' :: s) ('\"' :: v)
  | char {c : Char} {s v : List Char} (hc : c ≠ '\"') (h : Escaped s v) :
      Escaped (c :: s) (c :: v)

inductive IsField : List Char → List Char → Prop
  | escaped {s v : List Char} (h : Escaped s v) : IsField ('\"' :: (s ++ ['\"'])) v
  | plain {v : List Char} (h : ∀ c ∈ v, isText c = true) : IsField v v

/-- `field *(COMMA field)`. -/
inductive IsRecord : List Char → List (List Char) → Prop
  | one {s v : List Char} (h : IsField s v) : IsRecord s [v]
  | cons {s t v : List Char} {vs : List (List Char)} (h : IsField s v) (ht : IsRecord t vs) :
      IsRecord (s ++ ',' :: t) (v :: vs)

/-- `record *(CRLF record)`. -/
inductive IsRecords : List Char → List (List (List Char)) → Prop
  | one {s : List Char} {r : List (List Char)} (h : IsRecord s r) : IsRecords s [r]
  | cons {s t : List Char} {r : List (List Char)} {rs : List (List (List Char))}
      (h : IsRecord s r) (ht : IsRecords t rs) : IsRecords (s ++ '\r' :: '\n' :: t) (r :: rs)

/-- `file`: the last row may or may not have a line break behind it. -/
def IsFile (s : List Char) (rs : List (List (List Char))) : Prop :=
  IsRecords s rs ∨ ∃ t, s = t ++ ['\r', '\n'] ∧ IsRecords t rs

theorem isText_iff {c : Char} :
    isText c = true ↔ c ≠ '\"' ∧ c ≠ ',' ∧ c ≠ '\r' ∧ c ≠ '\n' := decide_eq_true_iff

theorem IsRecord.concat {s t v : List Char} {vs : List (List Char)} (h : IsRecord s vs)
    (ht : IsField t v) : IsRecord (s ++ ',' :: t) (vs ++ [v]) := by
  induction h with
  | one h => exact .cons h (.one ht)
  | cons h _ ih =>
    rw [List.append_assoc, List.cons_append]
    exact .cons h ih

theorem IsRecords.concat {s t : List Char} {r : List (List Char)} {rs : List (List (List Char))}
    (h : IsRecords s rs) (ht : IsRecord t r) :
    IsRecords (s ++ '\r' :: '\n' :: t) (rs ++ [r]) := by
  induction h with
  | one h => exact .cons h (.one ht)
  | cons h _ ih =>
    rw [List.append_assoc, List.cons_append, List.cons_append]
    exact .cons h ih

/-! ## The reader -/

/-- Where the reader stands: before the first character of a field, in a plain field, between the
quotes of an escaped one, behind a quote that ends it or is doubled, or between the two characters
of a line break. -/
inductive Mode
  | start
  | plain
  | quoted
  | closed
  | broken
deriving DecidableEq, Repr

/-- The rows that are complete, the fields of the current row that are, and the current field. -/
structure Reader where
  records : List (List (List Char))
  fields : List (List Char)
  field : List Char
  mode : Mode
deriving DecidableEq, Repr

def Reader.init : Reader := ⟨[], [], [], .start⟩

/-- What may come behind a field. -/
def Reader.separate (r : Reader) (c : Char) : Option Reader :=
  if c = ',' then some ⟨r.records, r.fields ++ [r.field], [], .start⟩
  else if c = '\r' then some ⟨r.records, r.fields ++ [r.field], [], .broken⟩
  else none

def step (r : Reader) (c : Char) : Option Reader :=
  match r.mode with
  | .start =>
    if c = '\"' then some ⟨r.records, r.fields, r.field, .quoted⟩
    else if isText c then some ⟨r.records, r.fields, r.field ++ [c], .plain⟩
    else r.separate c
  | .plain =>
    if isText c then some ⟨r.records, r.fields, r.field ++ [c], .plain⟩ else r.separate c
  | .quoted =>
    if c = '\"' then some ⟨r.records, r.fields, r.field, .closed⟩
    else some ⟨r.records, r.fields, r.field ++ [c], .quoted⟩
  | .closed =>
    if c = '\"' then some ⟨r.records, r.fields, r.field ++ [c], .quoted⟩ else r.separate c
  | .broken => if c = '\n' then some ⟨r.records ++ [r.fields], [], [], .start⟩ else none

/-- The reader stands behind the line break of a row. -/
def Reader.Blank (r : Reader) : Prop := r.mode = .start ∧ r.fields = [] ∧ r.records ≠ []

instance (r : Reader) : Decidable r.Blank := inferInstanceAs (Decidable (_ ∧ _ ∧ _))

/-- The rows at the end of the text. -/
def Reader.finish (r : Reader) : Option (List (List (List Char))) :=
  if r.mode = .quoted ∨ r.mode = .broken then none
  else if r.Blank then some r.records
  else some (r.records ++ [r.fields ++ [r.field]])

def read (s : List Char) : Option (List (List (List Char))) :=
  (run step .init s).bind Reader.finish

/-- A field may end here. -/
def Mode.Ends (m : Mode) : Prop := m ≠ .quoted ∧ m ≠ .broken

/-- What one character does. -/
inductive Step : Reader → Char → Reader → Prop
  | opening {rs fs f} : Step ⟨rs, fs, f, .start⟩ '\"' ⟨rs, fs, f, .quoted⟩
  | text {rs fs f m c} (hm : m = .start ∨ m = .plain) (hc : isText c = true) :
      Step ⟨rs, fs, f, m⟩ c ⟨rs, fs, f ++ [c], .plain⟩
  | char {rs fs f c} (hc : c ≠ '\"') :
      Step ⟨rs, fs, f, .quoted⟩ c ⟨rs, fs, f ++ [c], .quoted⟩
  | closing {rs fs f} : Step ⟨rs, fs, f, .quoted⟩ '\"' ⟨rs, fs, f, .closed⟩
  | quote {rs fs f} : Step ⟨rs, fs, f, .closed⟩ '\"' ⟨rs, fs, f ++ ['\"'], .quoted⟩
  | comma {rs fs f m} (hm : Mode.Ends m) :
      Step ⟨rs, fs, f, m⟩ ',' ⟨rs, fs ++ [f], [], .start⟩
  | cr {rs fs f m} (hm : Mode.Ends m) :
      Step ⟨rs, fs, f, m⟩ '\r' ⟨rs, fs ++ [f], [], .broken⟩
  | lf {rs fs f} : Step ⟨rs, fs, f, .broken⟩ '\n' ⟨rs ++ [fs], [], [], .start⟩

variable {s t v f : List Char} {fs vs : List (List Char)} {rs rows : List (List (List Char))}
  {m : Mode} {c : Char}

theorem step_comma (hm : m.Ends) :
    step ⟨rs, fs, f, m⟩ ',' = some ⟨rs, fs ++ [f], [], .start⟩ := by
  cases m with
  | start | plain | closed => rfl
  | quoted => exact absurd rfl hm.1
  | broken => exact absurd rfl hm.2

theorem step_cr (hm : m.Ends) :
    step ⟨rs, fs, f, m⟩ '\r' = some ⟨rs, fs ++ [f], [], .broken⟩ := by
  cases m with
  | start | plain | closed => rfl
  | quoted => exact absurd rfl hm.1
  | broken => exact absurd rfl hm.2

theorem step_text (hm : m = .start ∨ m = .plain) (hc : isText c = true) :
    step ⟨rs, fs, f, m⟩ c = some ⟨rs, fs, f ++ [c], .plain⟩ := by
  have hquote : c ≠ '\"' := (isText_iff.1 hc).1
  rcases hm with rfl | rfl
  · simp [step, hquote, hc]
  · simp [step, hc]

theorem separate_cases {r' : Reader} (hm : m.Ends)
    (h : Reader.separate ⟨rs, fs, f, m⟩ c = some r') : Step ⟨rs, fs, f, m⟩ c r' := by
  unfold Reader.separate at h
  split_ifs at h with hcomma hcr
  · subst hcomma
    obtain rfl := Option.some.inj h
    exact .comma hm
  · subst hcr
    obtain rfl := Option.some.inj h
    exact .cr hm

theorem step_cases {r r' : Reader} (h : step r c = some r') : Step r c r' := by
  obtain ⟨rs, fs, f, m⟩ := r
  cases m with
  | start =>
    unfold step at h
    dsimp only at h
    split_ifs at h with hquote htext
    · subst hquote
      obtain rfl := Option.some.inj h
      exact .opening
    · obtain rfl := Option.some.inj h
      exact .text (.inl rfl) htext
    · exact separate_cases ⟨by decide, by decide⟩ h
  | plain =>
    unfold step at h
    dsimp only at h
    split_ifs at h with htext
    · obtain rfl := Option.some.inj h
      exact .text (.inr rfl) htext
    · exact separate_cases ⟨by decide, by decide⟩ h
  | quoted =>
    unfold step at h
    dsimp only at h
    split_ifs at h with hquote
    · subst hquote
      obtain rfl := Option.some.inj h
      exact .closing
    · obtain rfl := Option.some.inj h
      exact .char hquote
  | closed =>
    unfold step at h
    dsimp only at h
    split_ifs at h with hquote
    · subst hquote
      obtain rfl := Option.some.inj h
      exact .quote
    · exact separate_cases ⟨by decide, by decide⟩ h
  | broken =>
    unfold step at h
    dsimp only at h
    split_ifs at h with hlf
    subst hlf
    obtain rfl := Option.some.inj h
    exact .lf

theorem finish_eq (hm : m.Ends) :
    Reader.finish ⟨rs, fs, f, m⟩ =
      if Reader.Blank ⟨rs, fs, f, m⟩ then some rs else some (rs ++ [fs ++ [f]]) :=
  if_neg fun h => h.elim hm.1 hm.2

/-! ## The reader reads what the grammar allows -/

theorem run_plain (h : ∀ c ∈ v, isText c = true) (rs : List (List (List Char)))
    (fs : List (List Char)) (f : List Char) :
    run step ⟨rs, fs, f, .plain⟩ v = some ⟨rs, fs, f ++ v, .plain⟩ := by
  induction v generalizing f with
  | nil => rw [List.append_nil, run_nil]
  | cons c v ih =>
    have htext : isText c = true := h c List.mem_cons_self
    rw [run_cons, step_text (.inr rfl) htext, Option.bind_some,
      ih fun d hd => h d (List.mem_cons_of_mem c hd), List.append_assoc, List.singleton_append]

theorem run_escaped (h : Escaped s v) (rs : List (List (List Char))) (fs : List (List Char))
    (f : List Char) : run step ⟨rs, fs, f, .quoted⟩ s = some ⟨rs, fs, f ++ v, .quoted⟩ := by
  induction h generalizing f with
  | nil => rw [List.append_nil, run_nil]
  | @quote s v _ ih =>
    have hpair : run step ⟨rs, fs, f, .quoted⟩ ('\"' :: '\"' :: s) =
        run step ⟨rs, fs, f ++ ['\"'], .quoted⟩ s := rfl
    rw [hpair, ih, List.append_assoc, List.singleton_append]
  | @char c s v hc _ ih =>
    have hstep : step ⟨rs, fs, f, .quoted⟩ c = some ⟨rs, fs, f ++ [c], .quoted⟩ := if_neg hc
    rw [run_cons, hstep, Option.bind_some, ih, List.append_assoc, List.singleton_append]

theorem run_field (h : IsField s v) (rs : List (List (List Char))) (fs : List (List Char)) :
    ∃ m : Mode, m.Ends ∧ run step ⟨rs, fs, [], .start⟩ s = some ⟨rs, fs, v, m⟩ := by
  cases h with
  | @escaped s v h =>
    refine ⟨.closed, ⟨by decide, by decide⟩, ?_⟩
    have hopen : run step ⟨rs, fs, [], .start⟩ ('\"' :: (s ++ ['\"'])) =
        run step ⟨rs, fs, [], .quoted⟩ (s ++ ['\"']) := rfl
    rw [hopen, run_append, run_escaped h]
    rfl
  | plain h =>
    cases s with
    | nil => exact ⟨.start, ⟨by decide, by decide⟩, rfl⟩
    | cons c s =>
      refine ⟨.plain, ⟨by decide, by decide⟩, ?_⟩
      rw [run_cons, step_text (.inl rfl) (h c List.mem_cons_self), Option.bind_some,
        run_plain fun d hd => h d (List.mem_cons_of_mem c hd)]
      rfl

theorem run_record (h : IsRecord s vs) (rs : List (List (List Char))) (fs : List (List Char)) :
    ∃ fs' v m, Mode.Ends m ∧ fs' ++ [v] = fs ++ vs ∧
      run step ⟨rs, fs, [], .start⟩ s = some ⟨rs, fs', v, m⟩ := by
  induction h generalizing fs with
  | one h =>
    obtain ⟨m, hm, hrun⟩ := run_field h rs fs
    exact ⟨fs, _, m, hm, rfl, hrun⟩
  | @cons s t v vs h _ ih =>
    obtain ⟨m, hm, hrun⟩ := run_field h rs fs
    obtain ⟨fs', w, m', hm', heq, hrest⟩ := ih (fs ++ [v])
    refine ⟨fs', w, m', hm', by rw [heq, List.append_assoc, List.singleton_append], ?_⟩
    rw [run_append, hrun, Option.bind_some, run_cons, step_comma hm, Option.bind_some, hrest]

/-- A row and the line break behind it. -/
theorem run_line (h : IsRecord s vs) (rs : List (List (List Char))) :
    run step ⟨rs, [], [], .start⟩ (s ++ ['\r', '\n']) = some ⟨rs ++ [vs], [], [], .start⟩ := by
  obtain ⟨fs, v, m, hm, heq, hrun⟩ := run_record h rs []
  rw [run_append, hrun, Option.bind_some, run_cons, step_cr hm, heq]
  rfl

theorem run_records (h : IsRecords s rows) (rs : List (List (List Char))) :
    ∃ rs' fs v m, Mode.Ends m ∧ rs' ++ [fs ++ [v]] = rs ++ rows ∧
      run step ⟨rs, [], [], .start⟩ s = some ⟨rs', fs, v, m⟩ := by
  induction h generalizing rs with
  | one h =>
    obtain ⟨fs, v, m, hm, heq, hrun⟩ := run_record h rs []
    exact ⟨rs, fs, v, m, hm, by rw [heq]; rfl, hrun⟩
  | @cons s t r rows h _ ih =>
    obtain ⟨rs', fs, v, m, hm, heq, hrun⟩ := ih (rs ++ [r])
    refine ⟨rs', fs, v, m, hm, by rw [heq, List.append_assoc, List.singleton_append], ?_⟩
    have hsplit : s ++ '\r' :: '\n' :: t = s ++ ['\r', '\n'] ++ t := by simp
    rw [hsplit, run_append, run_line h, Option.bind_some, hrun]

/-- A line break at the end ends the last row. -/
theorem IsRecords.read_append (h : IsRecords s rows) : read (s ++ ['\r', '\n']) = some rows := by
  obtain ⟨rs, fs, v, m, hm, heq, hrun⟩ := run_records h []
  have hbreak : run step ⟨rs, fs, v, m⟩ ['\r', '\n'] = some ⟨rows, [], [], .start⟩ := by
    rw [run_cons, step_cr hm]
    exact congrArg (fun rs => some (Reader.mk rs [] [] .start)) heq
  have hne : rows ≠ [] := by
    rintro rfl
    simp at heq
  have hblank : Reader.Blank ⟨rows, [], [], .start⟩ := ⟨rfl, rfl, hne⟩
  rw [read, run_append]
  show ((run step ⟨[], [], [], .start⟩ s).bind _).bind _ = _
  rw [hrun, Option.bind_some, hbreak, Option.bind_some, finish_eq ⟨by decide, by decide⟩,
    if_pos hblank]

/-- Only a line break leads to where nothing of a row is read. -/
theorem blank_iff {r : Reader} (h : run step .init s = some r) (hm : r.mode.Ends) :
    r.Blank ↔ s.getLast? = some '\n' := by
  rcases List.eq_nil_or_concat' s with rfl | ⟨t, c, rfl⟩
  · obtain rfl := Option.some.inj h
    decide
  · obtain ⟨u, -, hstep⟩ := run_concat_eq_some.1 h
    rw [List.getLast?_concat, Option.some.injEq]
    cases step_cases hstep with
    | opening | char | quote => exact absurd rfl hm.1
    | text hmode hc =>
      exact iff_of_false (fun hb => by cases hb.1) (isText_iff.1 hc).2.2.2
    | closing => exact iff_of_false (fun hb => by cases hb.1) (by decide)
    | comma => exact iff_of_false (fun hb => by simp [Reader.Blank] at hb) (by decide)
    | cr => exact absurd rfl hm.2
    | lf => exact iff_of_true ⟨rfl, rfl, by simp⟩ rfl

theorem IsRecords.read_eq (h : IsRecords s rows) (hs : s.getLast? ≠ some '\n') :
    read s = some rows := by
  obtain ⟨rs, fs, v, m, hm, heq, hrun⟩ := run_records h []
  have hblank : ¬ Reader.Blank ⟨rs, fs, v, m⟩ := mt (blank_iff hrun hm).1 hs
  show (run step ⟨[], [], [], .start⟩ s).bind _ = _
  rw [hrun, Option.bind_some, finish_eq hm, if_neg hblank, heq, List.nil_append]

/-! ## The grammar allows what the reader reads -/

theorem Escaped.concat (h : Escaped s v) (hc : c ≠ '\"') : Escaped (s ++ [c]) (v ++ [c]) := by
  induction h with
  | nil => exact .char hc .nil
  | quote _ ih => exact .quote ih
  | char hd _ ih => exact .char hd ih

theorem Escaped.concat_quote (h : Escaped s v) :
    Escaped (s ++ ['\"', '\"']) (v ++ ['\"']) := by
  induction h with
  | nil => exact .quote .nil
  | quote _ ih => exact .quote ih
  | char hd _ ih => exact .char hd ih

/-- The text of a field so far. -/
inductive FieldRead : Mode → List Char → List Char → Prop
  | start : FieldRead .start [] []
  | plain {v : List Char} (h : ∀ c ∈ v, isText c = true) : FieldRead .plain v v
  | quoted {s v : List Char} (h : Escaped s v) : FieldRead .quoted ('\"' :: s) v
  | closed {s v : List Char} (h : Escaped s v) : FieldRead .closed ('\"' :: (s ++ ['\"'])) v

/-- The text in front of a field. -/
inductive FieldsRead : List Char → List (List Char) → Prop
  | nil : FieldsRead [] []
  | comma {s : List Char} {vs : List (List Char)} (h : IsRecord s vs) : FieldsRead (s ++ [',']) vs

/-- The text in front of a row. -/
inductive RecordsRead : List Char → List (List (List Char)) → Prop
  | nil : RecordsRead [] []
  | crlf {s : List Char} {rs : List (List (List Char))} (h : IsRecords s rs) :
      RecordsRead (s ++ ['\r', '\n']) rs

/-- The text that a reader has read. -/
inductive Reads : List Char → Reader → Prop
  | field {a b s f : List Char} {fs : List (List Char)} {rs : List (List (List Char))} {m : Mode}
      (ha : RecordsRead a rs) (hb : FieldsRead b fs) (hs : FieldRead m s f) :
      Reads (a ++ (b ++ s)) ⟨rs, fs, f, m⟩
  | broken {a s : List Char} {fs : List (List Char)} {rs : List (List (List Char))}
      (ha : RecordsRead a rs) (hs : IsRecord s fs) :
      Reads (a ++ (s ++ ['\r'])) ⟨rs, fs, [], .broken⟩

theorem FieldRead.isField (h : FieldRead m s v) (hm : m.Ends) : IsField s v := by
  cases h with
  | start => exact .plain (by simp)
  | plain h => exact .plain h
  | quoted => exact absurd rfl hm.1
  | closed h => exact .escaped h

theorem FieldRead.text (h : FieldRead m s f) (hm : m = .start ∨ m = .plain)
    (hc : isText c = true) : FieldRead .plain (s ++ [c]) (f ++ [c]) := by
  cases h with
  | start => exact .plain (by simpa using hc)
  | plain h =>
    refine .plain fun d hd => ?_
    rcases List.mem_append.1 hd with hd | hd
    · exact h d hd
    · rwa [List.mem_singleton.1 hd]
  | quoted => simp at hm
  | closed => simp at hm

theorem FieldsRead.isRecord (h : FieldsRead t vs) (hs : IsField s v) :
    IsRecord (t ++ s) (vs ++ [v]) := by
  cases h with
  | nil => exact .one hs
  | comma h =>
    rw [List.append_assoc, List.singleton_append]
    exact h.concat hs

theorem RecordsRead.isRecords (h : RecordsRead t rs) (hs : IsRecord s vs) :
    IsRecords (t ++ s) (rs ++ [vs]) := by
  cases h with
  | nil => exact .one hs
  | crlf h =>
    rw [List.append_assoc]
    exact h.concat hs

theorem Reads.step {r r' : Reader} (h : Reads s r) (hstep : Step r c r') :
    Reads (s ++ [c]) r' := by
  cases h with
  | @field a b s f fs rs m ha hb hs =>
    rw [List.append_assoc, List.append_assoc]
    cases hstep with
    | opening =>
      cases hs with
      | start => exact .field ha hb (.quoted .nil)
    | text hm hc => exact .field ha hb (hs.text hm hc)
    | char hc =>
      cases hs with
      | quoted h => exact .field ha hb (.quoted (h.concat hc))
    | closing =>
      cases hs with
      | quoted h => exact .field ha hb (.closed h)
    | quote =>
      cases hs with
      | @closed s _ h =>
        rw [List.cons_append, List.append_assoc]
        exact .field ha hb (.quoted h.concat_quote)
    | comma hm =>
      have hrecord := hb.isRecord (hs.isField hm)
      have hfield := Reads.field ha (.comma hrecord) .start
      rwa [List.append_nil, List.append_assoc] at hfield
    | cr hm =>
      have hbroken := Reads.broken ha (hb.isRecord (hs.isField hm))
      rwa [List.append_assoc] at hbroken
    | lf => cases hs
  | @broken a s fs rs ha hs =>
    cases hstep with
    | text hm => simp at hm
    | comma hm => exact absurd rfl hm.2
    | cr hm => exact absurd rfl hm.2
    | lf =>
      have hfield := Reads.field (.crlf (ha.isRecords hs)) .nil .start
      simpa using hfield

theorem reads_of_run {r : Reader} (h : run step .init s = some r) : Reads s r :=
  run_history_invariant (.field .nil .nil .start) (fun _ _ _ _ hr ht => hr.step (step_cases ht)) h

theorem ends_of_finish {r : Reader} (h : r.finish = some rows) : r.mode.Ends := by
  unfold Reader.finish at h
  split_ifs at h with hm
  · exact not_or.1 hm
  · exact not_or.1 hm

/-- Behind the line break of a row, the text is that of the rows and of this line break. -/
theorem Reads.of_blank (h : Reads s ⟨rs, fs, f, m⟩) (hblank : Reader.Blank ⟨rs, fs, f, m⟩) :
    ∃ t, s = t ++ ['\r', '\n'] ∧ IsRecords t rs := by
  obtain ⟨rfl, rfl, hrecords⟩ := hblank
  cases h with
  | field ha hb hs =>
    cases hs with
    | start =>
      cases hb with
      | nil =>
        cases ha with
        | nil => exact absurd rfl hrecords
        | crlf h => exact ⟨_, by simp, h⟩
      | comma h => cases h

/-- What the reader makes of a text. -/
theorem read_eq_some_iff :
    read s = some rows ↔
      IsRecords s rows ∧ s.getLast? ≠ some '\n' ∨
        ∃ t, s = t ++ ['\r', '\n'] ∧ IsRecords t rows := by
  constructor
  · intro h
    obtain ⟨⟨rs, fs, f, m⟩, hrun, hfinish⟩ := Option.bind_eq_some_iff.1 h
    have hm : m.Ends := ends_of_finish hfinish
    have hreads := reads_of_run hrun
    rw [finish_eq hm] at hfinish
    split_ifs at hfinish with hblank
    · obtain rfl := Option.some.inj hfinish
      exact .inr (hreads.of_blank hblank)
    · obtain rfl := Option.some.inj hfinish
      refine .inl ⟨?_, mt (blank_iff hrun hm).2 hblank⟩
      cases hreads with
      | field ha hb hs => exact ha.isRecords (hb.isRecord (hs.isField hm))
      | broken => exact absurd rfl hm.2
  · rintro (⟨h, hs⟩ | ⟨t, rfl, h⟩)
    · exact h.read_eq hs
    · exact h.read_append

/-! ## Texts put together -/

theorem isRecord_intercalate {ts : List (List Char)} (h : List.Forall₂ IsField ts vs)
    (hts : ts ≠ []) : IsRecord ([','].intercalate ts) vs := by
  induction h with
  | nil => exact absurd rfl hts
  | @cons s v ts vs hs hrest ih =>
    cases hrest with
    | nil =>
      rw [List.intercalate_singleton]
      exact .one hs
    | cons h₁ h₂ =>
      rw [List.intercalate_cons_cons, List.append_assoc, List.singleton_append]
      exact .cons hs (ih (by simp))

theorem isRecords_intercalate {ts : List (List Char)} (h : List.Forall₂ IsRecord ts rows)
    (hts : ts ≠ []) : IsRecords (['\r', '\n'].intercalate ts) rows := by
  induction h with
  | nil => exact absurd rfl hts
  | @cons s r ts rows hs hrest ih =>
    cases hrest with
    | nil =>
      rw [List.intercalate_singleton]
      exact .one hs
    | cons h₁ h₂ =>
      rw [List.intercalate_cons_cons, List.append_assoc]
      exact .cons hs (ih (by simp))

/-! ## Files with one reading -/

theorem getLast?_append_cons (s t : List Char) (c : Char) :
    (s ++ c :: t).getLast? = some (t.getLast?.getD c) := by
  simp [List.getLast?_append, List.getLast?_cons]

theorem IsField.getLast?_ne (h : IsField s v) : s.getLast? ≠ some '\n' := by
  cases h with
  | @escaped s v =>
    rw [← List.cons_append, List.getLast?_concat]
    decide
  | plain h =>
    intro hlast
    exact (isText_iff.1 (h _ (List.mem_of_getLast? hlast))).2.2.2 rfl

theorem IsRecord.getLast?_ne (h : IsRecord s vs) : s.getLast? ≠ some '\n' := by
  induction h with
  | one h => exact h.getLast?_ne
  | @cons s t v vs _ _ ih =>
    rw [getLast?_append_cons, Ne, Option.some.injEq]
    cases hlast : t.getLast? with
    | none => decide
    | some c =>
      rintro rfl
      exact ih hlast

theorem IsRecord.eq_of_nil (h : IsRecord [] vs) : vs = [[]] := by
  generalize hs : ([] : List Char) = s at h
  cases h with
  | one h =>
    cases h with
    | escaped => cases hs
    | plain => rw [← hs]
  | cons => simp at hs

theorem IsRecords.eq_of_nil (h : IsRecords [] rows) : rows = [[[]]] := by
  generalize hs : ([] : List Char) = s at h
  cases h with
  | one h =>
    subst hs
    rw [h.eq_of_nil]
  | cons => simp at hs

theorem IsRecords.getLast?_ne (h : IsRecords s rows) (hrows : ∀ r ∈ rows, r ≠ [[]]) :
    s.getLast? ≠ some '\n' := by
  induction h with
  | one h => exact h.getLast?_ne
  | @cons s t r rs _ ht ih =>
    have hlast := ih fun r hr => hrows r (List.mem_cons_of_mem _ hr)
    rw [List.append_cons, getLast?_append_cons, Ne, Option.some.injEq]
    cases hc : t.getLast? with
    | none =>
      -- an empty text would be a row of one empty field
      obtain rfl := List.getLast?_eq_none_iff.1 hc
      obtain rfl := ht.eq_of_nil
      exact absurd rfl (hrows [[]] (by simp))
    | some c =>
      rintro rfl
      exact hlast hc

/-- However the grammar is applied to the text, these are its rows. -/
theorem IsRecords.isFile_iff (h : IsRecords s rows) (hrows : ∀ r ∈ rows, r ≠ [[]])
    {rows' : List (List (List Char))} : IsFile s rows' ↔ rows' = rows := by
  have hlast := h.getLast?_ne hrows
  constructor
  · rintro (h' | ⟨t, rfl, -⟩)
    · exact Option.some.inj ((h'.read_eq hlast).symm.trans (h.read_eq hlast))
    · simp at hlast
  · rintro rfl
    exact .inl h

/-! ## Strings -/

def readText (text : String) : Option (List (List String)) :=
  (read text.toList).map fun rows => rows.map fun row => row.map String.ofList

theorem readText_eq {text : String} {rows : List (List String)}
    (h : read text.toList = some (rows.map fun row => row.map String.toList)) :
    readText text = some rows := by
  have hrow : (fun row : List (List Char) => row.map String.ofList) ∘
      (fun row : List String => row.map String.toList) = id := by
    funext row
    simp [Function.comp_def]
  rw [readText, h, Option.map_some, List.map_map, hrow, List.map_id]

example : readText "a,\"b\"\"\r\n\"\r\n,\r\n" = some [["a", "b\"\r\n"], ["", ""]] := by decide

end Csv
