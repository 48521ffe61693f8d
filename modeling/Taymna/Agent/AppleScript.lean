import Taymna.Agent.Warning
import Taymna.Text.Replace

/-!
# The scripts of the macOS notifier (`agent/src/platform/macos.rs`)

A warning is shown by a script into which its texts go as double-quoted literals
(`applescriptString`).  `readLiteral` is the reader's side: however the text mixes backslashes,
quotes and newlines, the reader finds it again and goes on right behind the literal
(`readLiteral_append`).
-/

namespace Taymna.Agent

open Text

/-! ## Constants shared by the platforms (`agent/src/platform/mod.rs`) -/

def appName : String := "Taymna"

def finalWarningHeadline : String := "SESSION ENDING"

def finalWarningBody : String :=
  "Save your work and sign out of your accounts. This computer will lock when the timer reaches zero."

namespace Macos

/-- An AppleScript string literal (`applescript_string`). -/
def applescriptString (value : String) : String :=
  "\"" ++ replace (replace (replace value "\\" "\\\\") "\"" "\\\"") "\n" "\\n" ++ "\""

/-- The script `MacosNotifier::notify` runs. -/
def notify (notice : Notice) : String :=
  "display notification " ++ applescriptString notice.body ++
    " with title " ++ applescriptString notice.title ++
    " subtitle " ++ applescriptString appName

/-- The message of the final alert. -/
def finalWarningMessage (seconds : ℤ) : String :=
  toString seconds ++ " seconds remaining.\n\n" ++ finalWarningBody

/-- The script `MacosNotifier::show_final_warning` runs. -/
def showFinalWarning (remainingSecs : ℤ) : String :=
  let seconds := max 1 (min 600 remainingSecs)
  "display alert " ++ applescriptString finalWarningHeadline ++
    " message " ++ applescriptString (finalWarningMessage seconds) ++
    " as critical buttons \x7b\"Dismiss\"\x7d default button \"Dismiss\" giving up after " ++
    toString seconds

/-! ## Reading a literal -/

/-- The rest of a literal after its opening quote: its value, and what follows the closing
quote.  A backslash escapes the next character, and an escaped `n` is a newline. -/
def readBody : List Char → Option (List Char × List Char)
  | [] => none
  | '\"' :: s => some ([], s)
  | '\\' :: [] => none
  | '\\' :: c :: s => (readBody s).map fun x => ((if c = 'n' then '\n' else c) :: x.1, x.2)
  | c :: s => (readBody s).map fun x => (c :: x.1, x.2)

/-- Read a double-quoted literal at the start of a text. -/
def readLiteral : List Char → Option (List Char × List Char)
  | '\"' :: s => readBody s
  | _ => none

/-! ## What the three replacements do together -/

/-- What `applescript_string` makes of one character. -/
def escapeChar (c : Char) : List Char :=
  if c = '\\' then ['\\', '\\']
  else if c = '\"' then ['\\', '\"']
  else if c = '\n' then ['\\', 'n']
  else [c]

/-- No replacement runs into what an earlier one has put in. -/
theorem toList_applescriptString (value : String) :
    (applescriptString value).toList = '\"' :: (value.toList.flatMap escapeChar ++ ['\"']) := by
  have hquote : "\"".toList = ['\"'] := by decide
  have hbackslash : "\\".toList = ['\\'] := by decide
  have hnewline : "\n".toList = ['\n'] := by decide
  simp only [applescriptString, String.toList_append, toList_replace, hquote, hbackslash, hnewline,
    replaceAll_singleton, List.flatMap_assoc, List.cons_append, List.nil_append]
  refine congrArg (fun x => '\"' :: (x ++ ['\"'])) (List.flatMap_congr fun c _ => ?_)
  unfold escapeChar
  by_cases hbs : c = '\\'
  · subst hbs
    decide
  by_cases hq : c = '\"'
  · subst hq
    decide
  by_cases hn : c = '\n'
  · subst hn
    decide
  · simp [hbs, hq, hn]

theorem readBody_cons {c : Char} (hquote : c ≠ '\"') (hbackslash : c ≠ '\\') (s : List Char) :
    readBody (c :: s) = (readBody s).map fun x => (c :: x.1, x.2) := by
  rw [readBody]
  · exact hquote
  · intro h _
    exact hbackslash h
  · intro d s' h _
    exact hbackslash h

theorem readBody_escapeChar (c : Char) (s : List Char) :
    readBody (escapeChar c ++ s) = (readBody s).map fun x => (c :: x.1, x.2) := by
  unfold escapeChar
  split_ifs with hbackslash hquote hnewline
  · subst hbackslash
    rfl
  · subst hquote
    rfl
  · subst hnewline
    rfl
  · exact readBody_cons hquote hbackslash s

theorem readBody_flatMap (v s : List Char) :
    readBody (v.flatMap escapeChar ++ '\"' :: s) = some (v, s) := by
  induction v with
  | nil => rfl
  | cons c v ih => rw [List.flatMap_cons, List.append_assoc, readBody_escapeChar, ih]; rfl

theorem newline_notMem_escapeChar (c : Char) : '\n' ∉ escapeChar c := by
  unfold escapeChar
  split_ifs with hbackslash hquote hnewline
  · decide
  · decide
  · decide
  · simpa using Ne.symm hnewline

/-- The literal is read back as the text it was made of, whatever follows it. -/
theorem readLiteral_append (value : String) (s : List Char) :
    readLiteral ((applescriptString value).toList ++ s) = some (value.toList, s) := by
  rw [toList_applescriptString, List.cons_append, List.append_assoc]
  exact readBody_flatMap value.toList s

theorem newline_notMem_applescriptString (value : String) :
    '\n' ∉ (applescriptString value).toList := by
  rw [toList_applescriptString]
  simp [newline_notMem_escapeChar]

/-! ## The scripts -/

/-- Read a script of keywords with a literal after each of them: the values of the literals, and
what follows the last one. -/
def readScript : List String → List Char → Option (List (List Char) × List Char)
  | [], s => some ([], s)
  | keyword :: keywords, s =>
      if keyword.toList <+: s then
        (readLiteral (s.drop keyword.toList.length)).bind fun x =>
          (readScript keywords x.2).map fun y => (x.1 :: y.1, y.2)
      else none

@[simp] theorem readScript_nil (s : List Char) : readScript [] s = some ([], s) := rfl

theorem readScript_cons (keyword value : String) (keywords : List String) (s : List Char) :
    readScript (keyword :: keywords) (keyword.toList ++ ((applescriptString value).toList ++ s)) =
      (readScript keywords s).map fun y => (value.toList :: y.1, y.2) := by
  rw [readScript, if_pos (List.prefix_append _ _), List.drop_left, readLiteral_append,
    Option.bind_some]

theorem toList_pieces (a b c d e f : String) :
    (a ++ b ++ c ++ d ++ e ++ f).toList =
      a.toList ++ (b.toList ++ (c.toList ++ (d.toList ++ (e.toList ++ f.toList)))) := by
  simp only [String.toList_append, List.append_assoc]

theorem readScript_notify (notice : Notice) :
    readScript ["display notification ", " with title ", " subtitle "] (notify notice).toList =
      some ([notice.body.toList, notice.title.toList, appName.toList], []) := by
  have hlast := readScript_cons " subtitle " appName [] []
  rw [List.append_nil] at hlast
  unfold notify
  rw [toList_pieces, readScript_cons, readScript_cons, hlast]
  rfl

theorem readScript_showFinalWarning (remainingSecs : ℤ) :
    readScript ["display alert ", " message "] (showFinalWarning remainingSecs).toList =
      some ([finalWarningHeadline.toList,
          (finalWarningMessage (max 1 (min 600 remainingSecs))).toList],
        " as critical buttons \x7b\"Dismiss\"\x7d default button \"Dismiss\" giving up after ".toList ++
          (toString (max 1 (min 600 remainingSecs))).toList) := by
  unfold showFinalWarning
  rw [toList_pieces, readScript_cons, readScript_cons]
  rfl

/-- A literal ends where its text does, by itself and in the scripts of the notifier. -/
theorem applescriptString_roundTrip :
    (∀ value, readLiteral (applescriptString value).toList = some (value.toList, [])) ∧
    (∀ value, '\n' ∉ (applescriptString value).toList) ∧
    (∀ value s, readLiteral ((applescriptString value).toList ++ s) = some (value.toList, s)) ∧
    (∀ notice : Notice,
      readScript ["display notification ", " with title ", " subtitle "] (notify notice).toList =
        some ([notice.body.toList, notice.title.toList, appName.toList], [])) ∧
    ∀ remainingSecs, ∃ rest,
      readScript ["display alert ", " message "] (showFinalWarning remainingSecs).toList =
        some ([finalWarningHeadline.toList,
          (finalWarningMessage (max 1 (min 600 remainingSecs))).toList], rest) :=
  ⟨fun value => by simpa using readLiteral_append value [], newline_notMem_applescriptString,
    readLiteral_append, readScript_notify, fun secs => ⟨_, readScript_showFinalWarning secs⟩⟩

end Macos

end Taymna.Agent
