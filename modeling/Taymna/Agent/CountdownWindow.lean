import Taymna.Agent.AppleScript
import Taymna.Agent.Balloon
import Taymna.Text.Template

/-!
# The countdown window of the Windows notifier (`agent/src/platform/windows.rs`)

`show_final_warning` fills `FINAL_WARNING_SCRIPT` by four replacements, each over the result of the
one before. The script is a template with a hole for each mark, and every value but the number of
seconds is the same in all of them, so that the scripts of two warnings differ in that number alone
(`toList_showFinalWarning`).
-/

namespace Taymna.Agent.Windows

open Text

/-! ## The script -/

def totalLines : List String :=
  ["\n",
    "$ErrorActionPreference = 'Stop'\n",
    "Add-Type -AssemblyName System.Windows.Forms\n",
    "Add-Type -AssemblyName System.Drawing\n",
    "$total = "]

def formLines : List String :=
  ["$elapsed = [System.Diagnostics.Stopwatch]::StartNew()\n",
    "\n",
    "$form = New-Object System.Windows.Forms.Form\n",
    "$form.FormBorderStyle = 'None'\n",
    "$form.StartPosition = 'CenterScreen'\n",
    "$form.Size = New-Object System.Drawing.Size(520, 300)\n",
    "$form.BackColor = [System.Drawing.Color]::FromArgb(15, 16, 19)\n",
    "$form.TopMost = $true\n",
    "$form.ShowInTaskbar = $false\n",
    "\n",
    "function New-Line($text, $size, $style, $color, $top, $height) \x7b\n",
    "  $label = New-Object System.Windows.Forms.Label\n",
    "  $label.Text = $text\n",
    "  $label.Font = New-Object System.Drawing.Font('Segoe UI', $size, $style)\n",
    "  $label.ForeColor = $color\n",
    "  $label.AutoSize = $false\n",
    "  $label.TextAlign = 'MiddleCenter'\n",
    "  $label.SetBounds(24, $top, 472, $height)\n",
    "  return $label\n",
    "\x7d\n",
    "\n",
    "$bold = [System.Drawing.FontStyle]::Bold\n",
    "$brand = New-Line "]

def headlineLines : List String :=
  ["10 $bold ([System.Drawing.Color]::FromArgb(132, 138, 150)) 30 22\n",
    "$clock = New-Line '' 48 $bold ([System.Drawing.Color]::FromArgb(245, 246, 248)) 58 ",
    "84\n",
    "$headline = New-Line "]

def bodyLines : List String :=
  ["12 $bold ([System.Drawing.Color]::FromArgb(232, 178, 92)) 148 24\n",
    "$body = New-Line "]

def timerLines : List String :=
  ["10 ([System.Drawing.FontStyle]::Regular) ([System.Drawing.Color]::FromArgb(168, ",
    "174, 186)) 176 48\n",
    "foreach ($line in $brand, $clock, $headline, $body) \x7b $form.Controls.Add($line) ",
    "\x7d\n",
    "\n",
    "$dismiss = New-Object System.Windows.Forms.Button\n",
    "$dismiss.Text = 'Dismiss'\n",
    "$dismiss.FlatStyle = 'Flat'\n",
    "$dismiss.FlatAppearance.BorderSize = 0\n",
    "$dismiss.BackColor = [System.Drawing.Color]::FromArgb(32, 34, 40)\n",
    "$dismiss.ForeColor = [System.Drawing.Color]::FromArgb(226, 229, 234)\n",
    "$dismiss.SetBounds(200, 236, 120, 34)\n",
    "$dismiss.Add_Click(\x7b $form.Close() \x7d)\n",
    "$form.Controls.Add($dismiss)\n",
    "\n",
    "$render = \x7b\n",
    "  $left = $total - [int][System.Math]::Floor($elapsed.Elapsed.TotalSeconds)\n",
    "  if ($left -le 0) \x7b $form.Close() \x7d\n",
    "  else \x7b $clock.Text = '\x7b0:00\x7d:\x7b1:00\x7d' -f [System.Math]::Floor($left ",
    "/ 60), ($left ",
    "% ",
    "60) \x7d\n",
    "\x7d\n",
    "& $render\n",
    "\n",
    "$timer = New-Object System.Windows.Forms.Timer\n",
    "$timer.Interval = 250\n",
    "$timer.Add_Tick($render)\n",
    "$timer.Start()\n",
    "[void]$form.ShowDialog()\n",
    "$timer.Stop()\n"]

/-- `FINAL_WARNING_SCRIPT`. -/
def finalWarningScript : String :=
  String.join (totalLines ++ ["%%SECONDS%%", "\n"] ++ formLines ++ ["%%BRAND%%", " "] ++
    headlineLines ++ ["%%HEADLINE%%", " "] ++ bodyLines ++ ["%%BODY%%", " "] ++ timerLines)

/-- The seconds that the window counts down from. -/
def countdownSeconds (remainingSecs : ℤ) : ℤ := max 1 (min 600 remainingSecs)

/-- The script `WindowsNotifier::show_final_warning` runs. -/
def showFinalWarning (remainingSecs : ℤ) : String :=
  replace
    (replace
      (replace
        (replace finalWarningScript "%%SECONDS%%" (toString (countdownSeconds remainingSecs)))
        "%%BRAND%%" (powershellString appName))
      "%%HEADLINE%%" (powershellString finalWarningHeadline))
    "%%BODY%%" (powershellString finalWarningBody)

/-! ## The template -/

inductive Mark
  | seconds
  | brand
  | headline
  | body
deriving DecidableEq, Repr

def Mark.text : Mark → List Char
  | .seconds => "%%SECONDS%%".toList
  | .brand => "%%BRAND%%".toList
  | .headline => "%%HEADLINE%%".toList
  | .body => "%%BODY%%".toList

def countdownTemplate : Template Mark Char where
  start := totalLines.flatMap String.toList
  holes :=
    [(.seconds, '\n', formLines.flatMap String.toList),
      (.brand, ' ', headlineLines.flatMap String.toList),
      (.headline, ' ', bodyLines.flatMap String.toList),
      (.body, ' ', timerLines.flatMap String.toList)]

/-- Each mark stands in the script once. -/
theorem toList_finalWarningScript :
    finalWarningScript.toList = countdownTemplate.fill Mark.text := by
  have hnewline : "\n".toList = ['\n'] := by decide
  have hspace : " ".toList = [' '] := by decide
  unfold finalWarningScript countdownTemplate Template.fill Mark.text
  rw [String.toList_join]
  simp only [List.flatMap_append, List.flatMap_cons, List.flatMap_nil, hnewline, hspace,
    List.append_assoc, List.cons_append, List.nil_append, List.append_nil, -String.reduceToList]

theorem Mark.text_ne_nil (m : Mark) : m.text ≠ [] := by cases m <;> decide

theorem Mark.head_text (m : Mark) : m.text.head m.text_ne_nil = '%' := by cases m <;> rfl

/-- A mark goes on with a second `%`. -/
theorem Mark.exists_text (m : Mark) : ∃ q, m.text = '%' :: '%' :: q := by
  cases m <;> exact ⟨_, rfl⟩

theorem Mark.separators_notMem (m : Mark) : '\n' ∉ m.text ∧ ' ' ∉ m.text := by cases m <;> decide

theorem Mark.not_infix {m j : Mark} (h : j ≠ m) : ¬ m.text <:+: j.text := by
  cases m <;> cases j <;> first | exact absurd rfl h | decide

theorem Mark.not_infix_of_notMem (m : Mark) {s : List Char} (h : '%' ∉ s) : ¬ m.text <:+: s := by
  intro hin
  obtain ⟨q, hq⟩ := m.exists_text
  exact h (hin.subset (hq ▸ List.mem_cons_self))

/-- A line in which no mark begins. -/
def Plain (line : String) : Prop := '%' ∉ line.toList ∨ line.toList = ['%', ' ']

theorem Plain.skips {line : String} (h : Plain line) (m : Mark) : Skips m.text line.toList := by
  rcases h with h | h
  · exact Skips.of_notMem m.text_ne_nil (by rwa [m.head_text])
  · rw [h]
    obtain ⟨q, hq⟩ := m.exists_text
    rw [hq]
    exact Skips.pair (by decide) (by decide)

/-- The marks begin in none of the lines: the one `%` of the script is an operator. -/
theorem plain_lines : (∀ s ∈ totalLines, Plain s) ∧ (∀ s ∈ formLines, Plain s) ∧
    (∀ s ∈ headlineLines, Plain s) ∧ (∀ s ∈ bodyLines, Plain s) ∧ ∀ s ∈ timerLines, Plain s := by
  unfold totalLines formLines headlineLines bodyLines timerLines
  simp only [List.forall_mem_cons, -String.reduceToList]
  repeat' apply And.intro
  all_goals
    first
    | exact List.forall_mem_nil _
    | exact Or.inl (notMem_toList_ofList (by decide))
    | exact Or.inr (by decide)

theorem clear_countdownTemplate (m : Mark) : countdownTemplate.Clear m.text := by
  obtain ⟨htotal, hform, hheadline, hbody, htimer⟩ := plain_lines
  have hskips : ∀ {l : List String}, (∀ s ∈ l, Plain s) → Skips m.text (l.flatMap String.toList) :=
    fun hl => Skips.flatMap fun s hs => (hl s hs).skips m
  obtain ⟨hnewline, hspace⟩ := m.separators_notMem
  refine ⟨hskips htotal, ?_⟩
  unfold countdownTemplate
  simp only [List.forall_mem_cons]
  exact ⟨⟨hnewline, hskips hform⟩, ⟨hspace, hskips hheadline⟩, ⟨hspace, hskips hbody⟩,
    ⟨hspace, hskips htimer⟩, fun _ h => absurd h List.not_mem_nil⟩

/-! ## What is shown -/

/-- What each mark is replaced by. -/
def Mark.value (remainingSecs : ℤ) : Mark → List Char
  | .seconds => (toString (countdownSeconds remainingSecs)).toList
  | .brand => literal appName.toList
  | .headline => literal finalWarningHeadline.toList
  | .body => literal finalWarningBody.toList

theorem percent_notMem_value (remainingSecs : ℤ) (m : Mark) : '%' ∉ m.value remainingSecs := by
  have hliteral : ∀ v : List Char, '%' ∉ v → '%' ∉ literal v := by
    intro v hv hmem
    have hzero : v.countP (· == '%') = 0 :=
      List.countP_eq_zero.2 fun c hc h => hv (beq_iff_eq.1 h ▸ hc)
    have hcount : (literal v).countP (· == '%') = 0 := (countP_literal (by decide) v).trans hzero
    exact List.countP_eq_zero.1 hcount '%' hmem (beq_self_eq_true '%')
  cases m with
  | seconds => exact fun h => (isQuiet_intToString _ '%' h).2 rfl
  | brand => exact hliteral _ (notMem_toList_ofList (by decide))
  | headline => exact hliteral _ (notMem_toList_ofList (by decide))
  | body => exact hliteral _ (notMem_toList_ofList (by decide))

/-- The script is the template with the number of seconds and three constant literals. -/
theorem toList_showFinalWarning (remainingSecs : ℤ) :
    (showFinalWarning remainingSecs).toList = countdownTemplate.fill (Mark.value remainingSecs) := by
  have hplain : ∀ m j : Mark, ¬ m.text <:+: j.value remainingSecs :=
    fun m j => m.not_infix_of_notMem (percent_notMem_value remainingSecs j)
  have hstep : ∀ (m : Mark) (v : Mark → List Char), v m = m.text →
      (∀ j, j ≠ m → v j = j.text ∨ v j = j.value remainingSecs) →
      replaceAll m.text (m.value remainingSecs) (countdownTemplate.fill v) =
        countdownTemplate.fill (Function.update v m (m.value remainingSecs)) := by
    intro m v hm hv
    refine Template.replaceAll_fill_mark m.text_ne_nil (clear_countdownTemplate m) _ hm ?_
    intro j hj
    rcases hv j hj with h | h
    · rw [h]
      exact Mark.not_infix hj
    · rw [h]
      exact hplain m j
  unfold showFinalWarning
  rw [toList_replace, toList_replace, toList_replace, toList_replace, toList_powershellString,
    toList_powershellString, toList_powershellString, toList_finalWarningScript]
  change replaceAll (Mark.text .body) (Mark.value remainingSecs .body)
    (replaceAll (Mark.text .headline) (Mark.value remainingSecs .headline)
      (replaceAll (Mark.text .brand) (Mark.value remainingSecs .brand)
        (replaceAll (Mark.text .seconds) (Mark.value remainingSecs .seconds) _))) = _
  rw [hstep .seconds, hstep .brand, hstep .headline, hstep .body]
  · refine congrArg countdownTemplate.fill (funext fun m => ?_)
    cases m <;> rfl
  all_goals
    first
    | rfl
    | intro j hj
      cases j <;> first | exact absurd rfl hj | exact Or.inl rfl | exact Or.inr rfl

end Taymna.Agent.Windows
