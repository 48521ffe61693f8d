import Taymna.Agent.Warning
import Taymna.Text.Quoted

/-!
# The warning script of the Windows notifier (`agent/src/platform/windows.rs`)

`notify` puts the texts of a notice into `BALLOON_SCRIPT` by three replacements, each over the
result of the one before.  `TwoLiterals` is what that is for: the script is the template with two
single-quoted literals of the right value.  It holds exactly where the texts have neither a mark of
a later replacement nor a curly single quote, which PowerShell reads like `'`
(`twoLiterals_of_inert`, `inert_of_twoLiterals`).
-/

namespace Taymna.Agent.Windows

open Text

/-! ## The script -/

/-- `BALLOON_SCRIPT`. -/
def balloonScript : String :=
  String.join [
    "\n$ErrorActionPreference = 'Stop'\n",
    "Add-Type -AssemblyName System.Windows.Forms\n",
    "Add-Type -AssemblyName System.Drawing\n",
    "$tray = New-Object System.Windows.Forms.NotifyIcon\n",
    "$tray.Icon = [System.Drawing.SystemIcons]::Information\n",
    "$tray.BalloonTipIcon = [System.Windows.Forms.ToolTipIcon]::", "%%ICON%%", "\n",
    "$tray.BalloonTipTitle = ", "%%TITLE%%", "\n",
    "$tray.BalloonTipText = ", "%%BODY%%", "\n",
    "$tray.Visible = $true\n",
    "$tray.ShowBalloonTip(15000)\n",
    "Start-Sleep -Seconds 12\n",
    "$tray.Visible = $false\n",
    "$tray.Dispose()\n"]

/-- A single-quoted literal (`powershell_string`). -/
def powershellString (value : String) : String := "'" ++ replace value "'" "''" ++ "'"

/-- The icon of a notice. -/
def iconName : Urgency → String
  | .normal => "Info"
  | .critical => "Warning"

/-- The script `WindowsNotifier::notify` runs. -/
def notify (notice : Notice) : String :=
  replace
    (replace
      (replace balloonScript "%%TITLE%%" (powershellString notice.title))
      "%%BODY%%" (powershellString notice.body))
    "%%ICON%%" (iconName notice.urgency)

/-! ## Reading a literal -/

/-- The single quotes U+2018 to U+201B. -/
def isCurly (c : Char) : Bool := '\u2018' ≤ c && c ≤ '\u201B'

/-- What PowerShell counts as a single quote. -/
def isSingleQuote (c : Char) : Bool := c = '\'' || isCurly c

/-- The value of a literal opened by `'`, and what follows it. -/
def readLiteral : List Char → Option (List Char × List Char)
  | '\'' :: s => readQuoted isSingleQuote s
  | _ => none

/-- The text is one literal of this value. -/
def IsLiteral (text value : List Char) : Prop := readLiteral text = some (value, [])

/-! ## The template -/

/-- The lines before the icon's name. -/
def iconLines : List Char :=
  ["\n$ErrorActionPreference = 'Stop'\n",
    "Add-Type -AssemblyName System.Windows.Forms\n",
    "Add-Type -AssemblyName System.Drawing\n",
    "$tray = New-Object System.Windows.Forms.NotifyIcon\n",
    "$tray.Icon = [System.Drawing.SystemIcons]::Information\n",
    "$tray.BalloonTipIcon = [System.Windows.Forms.ToolTipIcon]::"].flatMap String.toList

def titleLine : List Char := "$tray.BalloonTipTitle = ".toList

def bodyLine : List Char := "$tray.BalloonTipText = ".toList

def lastLines : List Char :=
  ["$tray.Visible = $true\n", "$tray.ShowBalloonTip(15000)\n", "Start-Sleep -Seconds 12\n",
    "$tray.Visible = $false\n", "$tray.Dispose()\n"].flatMap String.toList

/-- The template around an icon name, a title and a body. -/
def fill (icon title body : List Char) : List Char :=
  iconLines ++ (icon ++ '\n' :: (titleLine ++ (title ++ '\n' :: (bodyLine ++
    (body ++ '\n' :: lastLines)))))

/-- The marks `%%ICON%%`, `%%TITLE%%` and `%%BODY%%`. -/
def iconMark : List Char := "%%ICON%%".toList

def titleMark : List Char := "%%TITLE%%".toList

def bodyMark : List Char := "%%BODY%%".toList

/-- Each mark stands in the template once. -/
theorem toList_balloonScript : balloonScript.toList = fill iconMark titleMark bodyMark := by
  have hnewline : "\n".toList = ['\n'] := by decide
  unfold balloonScript fill iconLines titleLine bodyLine lastLines iconMark titleMark bodyMark
  rw [String.toList_join]
  simp only [List.flatMap_cons, List.flatMap_nil, hnewline, List.append_assoc, List.cons_append,
    List.nil_append, -String.reduceToList]

/-- The marks are the only place with a `%`. -/
theorem percent_notMem_lines :
    '%' ∉ iconLines ∧ '%' ∉ titleLine ∧ '%' ∉ bodyLine ∧ '%' ∉ lastLines := by
  have hlines : ∀ {l : List String}, (∀ s ∈ l, '%' ∉ s.toList) → '%' ∉ l.flatMap String.toList := by
    intro l hl hmem
    obtain ⟨s, hs, hc⟩ := List.mem_flatMap.1 hmem
    exact hl s hs hc
  refine ⟨hlines ?_, notMem_toList_ofList (by decide), notMem_toList_ofList (by decide), hlines ?_⟩
  all_goals
    simp only [List.forall_mem_cons, -String.reduceToList]
    repeat' apply And.intro
    all_goals first | exact notMem_toList_ofList (by decide) | exact List.forall_mem_nil _

/-- The script is the template with two literals of the notice's texts. -/
def TwoLiterals (notice : Notice) : Prop :=
  ∃ title body, IsLiteral title notice.title.toList ∧ IsLiteral body notice.body.toList ∧
    (notify notice).toList = fill (iconName notice.urgency).toList title body

/-- The texts hold no mark that is still to be replaced, and no curly quote. -/
def Inert (notice : Notice) : Prop :=
  (∀ c ∈ notice.title.toList, isCurly c = false) ∧
  (∀ c ∈ notice.body.toList, isCurly c = false) ∧
  ¬ bodyMark <:+: notice.title.toList ∧
  ¬ iconMark <:+: notice.title.toList ∧
  ¬ iconMark <:+: notice.body.toList

/-! ## What the replacements make of the template -/

theorem replaceAll_fill {p : List Char} (hp : p ≠ []) (hhead : p.head hp = '%') (hline : '\n' ∉ p)
    (r icon title body : List Char) :
    replaceAll p r (fill icon title body) =
      fill (replaceAll p r icon) (replaceAll p r title) (replaceAll p r body) := by
  have hkeep : ∀ a : List Char, '%' ∉ a → ∀ b, replaceAll p r (a ++ b) = a ++ replaceAll p r b :=
    fun a ha b => replaceAll_append_of_notMem hp (by rwa [hhead]) r b
  obtain ⟨hicon, htitle, hbody, hlastLines⟩ := percent_notMem_lines
  have hlast : replaceAll p r lastLines = lastLines := by
    have := hkeep lastLines hlastLines []
    rwa [List.append_nil, replaceAll_nil, List.append_nil] at this
  unfold fill
  rw [hkeep iconLines hicon, replaceAll_append_sep hp hline, hkeep titleLine htitle,
    replaceAll_append_sep hp hline, hkeep bodyLine hbody, replaceAll_append_sep hp hline, hlast]

/-- The literal of a text. -/
def literal (v : List Char) : List Char := '\'' :: (double '\'' v ++ ['\''])

theorem toList_powershellString (value : String) :
    (powershellString value).toList = literal value.toList := by
  have hquote : "'".toList = ['\''] := by decide
  have hpair : "''".toList = ['\'', '\''] := by decide
  simp only [powershellString, String.toList_append, toList_replace, hquote, hpair,
    replaceAll_singleton]
  rfl

theorem iconMark_ne_nil : iconMark ≠ [] := by decide

theorem titleMark_ne_nil : titleMark ≠ [] := by decide

theorem bodyMark_ne_nil : bodyMark ≠ [] := by decide

/-- The three replacements, each where it has an effect. -/
theorem toList_notify (notice : Notice) :
    (notify notice).toList =
      fill (iconName notice.urgency).toList
        (replaceAll iconMark (iconName notice.urgency).toList
          (replaceAll bodyMark (literal notice.body.toList) (literal notice.title.toList)))
        (replaceAll iconMark (iconName notice.urgency).toList (literal notice.body.toList)) := by
  have htitle : ∀ r, replaceAll titleMark r (fill iconMark titleMark bodyMark) =
      fill iconMark r bodyMark := by
    intro r
    rw [replaceAll_fill titleMark_ne_nil (by decide) (by decide), replaceAll_self titleMark_ne_nil,
      replaceAll_eq_self r (by decide), replaceAll_eq_self r (by decide)]
  have hbody : ∀ r title, replaceAll bodyMark r (fill iconMark title bodyMark) =
      fill iconMark (replaceAll bodyMark r title) r := by
    intro r title
    rw [replaceAll_fill bodyMark_ne_nil (by decide) (by decide), replaceAll_self bodyMark_ne_nil,
      replaceAll_eq_self r (by decide)]
  unfold notify
  rw [toList_replace, toList_replace, toList_replace, toList_powershellString,
    toList_powershellString, toList_balloonScript]
  change replaceAll iconMark _ (replaceAll bodyMark _ (replaceAll titleMark _ _)) = _
  rw [htitle, hbody, replaceAll_fill iconMark_ne_nil (by decide) (by decide),
    replaceAll_self iconMark_ne_nil]

/-! ## Literals -/

theorem isLiteral_iff {text value : List Char} :
    IsLiteral text value ↔ ∃ s, text = '\'' :: s ∧ Reads isSingleQuote s value [] := by
  constructor
  · intro h
    unfold IsLiteral readLiteral at h
    split at h
    · exact ⟨_, rfl, readQuoted_eq_some_iff.1 h⟩
    · cases h
  · rintro ⟨s, rfl, h⟩
    exact readQuoted_eq_some_iff.2 h

theorem isSingleQuote_quote : isSingleQuote '\'' = true := by decide

theorem eq_quote_of_not_curly {c : Char} (h : isCurly c = false) (hq : isSingleQuote c = true) :
    c = '\'' := by
  simpa [isSingleQuote, h] using hq

/-- Reading on behind a text without curly quotes. -/
theorem readQuoted_append {x : List Char} (hx : ∀ c ∈ x, isCurly c = false) (s : List Char) :
    readQuoted isSingleQuote (double '\'' x ++ s) =
      (readQuoted isSingleQuote s).map fun y => (x ++ y.1, y.2) :=
  readQuoted_double isSingleQuote_quote (fun c hc hq => eq_quote_of_not_curly (hx c hc) hq) s

theorem isLiteral_literal {v : List Char} (hv : ∀ c ∈ v, isCurly c = false) :
    IsLiteral (literal v) v := by
  show readQuoted isSingleQuote (double '\'' v ++ ['\'']) = _
  rw [readQuoted_append hv, readQuoted_close isSingleQuote_quote (by simp)]
  simp

/-- What is read back behind a text without curly quotes. -/
theorem reads_of_append {x s y : List Char} (hx : ∀ c ∈ x, isCurly c = false)
    (h : Reads isSingleQuote (double '\'' x ++ s) (x ++ y) []) : Reads isSingleQuote s y [] := by
  have hr := h.readQuoted_eq
  rw [readQuoted_append hx, Option.map_eq_some_iff] at hr
  obtain ⟨⟨w, t⟩, hw, heq⟩ := hr
  obtain ⟨hxy, rfl⟩ := Prod.ext_iff.1 heq
  obtain rfl : w = y := List.append_cancel_left hxy
  exact reads_of_readQuoted _ hw

theorem countP_literal {f : Char → Bool} (hf : f '\'' = false) (v : List Char) :
    (literal v).countP f = v.countP f := by
  simp [literal, countP_double hf, hf]

theorem IsLiteral.countP {f : Char → Bool} {text value : List Char} (h : IsLiteral text value)
    (hf : ∀ c, isSingleQuote c = true → f c = false) : text.countP f = value.countP f := by
  obtain ⟨s, rfl, hr⟩ := isLiteral_iff.1 h
  simpa [hf _ isSingleQuote_quote] using hr.countP_add hf

theorem isCurly_quote : isCurly '\'' = false := by decide

theorem exists_first_curly {v : List Char} (h : ¬ ∀ c ∈ v, isCurly c = false) :
    ∃ x c y, v = x ++ c :: y ∧ isCurly c = true ∧ ∀ d ∈ x, isCurly d = false := by
  induction v with
  | nil => simp at h
  | cons d v ih =>
    by_cases hd : isCurly d = true
    · exact ⟨[], d, v, rfl, hd, by simp⟩
    · have hd : isCurly d = false := Bool.eq_false_iff.2 hd
      obtain ⟨x, c, y, rfl, hc, hx⟩ := ih fun hv => h (List.forall_mem_cons.2 ⟨hd, hv⟩)
      exact ⟨d :: x, c, y, rfl, hc, List.forall_mem_cons.2 ⟨hd, hx⟩⟩

/-- A curly quote that is not doubled is not read back. -/
theorem countP_lt_of_curly {x y s : List Char} {c : Char} (hx : ∀ d ∈ x, isCurly d = false)
    (hc : isCurly c = true)
    (h : Reads isSingleQuote (double '\'' x ++ c :: s) (x ++ c :: y) []) :
    (x ++ c :: y).countP isCurly < (double '\'' x ++ c :: s).countP isCurly := by
  have hquote : isSingleQuote c = true := by simp [isSingleQuote, hc]
  have hlt := (reads_of_append hx h).countP_lt (f := isCurly) hquote hc
  rw [List.countP_append, List.countP_append, countP_double isCurly_quote]
  omega

/-- The literal of a text with a curly quote in it has another value. -/
theorem not_curly_of_isLiteral {v : List Char} (h : IsLiteral (literal v) v) :
    ∀ c ∈ v, isCurly c = false := by
  by_contra hcurly
  obtain ⟨x, c, y, rfl, hc, hx⟩ := exists_first_curly hcurly
  obtain ⟨s, hs, hr⟩ := isLiteral_iff.1 h
  have hcount := countP_literal isCurly_quote (x ++ c :: y)
  have hne : c ≠ '\'' := by rintro rfl; exact absurd hc (by decide)
  rw [literal, List.cons.injEq] at hs
  obtain ⟨-, rfl⟩ := hs
  rw [double_append, double_cons hne, List.append_assoc, List.cons_append] at hr
  have hlt := countP_lt_of_curly hx hc hr
  rw [literal, double_append, double_cons hne, List.append_assoc, List.cons_append,
    List.countP_cons] at hcount
  omega

/-- A run without quotes in a text is one of the text its literal is made of. -/
theorem infix_of_infix_literal {p v : List Char} (hp : p ≠ []) (hquote : '\'' ∉ p)
    (h : p <:+: literal v) : p <:+: v := by
  have hend : ¬ p <:+: [] := fun hnil => hp (List.infix_nil.1 hnil)
  have hin := (List.infix_cons_iff.1 h).resolve_left (not_prefix_cons hquote hp)
  exact infix_double hquote hp (((infix_append_sep hquote).1 hin).resolve_right hend)

/-- A run without quotes in the value of a literal stands in the literal. -/
theorem IsLiteral.isInfix {p text value : List Char} (h : IsLiteral text value)
    (hp : ∀ c ∈ p, isSingleQuote c = false) (hv : p <:+: value) : p <:+: text := by
  obtain ⟨s, rfl, hr⟩ := isLiteral_iff.1 h
  exact List.infix_cons (hr.isInfix_of_isInfix hp hv)

theorem quote_notMem_iconMark : '\'' ∉ iconMark := by decide

theorem quote_notMem_bodyMark : '\'' ∉ bodyMark := by decide

/-! ## Where the script is the template -/

theorem twoLiterals_of_inert {notice : Notice} (h : Inert notice) : TwoLiterals notice := by
  obtain ⟨htitle, hbody, hbm, him, himb⟩ := h
  refine ⟨_, _, isLiteral_literal htitle, isLiteral_literal hbody, ?_⟩
  have hfirst := replaceAll_eq_self (literal notice.body.toList) fun hin =>
    hbm (infix_of_infix_literal bodyMark_ne_nil quote_notMem_bodyMark hin)
  have hsecond := replaceAll_eq_self (iconName notice.urgency).toList fun hin =>
    him (infix_of_infix_literal iconMark_ne_nil quote_notMem_iconMark hin)
  have hthird := replaceAll_eq_self (iconName notice.urgency).toList fun hin =>
    himb (infix_of_infix_literal iconMark_ne_nil quote_notMem_iconMark hin)
  rw [toList_notify, hfirst, hsecond, hthird]

/-- The last replacement leaves no mark of its own. -/
theorem not_infix_notify (notice : Notice) : ¬ iconMark <:+: (notify notice).toList := by
  unfold notify
  rw [toList_replace]
  refine not_infix_replaceAll iconMark_ne_nil ?_ ?_ ?_ _
  · cases notice.urgency <;> decide
  · cases notice.urgency <;> decide
  · exact ⟨'n', by cases notice.urgency <;> decide, by decide⟩

theorem newline_of_isSingleQuote (c : Char) (h : isSingleQuote c = true) : (c == '\n') = false := by
  by_contra hc
  obtain rfl : c = '\n' := by simpa using hc
  exact absurd h (by decide)

/-- The line between the two literals cannot have moved: nothing else in them is that long. -/
theorem eq_nil_of_shift {x y w : List Char} (hcount : x.countP (· == '\n') = y.countP (· == '\n'))
    (h : '\n' :: (bodyLine ++ x) = w ++ '\n' :: (bodyLine ++ y)) : w = [] := by
  cases w with
  | nil => rfl
  | cons c w =>
    rw [List.cons_append, List.cons.injEq] at h
    rcases List.append_eq_append_iff.1 h.2 with ⟨u, rfl, rfl⟩ | ⟨u, hline, hu⟩
    · simp at hcount
      omega
    · cases u with
      | nil =>
        rw [List.nil_append] at hu
        rw [← hu] at hcount
        simp at hcount
        omega
      | cons d u =>
        obtain ⟨rfl, -⟩ := List.cons.inj hu
        have hmem : '\n' ∈ bodyLine := by rw [hline]; simp
        exact absurd hmem (by decide)

/-- Two literals of the right value are the ones the replacements have put in. -/
theorem eq_of_fill_eq {icon title title' body body' : List Char}
    (hcount : body.countP (· == '\n') = body'.countP (· == '\n'))
    (h : fill icon title' body' = fill icon title body) : title' = title ∧ body' = body := by
  have hmid : title' ++ '\n' :: (bodyLine ++ body') = title ++ '\n' :: (bodyLine ++ body) := by
    unfold fill at h
    have h := List.append_cancel_left (List.append_cancel_left h)
    rw [List.cons.injEq] at h
    have h := List.append_cancel_left h.2
    have hend : (title' ++ '\n' :: (bodyLine ++ body')) ++ '\n' :: lastLines =
        (title ++ '\n' :: (bodyLine ++ body)) ++ '\n' :: lastLines := by simpa using h
    exact List.append_cancel_right hend
  rcases List.append_eq_append_iff.1 hmid with ⟨w, rfl, hw⟩ | ⟨w, rfl, hw⟩
  · obtain rfl := eq_nil_of_shift hcount.symm hw
    simpa using hw
  · obtain rfl := eq_nil_of_shift hcount hw
    simpa using hw.symm

/-- Where the title has the mark of the body, the body's literal is opened inside the title's. -/
theorem exists_opened (icon body : List Char) {title : List Char} (him : ¬ iconMark <:+: title)
    (hbm : bodyMark <:+: title) :
    ∃ a b w, title = a ++ bodyMark ++ b ∧
      replaceAll iconMark icon (replaceAll bodyMark (literal body) (literal title)) =
        '\'' :: (double '\'' a ++ '\'' :: w) := by
  obtain ⟨a, b, htitle, hrep⟩ := exists_first_double quote_notMem_bodyMark bodyMark_ne_nil hbm
  have hkeep : replaceAll iconMark icon (double '\'' a) = double '\'' a :=
    replaceAll_eq_self icon fun hin => him <|
      (infix_double quote_notMem_iconMark iconMark_ne_nil hin).trans <| by
        rw [htitle, List.append_assoc]
        exact List.infix_append_left
  have hbody : replaceAll bodyMark (literal body) (literal title) =
      '\'' :: (double '\'' a ++ '\'' :: (double '\'' body ++ '\'' ::
        (replaceAll bodyMark (literal body) (double '\'' b) ++ ['\'']))) := by
    rw [literal.eq_def title,
      replaceAll_cons _ (not_prefix_cons quote_notMem_bodyMark bodyMark_ne_nil),
      replaceAll_append_sep bodyMark_ne_nil quote_notMem_bodyMark, hrep]
    simp [literal]
  refine ⟨a, b, replaceAll iconMark icon (double '\'' body ++ '\'' ::
    (replaceAll bodyMark (literal body) (double '\'' b) ++ ['\''])), htitle, ?_⟩
  rw [hbody, replaceAll_cons _ (not_prefix_cons quote_notMem_iconMark iconMark_ne_nil),
    replaceAll_append_sep iconMark_ne_nil quote_notMem_iconMark, hkeep]

/-- A title with the mark of the body in it comes apart where the body's literal is opened. -/
theorem not_bodyMark_of_isLiteral {icon title body : List Char}
    (hicon : icon.countP isCurly = 0) (hbody : ∀ c ∈ body, isCurly c = false)
    (him : ¬ iconMark <:+: title)
    (h : IsLiteral (replaceAll iconMark icon (replaceAll bodyMark (literal body) (literal title)))
      title) : ¬ bodyMark <:+: title := by
  intro hbm
  have hcount : (replaceAll iconMark icon
      (replaceAll bodyMark (literal body) (literal title))).countP isCurly =
      title.countP isCurly := by
    have hlit : (literal body).countP isCurly = 0 := by
      rw [countP_literal isCurly_quote, List.countP_eq_zero]
      exact fun c hc => by simp [hbody c hc]
    rw [countP_replaceAll isCurly iconMark_ne_nil (hicon.trans (by decide)),
      countP_replaceAll isCurly bodyMark_ne_nil (hlit.trans (by decide)),
      countP_literal isCurly_quote]
  obtain ⟨a, b, w, htitle, hw⟩ := exists_opened icon body him hbm
  rw [hw] at h hcount
  obtain ⟨s, hs, hr⟩ := isLiteral_iff.1 h
  obtain ⟨-, rfl⟩ := List.cons.inj hs
  rw [htitle, List.append_assoc] at hr
  by_cases hcurly : ∀ c ∈ a, isCurly c = false
  · -- the quote ends the literal or stands for itself, and the title goes on with the mark
    have hmark := (reads_of_append hcurly hr).head isSingleQuote_quote
    exact absurd hmark (by decide)
  · -- the first curly quote of the title is lost
    obtain ⟨x, c, y, rfl, hc, hx⟩ := exists_first_curly hcurly
    have hne : c ≠ '\'' := by rintro rfl; exact absurd hc (by decide)
    rw [double_append, double_cons hne, List.append_assoc, List.append_assoc, List.cons_append,
      List.cons_append] at hr
    have hlt := countP_lt_of_curly hx hc hr
    rw [htitle] at hcount
    simp only [double_append, double_cons hne, List.append_assoc, List.cons_append,
      List.countP_cons, isCurly_quote] at hcount hlt
    simp at hcount hlt
    omega

theorem title_infix_fill (icon title body : List Char) : title <:+: fill icon title body :=
  ⟨iconLines ++ icon ++ '\n' :: titleLine, '\n' :: (bodyLine ++ (body ++ '\n' :: lastLines)), by
    simp [fill]⟩

theorem body_infix_fill (icon title body : List Char) : body <:+: fill icon title body :=
  ⟨iconLines ++ icon ++ '\n' :: titleLine ++ title ++ '\n' :: bodyLine, '\n' :: lastLines, by
    simp [fill]⟩

theorem inert_of_twoLiterals {notice : Notice} (h : TwoLiterals notice) : Inert notice := by
  obtain ⟨title, body, htitle, hbody, hfill⟩ := h
  have hnone := not_infix_notify notice
  have hplain : ∀ c ∈ iconMark, isSingleQuote c = false := by
    have hall : iconMark.all (fun c => !isSingleQuote c) = true := by decide
    simpa using hall
  rw [hfill] at hnone
  have him : ¬ iconMark <:+: notice.title.toList := fun hin =>
    hnone ((htitle.isInfix hplain hin).trans (title_infix_fill _ _ _))
  have himb : ¬ iconMark <:+: notice.body.toList := fun hin =>
    hnone ((hbody.isInfix hplain hin).trans (body_infix_fill _ _ _))
  have hkeep : replaceAll iconMark (iconName notice.urgency).toList (literal notice.body.toList) =
      literal notice.body.toList := replaceAll_eq_self _ fun hin =>
    himb (infix_of_infix_literal iconMark_ne_nil quote_notMem_iconMark hin)
  rw [toList_notify, hkeep] at hfill
  have hcount : body.countP (· == '\n') = (literal notice.body.toList).countP (· == '\n') := by
    rw [hbody.countP newline_of_isSingleQuote, countP_literal (by decide)]
  obtain ⟨rfl, rfl⟩ := eq_of_fill_eq hcount hfill
  have hcurly := not_curly_of_isLiteral hbody
  have hicon : (iconName notice.urgency).toList.countP isCurly = 0 := by
    cases notice.urgency <;> decide
  have hbm := not_bodyMark_of_isLiteral hicon hcurly him htitle
  rw [replaceAll_eq_self (literal notice.body.toList) fun hin =>
      hbm (infix_of_infix_literal bodyMark_ne_nil quote_notMem_bodyMark hin),
    replaceAll_eq_self (iconName notice.urgency).toList fun hin =>
      him (infix_of_infix_literal iconMark_ne_nil quote_notMem_iconMark hin)] at htitle
  exact ⟨not_curly_of_isLiteral htitle, hcurly, hbm, him, himb⟩

/-- The script is the template with two literals exactly for texts that hold neither a curly
quote nor a mark of a later replacement. -/
theorem twoLiterals_iff_inert (notice : Notice) : TwoLiterals notice ↔ Inert notice :=
  ⟨inert_of_twoLiterals, twoLiterals_of_inert⟩

/-- A title after the pattern of the tests, with curly quotes: what follows the first one is
script. -/
def quotedTitle : Notice where
  title := "\u2019; Start-Process calc; \u2018"
  body := "Save your work."
  urgency := .normal

theorem quotedTitle_not_twoLiterals : ¬ TwoLiterals quotedTitle := by
  intro h
  have hcurly := (inert_of_twoLiterals h).1 '\u2019' (by decide)
  exact absurd hcurly (by decide)

/-! ## The notices of the countdown -/

/-- Neither a curly quote nor the character every mark begins with. -/
def IsQuiet (s : List Char) : Prop := ∀ c ∈ s, isCurly c = false ∧ c ≠ '%'

instance (s : List Char) : Decidable (IsQuiet s) :=
  List.decidableBAll (fun c => isCurly c = false ∧ c ≠ '%') s

theorem IsQuiet.append {s t : List Char} (hs : IsQuiet s) (ht : IsQuiet t) : IsQuiet (s ++ t) :=
  fun c hc => (List.mem_append.1 hc).elim (hs c) (ht c)

theorem isQuiet_toList_ofList {s : List Char} (h : IsQuiet s) : IsQuiet (String.ofList s).toList := by
  rwa [String.toList_ofList]

theorem inert_of_isQuiet {notice : Notice} (htitle : IsQuiet notice.title.toList)
    (hbody : IsQuiet notice.body.toList) : Inert notice := by
  have hnone : ∀ {p s : List Char}, '%' ∈ p → IsQuiet s → ¬ p <:+: s := fun hp hs hin =>
    (hs '%' (hin.subset hp)).2 rfl
  exact ⟨fun c hc => (htitle c hc).1, fun c hc => (hbody c hc).1, hnone (by decide) htitle,
    hnone (by decide) htitle, hnone (by decide) hbody⟩

theorem isQuiet_of_isDigit {c : Char} (h : c.isDigit = true) : isCurly c = false ∧ c ≠ '%' := by
  have hdigit : 48 ≤ c.toNat ∧ c.toNat ≤ 57 := by
    simpa [Char.isDigit, UInt32.le_iff_toNat_le] using h
  refine ⟨Bool.eq_false_iff.2 fun hcurly => ?_, ?_⟩
  · rw [isCurly, Bool.and_eq_true, decide_eq_true_eq] at hcurly
    have hle : 0x2018 ≤ c.toNat := UInt32.le_iff_toNat_le.1 hcurly.1
    omega
  · rintro rfl
    exact absurd hdigit.1 (by decide)

theorem isQuiet_natToString (n : ℕ) : IsQuiet (toString n).toList := by
  intro c hc
  rw [Nat.toString_eq_repr, Nat.toList_repr] at hc
  exact isQuiet_of_isDigit (Nat.isDigit_of_mem_toDigits (by decide) (by decide) hc)

theorem isQuiet_intToString : ∀ n : ℤ, IsQuiet (toString n).toList
  | .ofNat n => isQuiet_natToString n
  | .negSucc n => by
    have hsign : IsQuiet "-".toList := by decide
    show IsQuiet ("-" ++ toString (n + 1)).toList
    rw [String.toList_append]
    exact hsign.append (isQuiet_natToString (n + 1))

theorem noticeFor_inert (level : Level) (remaining : ℤ) : Inert (noticeFor level remaining) := by
  have hplural : ∀ n : ℤ, IsQuiet (if n = 1 then "" else "s").toList := by
    intro n
    split_ifs <;> decide
  have hminute : IsQuiet " minute".toList := by decide
  have hremaining : IsQuiet " remaining".toList := by decide
  have htitle : IsQuiet (noticeFor level remaining).title.toList := by
    have h := (((isQuiet_intToString ((remaining + 30).tdiv 60)).append hminute).append
      (hplural ((remaining + 30).tdiv 60))).append hremaining
    simp only [← String.toList_append] at h
    cases level <;> exact h
  have hbody : IsQuiet (noticeFor level remaining).body.toList := by
    have hconst : (noticeFor level remaining).body = (noticeFor level 0).body := by
      cases level <;> rfl
    rw [hconst]
    cases level <;> exact isQuiet_toList_ofList (by decide)
  exact inert_of_isQuiet htitle hbody

/-- Every notice of the countdown is shown as it is. -/
theorem noticeFor_twoLiterals (level : Level) (remaining : ℤ) :
    TwoLiterals (noticeFor level remaining) := twoLiterals_of_inert (noticeFor_inert level remaining)

end Taymna.Agent.Windows
