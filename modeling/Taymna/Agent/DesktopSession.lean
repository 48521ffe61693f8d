import Mathlib.Data.List.Nodup
import Taymna.Text.Lines

/-!
# Who sits at the desktop (`agent/src/platform/linux.rs`)

`active_desktop_session` asks logind for its sessions and then for four properties of each of them in
turn. Only what stands in the columns of `list-sessions` first is taken by its position. From the
answers that logind gives about its sessions, the agent finds the first one that is active and
graphical, and its owner (`activeDesktopSession_listed`).
-/

namespace Taymna.Agent.Linux

open Text

/-- Who sits at the desktop. -/
structure DesktopSession where
  user : List Char
  uid : ℕ
deriving DecidableEq, Repr

/-- What a command that could be run has left: whether it succeeded, and its output. -/
structure Output where
  success : Bool
  stdout : List Char
deriving DecidableEq, Repr

/-- The two questions to `loginctl`; `none` when it cannot be run. -/
structure Loginctl where
  listSessions : Option Output
  showSession : List Char → Option Output

/-- Whether the properties are those of an active graphical session. -/
def isActiveGraphical (properties : List Char) : Bool :=
  property properties "Active".toList = some "yes".toList &&
    [some "x11".toList, some "wayland".toList, some "mir".toList].contains
      (property properties "Type".toList)

/-- The owner that the properties name. -/
def owner (properties : List Char) : Option DesktopSession := do
  let user ← property properties "Name".toList
  let uid ← property properties "User".toList
  let uid ← parseU32 uid
  some { user := user, uid := uid }

/-- The loop over the listed sessions. -/
def findSession (loginctl : Loginctl) : List (List Char) → Option DesktopSession
  | [] => none
  | id :: ids =>
    match loginctl.showSession id with
    | none => none
    | some output =>
      if output.success then
        if isActiveGraphical output.stdout then owner output.stdout else findSession loginctl ids
      else findSession loginctl ids

/-- `active_desktop_session`. -/
def activeDesktopSession (loginctl : Loginctl) : Option DesktopSession :=
  match loginctl.listSessions with
  | none => none
  | some listed =>
    if listed.success then findSession loginctl ((lines listed.stdout).filterMap firstWord) else none

/-! ## Any answers -/

/-- A session that the loop passes over. -/
def PassedOver (loginctl : Loginctl) (id : List Char) : Prop :=
  ∃ output, loginctl.showSession id = some output ∧
    (output.success = true → isActiveGraphical output.stdout = false)

/-- A desktop session that is found belongs to a listed session which logind calls active and
graphical, and there is no such session before it. -/
theorem findSession_eq_some {loginctl : Loginctl} {ids : List (List Char)} {session : DesktopSession}
    (h : findSession loginctl ids = some session) :
    ∃ before id after output, ids = before ++ id :: after ∧
      (∀ id' ∈ before, PassedOver loginctl id') ∧ loginctl.showSession id = some output ∧
      output.success = true ∧ isActiveGraphical output.stdout = true ∧
      owner output.stdout = some session := by
  induction ids with
  | nil => cases h
  | cons id ids ih =>
    rw [findSession] at h
    cases hshow : loginctl.showSession id with
    | none =>
      rw [hshow] at h
      cases h
    | some output =>
      rw [hshow] at h
      have further : PassedOver loginctl id → findSession loginctl ids = some session →
          ∃ before id' after output, id :: ids = before ++ id' :: after ∧
            (∀ id' ∈ before, PassedOver loginctl id') ∧ loginctl.showSession id' = some output ∧
            output.success = true ∧ isActiveGraphical output.stdout = true ∧
            owner output.stdout = some session := by
        intro hpass hfind
        obtain ⟨before, id', after, output, rfl, hbefore, hrest⟩ := ih hfind
        refine ⟨id :: before, id', after, output, rfl, ?_, hrest⟩
        exact List.forall_mem_cons.2 ⟨hpass, hbefore⟩
      dsimp only at h
      split_ifs at h with hsuccess hactive
      · exact ⟨[], id, ids, output, rfl, fun _ h => absurd h List.not_mem_nil, hshow, hsuccess,
          hactive, h⟩
      · exact further ⟨output, hshow, fun _ => by simpa using hactive⟩ h
      · exact further ⟨output, hshow, fun hs => absurd hs hsuccess⟩ h

/-! ## The answers of logind -/

/-- A session as logind holds it: its line in the list, its id there, and the properties it shows,
unless the session is gone by the time they are asked for. -/
structure Listed where
  blank : List Char
  id : List Char
  columns : List Char
  properties : Option (List (List Char × List Char))

/-- The line has the id as its first word, and no property spoils the line of another. -/
structure Listed.WellFormed (s : Listed) : Prop where
  blank : ∀ c ∈ s.blank, isWhitespace c = true
  id : s.id ≠ [] ∧ ∀ c ∈ s.id, isWhitespace c = false
  columns : ∀ c ∈ s.columns.head?, isWhitespace c = true
  line : IsLine (s.blank ++ s.id ++ s.columns)
  properties : ∀ entries, s.properties = some entries →
    ∀ entry ∈ entries, '=' ∉ entry.1 ∧ IsLine (entry.1 ++ '=' :: entry.2)

/-- Active, and graphical. -/
def Listed.AtDesktop (s : Listed) : Bool :=
  s.properties.any fun entries => entries.lookup "Active".toList = some "yes".toList &&
    [some "x11".toList, some "wayland".toList, some "mir".toList].contains
      (entries.lookup "Type".toList)

/-- Who owns it. -/
def Listed.owner (s : Listed) : Option DesktopSession := do
  let entries ← s.properties
  let user ← entries.lookup "Name".toList
  let uid ← entries.lookup "User".toList
  let uid ← parseU32 uid
  some { user := user, uid := uid }

/-- The answers about these sessions. -/
def answers (sessions : List Listed) : Loginctl where
  listSessions := some
    { success := true, stdout := unlines (sessions.map fun s => s.blank ++ s.id ++ s.columns) }
  showSession id := some <|
    match (sessions.find? fun s => s.id = id).bind Listed.properties with
    | some entries => { success := true, stdout := table entries }
    | none => { success := false, stdout := [] }

theorem isActiveGraphical_table {s : Listed} (hs : s.WellFormed)
    {entries : List (List Char × List Char)} (h : s.properties = some entries) :
    isActiveGraphical (table entries) = s.AtDesktop := by
  unfold isActiveGraphical Listed.AtDesktop
  rw [property_table (hs.properties entries h) (by decide),
    property_table (hs.properties entries h) (by decide), h]
  rfl

theorem owner_table {s : Listed} (hs : s.WellFormed) {entries : List (List Char × List Char)}
    (h : s.properties = some entries) : Linux.owner (table entries) = s.owner := by
  unfold Linux.owner Listed.owner
  rw [property_table (hs.properties entries h) (by decide),
    property_table (hs.properties entries h) (by decide), h]
  rfl

/-- What the loop does with a list of sessions whose answers it gets. -/
theorem findSession_ids {loginctl : Loginctl} {sessions : List Listed}
    (hwf : ∀ s ∈ sessions, s.WellFormed)
    (hshow : ∀ s ∈ sessions, loginctl.showSession s.id = some
      (match s.properties with
        | some entries => { success := true, stdout := table entries }
        | none => { success := false, stdout := [] })) :
    findSession loginctl (sessions.map Listed.id) =
      (sessions.find? Listed.AtDesktop).bind Listed.owner := by
  induction sessions with
  | nil => rfl
  | cons s sessions ih =>
    have hs := hwf s List.mem_cons_self
    have hrest := ih (fun s hs => hwf s (List.mem_cons_of_mem _ hs))
      fun s hs => hshow s (List.mem_cons_of_mem _ hs)
    rw [List.map_cons, findSession, hshow s List.mem_cons_self, List.find?_cons]
    cases hp : s.properties with
    | none =>
      have hgone : s.AtDesktop = false := by simp [Listed.AtDesktop, hp]
      simpa [hgone] using hrest
    | some entries =>
      have hactive := isActiveGraphical_table hs hp
      cases hd : s.AtDesktop with
      | false => simpa [hactive, hd] using hrest
      | true => simp [hactive, hd, owner_table hs hp]

/-- From logind's answers about its sessions, each under an id of its own, the agent finds the owner
of the first session that is active and graphical. -/
theorem activeDesktopSession_listed {sessions : List Listed} (hwf : ∀ s ∈ sessions, s.WellFormed)
    (hids : (sessions.map Listed.id).Nodup) :
    activeDesktopSession (answers sessions) =
      (sessions.find? Listed.AtDesktop).bind Listed.owner := by
  have hwords : (lines (unlines (sessions.map fun s => s.blank ++ s.id ++ s.columns))).filterMap
      firstWord = sessions.map Listed.id := by
    rw [lines_unlines]
    · rw [List.filterMap_map]
      have hword : ∀ s ∈ sessions,
          (firstWord ∘ fun s : Listed => s.blank ++ s.id ++ s.columns) s = some s.id :=
        fun s hs => firstWord_append (hwf s hs).blank (hwf s hs).id.1 (hwf s hs).id.2
          (hwf s hs).columns
      rw [List.filterMap_congr hword]
      exact List.filterMap_eq_map ▸ rfl
    · intro l hl
      obtain ⟨s, hs, rfl⟩ := List.mem_map.1 hl
      exact (hwf s hs).line
  have hfind : ∀ s ∈ sessions, sessions.find? (fun s' => s'.id = s.id) = some s := by
    intro s hs
    cases hf : sessions.find? (fun s' => s'.id = s.id) with
    | none => exact absurd (List.find?_eq_none.1 hf s hs) (by simp)
    | some s' =>
      have hid : s'.id = s.id := by simpa using List.find?_some hf
      exact congrArg some (List.inj_on_of_nodup_map hids (List.mem_of_find?_eq_some hf) hs hid)
  show (if true = true then findSession (answers sessions) _ else none) = _
  rw [if_pos rfl]
  show findSession (answers sessions) ((lines (unlines _)).filterMap firstWord) = _
  rw [hwords]
  refine findSession_ids hwf fun s hs => ?_
  show some (match (sessions.find? fun s' => s'.id = s.id).bind Listed.properties with
    | some entries => _
    | none => _) = _
  rw [hfind s hs, Option.bind_some]

/-- A session that is gone, one on a text console, and the one at the desk. -/
def desk : List Listed :=
  [{ blank := [' '], id := ['c', '1'], columns := [], properties := none },
    { blank := [' '], id := ['2'], columns := [' ', '0'],
      properties := some [("Name".toList, "root".toList), ("User".toList, "0".toList),
        ("Active".toList, "yes".toList), ("Type".toList, "tty".toList)] },
    { blank := [' '], id := ['3'], columns := [' ', '1'],
      properties := some [("Name".toList, "ana".toList), ("User".toList, "1000".toList),
        ("Active".toList, "yes".toList), ("Type".toList, "wayland".toList)] }]

theorem activeDesktopSession_desk :
    activeDesktopSession (answers desk) = (desk.find? Listed.AtDesktop).bind Listed.owner ∧
      (desk.find? Listed.AtDesktop).bind Listed.owner = some { user := "ana".toList, uid := 1000 } := by
  refine ⟨activeDesktopSession_listed (fun s hs => ?_) (by decide), by decide⟩
  have hline : ∀ l : List Char, l.all (· != '\n') = true → l.getLast? ≠ some '\r' → IsLine l :=
    fun l hall hlast => ⟨fun h => by simpa using List.all_eq_true.1 hall _ h, hlast⟩
  have hkeys : ∀ entries : List (List Char × List Char),
      (entries.all fun e => !e.1.contains '=' && (e.1 ++ '=' :: e.2).all (· != '\n') &&
        (e.1 ++ '=' :: e.2).getLast? != some '\r') = true →
      ∀ e ∈ entries, '=' ∉ e.1 ∧ IsLine (e.1 ++ '=' :: e.2) := by
    intro entries hall e he
    have hentry := List.all_eq_true.1 hall e he
    simp only [Bool.and_eq_true, Bool.not_eq_true', bne_iff_ne] at hentry
    exact ⟨by simpa using hentry.1.1, hline _ hentry.1.2 hentry.2⟩
  have hwords : ∀ l : List Char, (l.all fun c => !isWhitespace c) = true →
      ∀ c ∈ l, isWhitespace c = false :=
    fun l hall c hc => by simpa using List.all_eq_true.1 hall c hc
  unfold desk at hs
  simp only [List.mem_cons, List.not_mem_nil, or_false] at hs
  obtain rfl | rfl | rfl := hs
  · exact
      { blank := List.all_eq_true.1 (by decide)
        id := ⟨by decide, hwords _ (by decide)⟩
        columns := fun c hc => by cases hc
        line := hline _ (by decide) (by decide)
        properties := fun entries h => by cases h }
  all_goals exact
    { blank := List.all_eq_true.1 (by decide)
      id := ⟨by decide, hwords _ (by decide)⟩
      columns := fun c hc => by
        obtain rfl := Option.some.inj hc
        decide
      line := hline _ (by decide) (by decide)
      properties := fun entries h => by
        obtain rfl := Option.some.inj h
        exact hkeys _ (by decide) }

end Taymna.Agent.Linux
