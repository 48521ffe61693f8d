import Taymna.Api.SessionPool

/-!
# The life of a session row

`extend` and `end` look at a row in one query and write it in another, by its id alone, so what
`requireActiveSession` has established must hold until the write. `Undisturbed` says which
interleavings keep it, and in every run that meets it a row is closed once and for all: its status,
its deadline and its end never change again.
-/

namespace Taymna.Api

open Automata SessionsService

variable {Hash : Type*}

namespace SessionPool

/-! ## What is kept -/

/-- At most one row is `ACTIVE`, and no row expires before its deadline. -/
structure Lawful (w : World Hash) : Prop where
  active : (w.sessions.filter fun r => r.status = .active).length ≤ 1
  expired : ∀ r ∈ w.sessions, r.status = .expired → r.expiresAt ≤ w.clock

/-- The step is made between two lawful moments, leaves what is closed as it is, and writes an
`extend` or `end` only to a row that is `ACTIVE` and unexpired when the write takes effect. -/
structure Lifecycle (p : Pool (World Hash) SessionCall) (label : Pool.Label SessionEvent Input) :
    Prop where
  before : Lawful p.world
  after : ∀ q, next p label = some q → Lawful q.world
  closed : ∀ q, next p label = some q → ∀ r ∈ p.world.sessions, r.status ≠ .active →
    ∃ r' ∈ q.world.sessions, r'.id = r.id ∧ r'.status = r.status ∧ r'.expiresAt = r.expiresAt ∧
      r'.endedAt = r.endedAt
  written : ∀ i input q id change session, label = .call i input → next p label = some q →
    q.calls[i]? = some (.edit id change (.updated (some session))) →
    ∃ r ∈ p.world.sessions, r.id = session.id ∧ Running p.world.clock r

/-! ## Which interleavings keep it -/

/-- No row's deadline is reached between the check of a change and its write. -/
def WritesInTime (p : Pool (World Hash) SessionCall) : Prop :=
  ∀ c ∈ p.calls, ∀ id ∈ c.writes, ∀ r ∈ p.world.sessions, r.id = id → r.status = .active →
    p.world.clock < r.expiresAt

instance (p : Pool (World Hash) SessionCall) : Decidable (WritesInTime p) :=
  inferInstanceAs (Decidable (∀ c ∈ _, _))

/-- A check that passes finds the row `ACTIVE` still, and a session is not ended under the check of
another call. -/
def Undisturbing (w : World Hash) (input : Input) (others : List SessionCall) : SessionCall → Prop
  | .edit _ _ (.found _ (some session)) =>
    Running (w.clock + input.wait) session → ∃ r ∈ w.sessions, r.id = session.id ∧ r.status = .active
  | .edit _ _ (.stamped id (.end _) _) => ∀ c ∈ others, c.writes ≠ some id
  | _ => True

instance (w : World Hash) (input : Input) (others : List SessionCall) :
    ∀ c, Decidable (Undisturbing w input others c)
  | .edit _ _ (.found _ (some _)) => inferInstanceAs (Decidable (_ → _))
  | .edit _ _ (.stamped _ (.end _) _) => inferInstanceAs (Decidable (∀ c ∈ _, _))
  | .edit _ _ (.stamped _ (.extend _) _) | .edit _ _ (.found _ none) | .edit _ _ (.find _ _)
  | .edit _ _ (.update _ _) | .edit _ _ (.updated _) | .edit _ _ (.done _) | .edit _ _ .notFound
  | .edit _ _ .conflict | .edit _ _ .failed | .start _ | .getActiveSession _ | .sweep _ =>
    instDecidableTrue

/-- Nothing comes between the check of an `extend` or `end` and its write. -/
def Undisturbed (p : Pool (World Hash) SessionCall) : Pool.Label SessionEvent Input → Prop
  | .call i input =>
    WritesInTime p ∧ ∀ c ∈ p.calls[i]?, Undisturbing p.world input (p.calls.eraseIdx i) c
  | .env _ => True

instance (p : Pool (World Hash) SessionCall) : ∀ label, Decidable (Undisturbed p label)
  | .call _ _ => inferInstanceAs (Decidable (_ ∧ ∀ c ∈ _, _))
  | .env _ => instDecidableTrue

/-! ## What the rows keep -/

variable {rows rows' : List Session} {c : SessionCall} {r : Session}

theorem constrained_of_rowsStep (hrows : Constrained rows) (h : RowsStep rows c rows') :
    Constrained rows' := by
  cases h with
  | keep => exact hrows
  | expire => exact hrows.expireStale
  | create hid hnone => exact hrows.append hnone hid
  | update hupdate => exact hrows.update hupdate

/-- Only the row that a change has checked is written by id. -/
theorem mem_of_rowsStep (h : RowsStep rows c rows') (hr : r ∈ rows)
    (hexpires : ∀ now ∈ c.expires, ¬ Stale now r) (hwrites : c.writes ≠ some r.id) : r ∈ rows' := by
  cases h with
  | keep => exact hr
  | expire _ hnow => exact mem_expireStale hr (hexpires _ hnow)
  | create => exact List.mem_append_left _ hr
  | update hupdate =>
    obtain ⟨row, hrow, -, rfl⟩ := update_eq_some hupdate
    exact List.mem_map.2 ⟨r, hr, if_neg fun he => hwrites (by rw [he]; rfl)⟩

/-- A row stays `ACTIVE` unless it is expired or ended. -/
theorem active_of_rowsStep (h : RowsStep rows c rows') (hr : r ∈ rows) (hs : r.status = .active)
    (hexpires : ∀ now ∈ c.expires, now ≤ r.expiresAt)
    (hends : ∀ id change endedAt updatedAt,
      c ≠ .edit id change (.stamped r.id (.end endedAt) updatedAt)) :
    ∃ r' ∈ rows', r'.id = r.id ∧ r'.status = .active := by
  cases h with
  | keep => exact ⟨r, hr, rfl, hs⟩
  | expire _ hnow =>
    exact ⟨r, mem_expireStale hr fun hstale => not_lt.2 (hexpires _ hnow) hstale.2, rfl, hs⟩
  | create => exact ⟨r, List.mem_append_left _ hr, rfl, hs⟩
  | @update id change id' edit updatedAt _ row hupdate =>
    obtain ⟨row, hrow, -, rfl⟩ := update_eq_some hupdate
    by_cases he : r.id = id'
    · subst he
      cases edit with
      | extend expiresAt =>
        exact ⟨_, List.mem_map.2 ⟨r, hr, if_pos rfl⟩, Edit.apply_id, hs⟩
      | «end» endedAt => exact absurd rfl (hends id change endedAt updatedAt)
    · exact ⟨r, List.mem_map.2 ⟨r, hr, if_neg he⟩, rfl, hs⟩

/-- A row comes to be expired at its deadline, as long as what is written by id is `ACTIVE`. -/
theorem expired_of_rowsStep (hrows : Constrained rows) (h : RowsStep rows c rows')
    (hwrites : ∀ id ∈ c.writes, ∃ r ∈ rows, r.id = id ∧ r.status = .active) (hr : r ∈ rows')
    (hs : r.status = .expired) : r ∈ rows ∨ ∃ now ∈ c.expires, r.expiresAt < now := by
  cases h with
  | keep => exact Or.inl hr
  | @expire _ now _ hnow =>
    rcases mem_expireStale_cases hr with hr | ⟨r₀, -, hstale, rfl⟩
    · exact Or.inl hr
    · exact Or.inr ⟨now, hnow, hstale.2⟩
  | create _ _ hactive =>
    rcases List.mem_append.1 hr with hr | hr
    · exact Or.inl hr
    · rw [List.mem_singleton.1 hr, hactive] at hs
      cases hs
  | @update id change id' edit updatedAt _ row hupdate =>
    obtain ⟨r₀, hr₀, hid, hs₀⟩ := hwrites id' rfl
    obtain ⟨row, hrow, -, -⟩ := update_eq_some hupdate
    rcases hrows.mem_update hupdate hrow hr with rfl | ⟨hr, -⟩
    · obtain ⟨hmem, hrowid⟩ := findUnique_some hrow
      rw [hrows.eq_of_id hr₀ hmem (hid.trans hrowid.symm)] at hs₀
      cases edit with
      | extend => exact absurd (hs₀.symm.trans hs) (by simp)
      | «end» => cases hs
    · exact Or.inl hr

/-! ## One step -/

/-- The rows that every run keeps. -/
structure Consistent (w : World Hash) : Prop where
  rows : Constrained w.sessions
  expired : ∀ r ∈ w.sessions, r.status = .expired → r.expiresAt ≤ w.clock

theorem Consistent.lawful {w : World Hash} (h : Consistent w) : Lawful w :=
  ⟨h.rows.length_active_le, h.expired⟩

/-- What a call in progress relies on: it has read the clock, and the row that it is going to write
is `ACTIVE`. -/
structure Relies (w : World Hash) (c : SessionCall) : Prop where
  expires : ∀ now ∈ c.expires, now ≤ w.clock
  writes : ∀ id ∈ c.writes, ∃ r ∈ w.sessions, r.id = id ∧ r.status = .active

section Step

variable {w w' : World Hash} {input : Input} {d c' : SessionCall} {others : List SessionCall}

/-- The call that goes on. -/
theorem Relies.moved (hc : Relies w c) (hu : Undisturbing w input others c)
    (h : Step w input c w' c') : Relies w' c' := by
  cases h with
  | start h =>
    cases h with
    | found => exact ⟨by simp [SessionCall.expires, World.read], by simp [SessionCall.writes]⟩
    | find | unknown | expire | expired | create | created | orphan | taken | push | conflict =>
      exact ⟨by simp [SessionCall.expires], by simp [SessionCall.writes]⟩
  | edit h =>
    cases h with
    | allowed hrun =>
      refine ⟨by simp [SessionCall.expires], fun id hid => ?_⟩
      obtain rfl := Option.some.inj hid
      exact hu hrun
    | stamp => exact ⟨by simp [SessionCall.expires], hc.writes⟩
    | find | unknown | inactive | expired | update | missing | push | failed =>
      exact ⟨by simp [SessionCall.expires], by simp [SessionCall.writes]⟩
  | expire | expired | find | sweep =>
    exact ⟨by simp [SessionCall.expires], by simp [SessionCall.writes]⟩

/-- The other calls. -/
theorem Relies.kept (hd : Relies w d) (hc : Relies w c) (hu : Undisturbing w input others c)
    (hothers : d ∈ others)
    (htime : ∀ id ∈ d.writes, ∀ r ∈ w.sessions, r.id = id → r.status = .active → w.clock < r.expiresAt)
    (hclock : w.clock ≤ w'.clock) (h : Step w input c w' c') : Relies w' d := by
  refine ⟨fun now hnow => (hd.expires now hnow).trans hclock, fun id hid => ?_⟩
  obtain ⟨r, hr, rfl, hs⟩ := hd.writes id hid
  have hlt : w.clock < r.expiresAt := htime _ hid r hr rfl hs
  refine active_of_rowsStep (rowsStep_of_step h) hr hs (fun now hnow => ?_) ?_
  · exact (hc.expires now hnow).trans hlt.le
  · rintro id change endedAt updatedAt rfl
    exact hu d hothers hid

/-- A call that has just been made has at most read the clock. -/
theorem Made.relies (h : Made w c) : Relies w c := by
  cases h with
  | start | edit | getActiveSession | sweep =>
    exact ⟨by simp [SessionCall.expires], by simp [SessionCall.writes]⟩

/-- The rows. -/
theorem Consistent.step (hw : Consistent w) (hc : Relies w c) (hclock : w.clock ≤ w'.clock)
    (h : Step w input c w' c') : Consistent w' := by
  have hrow := rowsStep_of_step h
  refine ⟨constrained_of_rowsStep hw.rows hrow, fun r hr hs => ?_⟩
  rcases expired_of_rowsStep hw.rows hrow hc.writes hr hs with hr | ⟨now, hnow, hlt⟩
  · exact (hw.expired r hr hs).trans hclock
  · exact (hlt.le.trans (hc.expires now hnow)).trans hclock

end Step

/-! ## Whole runs -/

variable {p q : Pool (World Hash) SessionCall} {label : Pool.Label SessionEvent Input}

/-- The invariant: the rows are consistent, and each call in progress can rely on what it has
read. -/
theorem holds_next (hp : Pool.Holds Consistent Relies p) (hf : Forward label)
    (hu : Undisturbed p label) (h : next p label = some q) : Pool.Holds Consistent Relies q := by
  refine Pool.Holds.next (P := fun p label => Forward label ∧ Undisturbed p label)
    (fun p e w cs hp hP he => ?_) (fun p i input c w c' hp hP hc hs => ?_) hp ⟨hf, hu⟩ h
  · have hrows := event_sessions he
    have hclock := clock_le_of_event hP.1 he
    refine ⟨⟨hrows ▸ hp.world.rows, fun r hr hs => ?_⟩, fun c hc => (made_of_event he c hc).relies,
      fun c hc => ⟨fun now hnow => ?_, ?_⟩⟩
    · exact (hp.world.expired r (hrows ▸ hr) hs).trans hclock
    · exact ((hp.calls c hc).expires now hnow).trans hclock
    · exact hrows ▸ (hp.calls c hc).writes
  · obtain ⟨⟨hwait, hagain⟩, htime, hu⟩ := hP
    have hstep := step_cases hs
    have hmem := List.mem_of_getElem? hc
    have hclock := clock_le_of_step hstep hwait hagain
    refine ⟨hp.world.step (hp.calls c hmem) hclock hstep, (hp.calls c hmem).moved (hu c hc) hstep, ?_⟩
    intro j d hj hd
    have hdmem := List.mem_of_getElem? hd
    exact (hp.calls d hdmem).kept (hp.calls c hmem) (hu c hc)
      (List.mem_eraseIdx_iff_getElem?.2 ⟨j, hj, hd⟩) (htime d hdmem) hclock hstep

/-- What the invariant says about the next step. -/
theorem lifecycle_of_holds (hp : Pool.Holds Consistent Relies p) (hf : Forward label)
    (hu : Undisturbed p label) : Lifecycle p label where
  before := hp.world.lawful
  after q hq := (holds_next hp hf hu hq).world.lawful
  closed q hq r hr hs := by
    suffices hmem : r ∈ q.world.sessions from ⟨r, hmem, rfl, rfl, rfl, rfl⟩
    cases Pool.next_iff.1 hq with
    | env he => exact event_sessions he ▸ hr
    | call hc hstep =>
      have hrely := hp.calls _ (List.mem_of_getElem? hc)
      refine mem_of_rowsStep (rowsStep_of_step (step_cases hstep)) hr (fun _ _ h => hs h.1)
        fun hid => ?_
      obtain ⟨r', hr', hid', hs'⟩ := hrely.writes _ hid
      rw [hp.world.rows.eq_of_id hr' hr hid'] at hs'
      exact hs hs'
  written i input q id change session hl hq hupdated := by
    subst hl
    cases Pool.next_iff.1 hq with
    | @call _ _ c w c' hc hstep =>
      rw [List.getElem?_set_self (List.getElem?_eq_some_iff.1 hc).1] at hupdated
      obtain rfl := Option.some.inj hupdated
      have hrely := hp.calls c (List.mem_of_getElem? hc)
      have htime := hu.1 c (List.mem_of_getElem? hc)
      cases step_cases hstep with
      | edit h =>
        cases h with
        | @update id' edit updatedAt rows _ hupdate =>
          obtain ⟨r, hr, hid, hs⟩ := hrely.writes id' rfl
          obtain ⟨row, hrow, rfl, -⟩ := update_eq_some hupdate
          refine ⟨r, hr, ?_, hs, htime id' rfl r hr hid hs⟩
          rw [Edit.apply_id, (findUnique_some hrow).2, hid]

/-- However the calls interleave, as long as nothing comes between the check of an `extend` or `end`
and its write: from an empty table, each moment is lawful, a row that is closed stays as it is, and
only a row that is `ACTIVE` and unexpired is extended or ended. -/
theorem session_lifecycle (w : World Hash) (hw : w.sessions = [])
    {es : List (Pool.Label SessionEvent Input)} (hf : ∀ label ∈ es, Forward label)
    (hu : Along next Undisturbed ⟨w, []⟩ es) : Along next Lifecycle ⟨w, []⟩ es := by
  have hstart : Pool.Holds Consistent Relies (⟨w, []⟩ : Pool (World Hash) SessionCall) :=
    ⟨⟨hw.symm ▸ .nil, by simp [hw]⟩, by simp⟩
  exact along_of_invariant (P := fun p label => Forward label ∧ Undisturbed p label)
    (fun _ _ _ hp hP h => holds_next hp hP.1 hP.2 h)
    (fun _ _ hp hP => lifecycle_of_holds hp hP.1 hP.2) hstart ((along_of_forall (fun _ => hf) _).and hu)

/-- A session of one minute, up to the row. -/
def minute : List (Pool.Label SessionEvent Input) :=
  let go : Pool.Label SessionEvent Input := .call 0 ⟨0, 0, "", "x", 0⟩
  [.env (.start 1), go, go, go, go, go, go, go]

/-- It is extended, and ended. -/
def extended : List (Pool.Label SessionEvent Input) :=
  let go (i : ℕ) : Pool.Label SessionEvent Input := .call i ⟨1, 1, "", "", 0⟩
  [.env (.edit "x" (.extend 1)), go 1, go 1, go 1, go 1, go 1, .env (.sweep 30000), go 2,
    .env (.edit "x" .end), go 3, go 3, go 3, go 3, go 3]

theorem session_lifecycle_extended :
    Along next Lifecycle (⟨(World.created 0 : World PlainHash), []⟩ : Pool _ _)
      (minute ++ extended) :=
  session_lifecycle _ rfl (by decide) (by decide)

/-- It is extended by an hour while its minute runs out: the sweeper comes between the check and the
write. -/
def overrun : List (Pool.Label SessionEvent Input) :=
  let go (i : ℕ) : Pool.Label SessionEvent Input := .call i ⟨0, 0, "", "", 0⟩
  [.env (.edit "x" (.extend 60)), go 1, go 1, go 1, .env (.sweep 60001), go 2]

/-- The write moves the deadline of the row that has expired. -/
theorem expired_row_extended :
    (∀ label ∈ minute ++ overrun ++ [.call 1 ⟨0, 0, "", "", 0⟩], Forward label) ∧
      ¬ Along next Lifecycle (⟨(World.created 0 : World PlainHash), []⟩ : Pool _ _)
        (minute ++ overrun ++ [.call 1 ⟨0, 0, "", "", 0⟩]) := by
  refine ⟨by decide, fun h => ?_⟩
  have hlast := (along_cons_iff.1 ((along_append_iff.1 h).2 _ rfl)).1
  obtain ⟨r, hr, -, -, he, -⟩ :=
    hlast.closed _ rfl ⟨"x", 0, 60000, none, .expired, 60001⟩ (by decide) (by decide)
  obtain rfl := List.mem_singleton.1 hr
  exact absurd he (by decide)

end SessionPool

end Taymna.Api
