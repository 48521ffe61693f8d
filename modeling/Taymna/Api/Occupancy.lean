import Taymna.Automata.Family
import Taymna.Api.Alone
import Taymna.Api.UsedTime

/-!
# No more use than time

The sessions of one machine follow one another (`Spaced`): each has stopped before the next one was
started, and none has stopped later than now unless it is still `ACTIVE`. Two writes can break this:
`start` stamps the row before it is known that no other session is `ACTIVE`, and `extend` and `end`
write by id alone, whatever has become of the row. As long as neither happens (`Timely`), the
sessions fill no window of a report more than once, and nothing of it before it has passed.
-/

namespace Taymna.Api

open Automata Intervals SessionsService
open Number (Arithmetic)

variable {Hash : Type*}

/-- When the session has stopped to count, if it is not `ACTIVE`. -/
def Session.stop (r : Session) : ℤ := min (r.endedAt.getD r.expiresAt) r.expiresAt

theorem Session.stop_le (r : Session) : r.stop ≤ r.expiresAt := min_le_right _ _

/-- The instant up to which a report counts the session. -/
def Session.usedUntil (now : ℤ) (r : Session) : ℤ :=
  if r.status = .active then min r.stop now else r.stop

/-- The rows that were created after the one with this id. -/
def createdAfter (rows : List Session) (id : String) : List Session :=
  (rows.dropWhile fun r => r.id ≠ id).tail

/-- `r` is over when `r'` starts. -/
def Before (r r' : Session) : Prop := r.status ≠ .active ∧ r.stop ≤ r'.startedAt

instance (r r' : Session) : Decidable (Before r r') := inferInstanceAs (Decidable (_ ∧ _))

/-- When the write of an `end` is to say that the session ended. -/
def SessionCall.ends : SessionCall → Option ℤ
  | .edit _ _ (.update _ (.end endedAt)) | .edit _ _ (.stamped _ (.end endedAt) _) => some endedAt
  | _ => none

namespace SessionPool

/-! ## The condition -/

/-- A session is created at or after the instants at which the earlier ones stopped; and what is
written to a row that is no longer `ACTIVE` stops it neither after now nor after the start of a
session that was created since. -/
def TimelyCall (w : World Hash) : SessionCall → Prop
  | .start (.stamped startedAt _ _) =>
    findActive w.sessions = none → ∀ r ∈ w.sessions, r.stop ≤ startedAt
  | .edit _ _ (.stamped id edit updatedAt) =>
    ∀ r ∈ w.sessions, r.id = id → r.status ≠ .active →
      (edit.apply updatedAt r).stop ≤ w.clock ∧
        ∀ r' ∈ createdAfter w.sessions id, (edit.apply updatedAt r).stop ≤ r'.startedAt
  | _ => True

def Timely (p : Pool (World Hash) SessionCall) : Pool.Label SessionEvent Input → Prop
  | .call i _ => ∀ c ∈ p.calls[i]?, TimelyCall p.world c
  | .env _ => True

instance (w : World Hash) : ∀ c, Decidable (TimelyCall w c)
  | .start (.stamped _ _ _) => inferInstanceAs (Decidable (_ → ∀ r ∈ _, _))
  | .edit _ _ (.stamped _ _ _) => inferInstanceAs (Decidable (∀ r ∈ _, _ → _ → _))
  | .start (.find _) | .start (.found _ _) | .start (.expire _ _) | .start (.expired _)
  | .start (.create _ _) | .start (.created _) | .start (.done _) | .start .notFound
  | .start .conflict | .start .failed | .edit _ _ (.find _ _) | .edit _ _ (.found _ _)
  | .edit _ _ (.update _ _) | .edit _ _ (.updated _) | .edit _ _ (.done _) | .edit _ _ .notFound
  | .edit _ _ .conflict | .edit _ _ .failed | .getActiveSession _ | .sweep _ => instDecidableTrue

instance (p : Pool (World Hash) SessionCall) : ∀ label, Decidable (Timely p label)
  | .call _ _ => inferInstanceAs (Decidable (∀ c ∈ _, _))
  | .env _ => instDecidableTrue

/-! ## The rows of one machine -/

/-- A change of one row keeps the order, if it keeps the row before those that were created after
it. -/
theorem pairwise_update {rows : List Session} {id : String} {f : Session → Session}
    (hids : (rows.map Session.id).Nodup) (hstart : ∀ r, (f r).startedAt = r.startedAt)
    (h : rows.Pairwise Before)
    (hf : ∀ r ∈ rows, r.id = id → ∀ r' ∈ createdAfter rows id, Before r r' → Before (f r) r') :
    (rows.map fun r => if r.id = id then f r else r).Pairwise Before := by
  induction rows with
  | nil => exact .nil
  | cons r rows ih =>
    obtain ⟨hr, hrows⟩ := List.pairwise_cons.1 h
    obtain ⟨hnew, hids⟩ := List.nodup_cons.1 hids
    by_cases hid : r.id = id
    · have hafter : createdAfter (r :: rows) id = rows := by
        simp [createdAfter, hid]
      have hrest : rows.map (fun r => if r.id = id then f r else r) = rows := by
        refine (List.map_congr_left fun r' hr' => if_neg fun hid' => hnew ?_).trans (List.map_id rows)
        exact List.mem_map.2 ⟨r', hr', hid'.trans hid.symm⟩
      rw [List.map_cons, if_pos hid, hrest]
      refine List.pairwise_cons.2 ⟨fun r' hr' => ?_, hrows⟩
      exact hf r List.mem_cons_self hid r' (by rwa [hafter]) (hr r' hr')
    · have hafter : createdAfter (r :: rows) id = createdAfter rows id := by
        simp [createdAfter, hid]
      rw [List.map_cons, if_neg hid]
      refine List.pairwise_cons.2 ⟨fun x hx => ?_, ih hids hrows fun r hr hid r' hr' =>
        hf r (List.mem_cons_of_mem _ hr) hid r' (by rwa [hafter])⟩
      obtain ⟨r', hr', rfl⟩ := List.mem_map.1 hx
      refine ⟨(hr r' hr').1, ?_⟩
      split_ifs
      · rw [hstart]
        exact (hr r' hr').2
      · exact (hr r' hr').2

/-- The sessions of a machine follow one another. -/
structure Spaced (w : World Hash) : Prop where
  rows : Constrained w.sessions
  apart : w.sessions.Pairwise Before
  past : ∀ r ∈ w.sessions, r.status ≠ .active → r.stop ≤ w.clock

/-- A call in progress has read the clock for what it compares with deadlines, and what it writes as
the end of a session. -/
structure Timed (w : World Hash) (c : SessionCall) : Prop where
  expires : ∀ now ∈ c.expires, now ≤ w.clock
  ends : ∀ endedAt ∈ c.ends, endedAt ≤ w.clock

section Step

variable {w w' : World Hash} {input : Input} {c c' : SessionCall}

theorem Spaced.keep (hw : Spaced w) (hclock : w.clock ≤ w'.clock) (h : w'.sessions = w.sessions) :
    Spaced w' :=
  ⟨h ▸ hw.rows, h ▸ hw.apart, fun r hr hs => (hw.past r (h ▸ hr) hs).trans hclock⟩

theorem Spaced.expire (hw : Spaced w) (hclock : w.clock ≤ w'.clock) {now updatedAt : ℤ}
    (hnow : now ≤ w.clock) (h : w'.sessions = expireStale now updatedAt w.sessions) : Spaced w' where
  rows := h ▸ hw.rows.expireStale
  apart := by
    rw [h, expireStale, List.pairwise_map]
    refine hw.apart.imp fun {r r'} hbefore => ?_
    refine ⟨?_, ?_⟩
    · rw [if_neg fun hstale => hbefore.1 hstale.1]
      exact hbefore.1
    · rw [if_neg fun hstale => hbefore.1 hstale.1]
      split_ifs <;> exact hbefore.2
  past r hr hs := by
    rcases mem_expireStale_cases (h ▸ hr) with hr | ⟨r, -, hstale, rfl⟩
    · exact (hw.past r hr hs).trans hclock
    · exact ((r.stop_le.trans hstale.2.le).trans hnow).trans hclock

theorem Spaced.create (hw : Spaced w) {startedAt expiresAt updatedAt : ℤ} {row : Session}
    {rows : List Session} {id : String} (hid : ∀ r ∈ w.sessions, r.id ≠ id)
    (hcreate : SessionsService.create w.sessions id startedAt expiresAt updatedAt = some (rows, row))
    (htimely : findActive w.sessions = none → ∀ r ∈ w.sessions, r.stop ≤ startedAt)
    (hclock : w.clock ≤ w'.clock) (h : w'.sessions = rows) : Spaced w' := by
  obtain ⟨hnone, rfl, rfl, hactive, -⟩ := create_eq_some hcreate
  have hstart : row.startedAt = startedAt := by
    unfold SessionsService.create at hcreate
    rw [hnone] at hcreate
    exact (congrArg Session.startedAt (Prod.mk.inj (Option.some.inj hcreate)).2).symm
  refine ⟨h ▸ hw.rows.append hnone hid, ?_, fun r hr hs => ?_⟩
  · rw [h]
    refine List.pairwise_append.2 ⟨hw.apart, List.pairwise_singleton _ _, fun r hr r' hr' => ?_⟩
    obtain rfl := List.mem_singleton.1 hr'
    exact ⟨findActive_eq_none_iff.1 hnone r hr, hstart ▸ htimely hnone r hr⟩
  · rw [h] at hr
    rcases List.mem_append.1 hr with hr | hr
    · exact (hw.past r hr hs).trans hclock
    · rw [List.mem_singleton.1 hr] at hs
      exact absurd hactive hs

theorem Spaced.update (hw : Spaced w) {id : String} {edit : Edit} {updatedAt : ℤ} {row : Session}
    {rows : List Session}
    (hupdate : SessionsService.update w.sessions id edit updatedAt = some (rows, row))
    (htimely : ∀ r ∈ w.sessions, r.id = id → r.status ≠ .active →
      (edit.apply updatedAt r).stop ≤ w.clock ∧
        ∀ r' ∈ createdAfter w.sessions id, (edit.apply updatedAt r).stop ≤ r'.startedAt)
    (hends : ∀ endedAt, edit = .end endedAt → endedAt ≤ w.clock)
    (hclock : w.clock ≤ w'.clock) (h : w'.sessions = rows) : Spaced w' := by
  obtain ⟨r₀, hfind, rfl, rfl⟩ := update_eq_some hupdate
  obtain ⟨hr₀, hid₀⟩ := findUnique_some hfind
  have hstatus : ∀ r, r.status ≠ .active → (edit.apply updatedAt r).status ≠ .active :=
    fun r hs hs' => hs (Edit.active_of_apply hs')
  refine ⟨h ▸ hw.rows.update hupdate, ?_, fun r hr hs => ?_⟩
  · rw [h]
    refine pairwise_update hw.rows.ids (fun r => by cases edit <;> rfl) hw.apart
      fun r hr hid r' hr' hbefore => ?_
    exact ⟨hstatus r hbefore.1, (htimely r hr hid hbefore.1).2 r' hr'⟩
  · refine le_trans ?_ hclock
    rcases hw.rows.mem_update hupdate hfind (h ▸ hr) with rfl | ⟨hr, -⟩
    · by_cases hactive : r₀.status = .active
      · -- An `ACTIVE` row is closed by its end alone.
        cases edit with
        | extend => exact absurd hactive hs
        | «end» endedAt => exact (min_le_left _ _).trans (hends endedAt rfl)
      · exact (htimely r₀ hr₀ hid₀ hactive).1
    · exact hw.past r hr hs

theorem Spaced.step (hw : Spaced w) (hc : Timed w c) (ht : TimelyCall w c)
    (hclock : w.clock ≤ w'.clock) (h : Step w input c w' c') : Spaced w' := by
  cases h with
  | start h =>
    cases h with
    | expire => exact hw.expire hclock (hc.expires _ rfl) rfl
    | created hid hcreate => exact hw.create hid hcreate ht hclock rfl
    | push => exact hw.keep hclock (pushSessionUpdate_sessions _ _ _)
    | find | unknown | found | expired | create | orphan | taken | conflict => exact hw.keep hclock rfl
  | edit h =>
    cases h with
    | @update id edit updatedAt rows session hupdate =>
      refine hw.update hupdate ht (fun endedAt he => hc.ends endedAt ?_) hclock rfl
      rw [he]
      rfl
    | push => exact hw.keep hclock (pushSessionUpdate_sessions _ _ _)
    | find | unknown | inactive | expired | allowed | stamp | missing | failed => exact hw.keep hclock rfl
  | expire | sweep => exact hw.expire hclock (hc.expires _ rfl) rfl
  | expired | find => exact hw.keep hclock rfl

theorem Timed.mono (h : Timed w c) (hclock : w.clock ≤ w'.clock) : Timed w' c :=
  ⟨fun now hnow => (h.expires now hnow).trans hclock, fun t ht => (h.ends t ht).trans hclock⟩

theorem Timed.moved (hc : Timed w c) (hclock : w.clock ≤ w'.clock) (h : Step w input c w' c') :
    Timed w' c' := by
  cases h with
  | start h =>
    cases h with
    | found => exact ⟨by simp [SessionCall.expires, World.read], by simp [SessionCall.ends]⟩
    | find | unknown | expire | expired | create | created | orphan | taken | push | conflict =>
      exact ⟨by simp [SessionCall.expires], by simp [SessionCall.ends]⟩
  | edit h =>
    cases h with
    | @allowed change session =>
      refine ⟨by simp [SessionCall.expires], fun endedAt he => ?_⟩
      cases change with
      | extend => cases he
      | «end» => exact (Option.some.inj he).ge
    | @stamp id edit =>
      refine ⟨by simp [SessionCall.expires], fun endedAt he => (hc.ends endedAt ?_).trans hclock⟩
      cases edit with
      | extend => cases he
      | «end» => exact he
    | find | unknown | inactive | expired | update | missing | push | failed =>
      exact ⟨by simp [SessionCall.expires], by simp [SessionCall.ends]⟩
  | expire | expired | find | sweep =>
    exact ⟨by simp [SessionCall.expires], by simp [SessionCall.ends]⟩

theorem Made.timed (h : Made w c) : Timed w c := by
  cases h with
  | start | edit | getActiveSession | sweep =>
    exact ⟨by simp [SessionCall.expires], by simp [SessionCall.ends]⟩

end Step

theorem spaced_next {p q : Pool (World Hash) SessionCall} {label : Pool.Label SessionEvent Input}
    (hp : Pool.Holds Spaced Timed p) (hf : Forward label) (ht : Timely p label)
    (h : next p label = some q) : Pool.Holds Spaced Timed q := by
  refine Pool.Holds.next (P := fun p label => Forward label ∧ Timely p label)
    (fun p e w cs hp hP he => ?_) (fun p i input c w c' hp hP hc hs => ?_) hp ⟨hf, ht⟩ h
  · have hclock := clock_le_of_event hP.1 he
    exact ⟨hp.world.keep hclock (event_sessions he), fun c hc => (made_of_event he c hc).timed,
      fun c hc => (hp.calls c hc).mono hclock⟩
  · obtain ⟨⟨hwait, hagain⟩, ht⟩ := hP
    have hstep := step_cases hs
    have hcall := hp.calls c (List.mem_of_getElem? hc)
    have hclock := clock_le_of_step hstep hwait hagain
    exact ⟨hp.world.step hcall (ht c hc) hclock hstep, hcall.moved hclock hstep,
      fun j d _ hd => (hp.calls d (List.mem_of_getElem? hd)).mono hclock⟩

/-! ## The report -/

theorem usedMs_eq (db : Database) (machineId : String) (windowFrom windowTo now : ℤ) :
    usedMs (db.sessions.map SessionRow.usage) now machineId windowFrom windowTo =
      ((db.rowsOf machineId).map fun r =>
        clip r.startedAt (r.usedUntil now) windowFrom windowTo).sum := by
  unfold usedMs Database.rowsOf
  rw [List.filter_map, List.map_map, List.map_map]
  rfl

variable {w : World Hash} {windowFrom windowTo now : ℤ}

theorem usedUntil_le_now (hw : Spaced w) (hnow : w.clock ≤ now) {r : Session} (hr : r ∈ w.sessions) :
    r.usedUntil now ≤ now := by
  unfold Session.usedUntil
  split_ifs with hs
  · exact min_le_right _ _
  · exact (hw.past r hr hs).trans hnow

variable (windowFrom windowTo) in
/-- The sessions of the machine fill the window at most once, up to now. -/
theorem sum_clip_le_of_spaced (hw : Spaced w) (hnow : w.clock ≤ now) :
    (w.sessions.map fun r => clip r.startedAt (r.usedUntil now) windowFrom windowTo).sum ≤
      max 0 (min windowTo now - windowFrom) := by
  have hpast : w.sessions.map (fun r => clip r.startedAt (r.usedUntil now) windowFrom windowTo) =
      (w.sessions.map fun r => (r.startedAt, r.usedUntil now)).map fun p =>
        clip p.1 p.2 windowFrom (min windowTo now) := by
    rw [List.map_map]
    refine List.map_congr_left fun r hr => ?_
    have hmin : min (r.usedUntil now) (min windowTo now) = min (r.usedUntil now) windowTo := by
      rw [min_left_comm, min_eq_left (usedUntil_le_now hw hnow hr), min_comm]
    simp only [Function.comp, clip, hmin]
  have happart : (w.sessions.map fun r => (r.startedAt, r.usedUntil now)).Pairwise
      fun p q => p.2 ≤ q.1 := by
    refine List.pairwise_map.2 (hw.apart.imp fun {r r'} hbefore => ?_)
    unfold Session.usedUntil
    rw [if_neg hbefore.1]
    exact hbefore.2
  rw [hpast]
  rcases le_or_gt windowFrom (min windowTo now) with hle | hlt
  · exact (sum_clip_le happart hle).trans (le_max_right _ _)
  · refine le_trans (le_of_eq ?_) (le_max_left _ _)
    refine List.sum_eq_zero fun x hx => ?_
    obtain ⟨p, -, rfl⟩ := List.mem_map.1 hx
    exact clip_of_le ((min_le_right _ _).trans (hlt.le.trans (le_max_right _ _)))

/-- What is hardly more than so many milliseconds rounds to no more seconds than they do. -/
theorem roundHalfUp_le_of_lt {x : ℚ} {ms : ℤ} (h : x < (ms + 1 : ℤ) / 1000) :
    roundHalfUp x ≤ roundHalfUp (ms / 1000) := by
  rw [roundHalfUp_eq]
  unfold roundHalfUp nearestSecond
  have hfloor : (⌊x + 1 / 2⌋ : ℚ) < (ms + 501 : ℤ) / 1000 := by
    refine (Int.floor_le _).trans_lt ?_
    push_cast at h ⊢
    linarith
  rw [lt_div_iff₀ (by norm_num)] at hfloor
  have hint : ⌊x + 1 / 2⌋ * 1000 < ms + 501 := by exact_mod_cast hfloor
  exact_mod_cast (by omega : ⌊x + 1 / 2⌋ ≤ (ms + 500) / 1000)

/-- Doubles do not round some milliseconds up to more seconds than there can be. -/
theorem roundHalfUp_doubleSeconds_le {l : List ℤ} {total : ℤ} (hpos : ∀ ms ∈ l, 0 < ms)
    (htotal : l.sum ≤ total) (hsize : l.length * total < 2 ^ 51) :
    roundHalfUp (doubleSeconds l) ≤ roundHalfUp (total / 1000) := by
  have hsum : 0 ≤ l.sum := List.sum_nonneg fun ms hms => (hpos ms hms).le
  refine roundHalfUp_le_of_lt ?_
  rcases List.eq_nil_or_concat l with rfl | ⟨l', last, rfl⟩
  · have htotal' : (0 : ℚ) ≤ total := by exact_mod_cast htotal
    show (0 : ℚ) < _
    push_cast
    positivity
  · have htotal1 : 1 ≤ total := by
      have hlast := hpos last (by simp)
      have hinit : 0 ≤ l'.sum := List.sum_nonneg fun ms hms => (hpos ms (by simp [hms])).le
      rw [List.concat_eq_append, List.sum_append, List.sum_singleton] at htotal
      omega
    have hlength : (l'.concat last).length ≤ 2 ^ 51 := by
      have hle : ((l'.concat last).length : ℤ) * 1 ≤ (l'.concat last).length * total := by gcongr
      omega
    have hlost := (abs_le.1 (abs_lost_le hpos htotal hlength)).1
    have hsize' : ((l'.concat last).length : ℚ) * total < 2 ^ 51 := by exact_mod_cast hsize
    have hbound : ((l'.concat last).length : ℚ) * (total / 1000 / 2 ^ 51) < 1 / 1000 := by
      rw [div_div, mul_div_assoc', div_lt_iff₀ (by norm_num)]
      linarith
    have htotal' : ((l'.concat last).sum : ℚ) / 1000 ≤ total / 1000 := by gcongr
    unfold lost at hlost
    push_cast
    linarith

theorem length_msOf_le (db : Database) (machineId : String) (windowFrom windowTo now : ℤ) :
    (msOf (db.sessions.map SessionRow.usage) now machineId windowFrom windowTo).length ≤
      (db.rowsOf machineId).length := by
  unfold msOf Database.rowsOf
  refine (List.length_filter_le _ _).trans ?_
  rw [List.length_map, List.filter_map, List.length_map, List.length_map]
  exact le_rfl

/-- From an empty table, as long as every step is timely: whatever the clock has shown, a machine is
reported as used for at most the time of the window that has passed. That holds of exact sums, and
of sums of doubles unless their rounding errors could come to a millisecond. -/
theorem usage_within_time {start : String → World Hash} (hstart : ∀ id, (start id).sessions = [])
    {es : List (String × Pool.Label SessionEvent Input)} {s : String → Pool (World Hash) SessionCall}
    (hf : ∀ e ∈ es, Forward e.2)
    (ht : Along (family next) (fun s e => Timely (s e.1) e.2) (fun id => ⟨start id, []⟩) es)
    (h : run (family next) (fun id => ⟨start id, []⟩) es = some s) {now : ℤ}
    (hnow : ∀ id, (s id).world.clock ≤ now) {db : Database}
    (hdb : ∀ id, (db.rowsOf id).Perm (s id).world.sessions) (localeCompare : String → String → ℤ)
    (machineId : String) (windowFrom windowTo : ℤ) :
    let reported (arithmetic : Arithmetic) := usedSecondsOf (ReportsService.rows arithmetic
      localeCompare db.machines (db.sessions.map SessionRow.usage) windowFrom windowTo now) machineId
    let passed := max 0 (min windowTo now - windowFrom)
    reported .exact ≤ roundHalfUp ((passed : ℤ) / 1000) ∧
      ((db.rowsOf machineId).length * passed < 2 ^ 51 →
        reported .double ≤ roundHalfUp ((passed : ℤ) / 1000)) := by
  intro reported passed
  have hspaced : Pool.Holds Spaced Timed (s machineId) := by
    refine family_invariant (P := fun p label => Forward label ∧ Timely p label)
      (fun p label q hp hP h => spaced_next hp hP.1 hP.2 h) (fun id => ?_)
      ((along_of_forall (fun _ => hf) _).and ht) h machineId
    exact ⟨⟨(hstart id).symm ▸ .nil, by simp [hstart], by simp [hstart]⟩, by simp⟩
  have hsum := sum_clip_le_of_spaced windowFrom windowTo hspaced.world (hnow machineId)
  rw [← ((hdb machineId).map _).sum_eq, ← usedMs_eq] at hsum
  have hzero : 0 ≤ roundHalfUp ((passed : ℤ) / 1000) := by
    rw [roundHalfUp_eq]
    exact Int.cast_nonneg (by unfold nearestSecond; omega)
  constructor
  · simp only [reported, ReportsService.usedSecondsOf_rows, secondsOf_exact]
    split_ifs
    · refine roundHalfUp_le_of_lt ?_
      gcongr
      omega
    · exact hzero
  · intro hsize
    simp only [reported, ReportsService.usedSecondsOf_rows, secondsOf_double]
    split_ifs
    · refine roundHalfUp_doubleSeconds_le
        (fun ms hms => pos_of_mem_msOf windowFrom windowTo now hms) ?_ ?_
      · rwa [sum_msOf]
      · have hlength := length_msOf_le db machineId windowFrom windowTo now
        refine lt_of_le_of_lt ?_ hsize
        gcongr
    · exact hzero

/-! ## One machine -/

/-- Nothing has happened to any machine. -/
def untouched (_ : String) : Pool (World PlainHash) SessionCall := ⟨World.created 0, []⟩

def desk : ReportedMachine := { id := "m1", name := "Front desk", platform := .windows }

/-- The table when only one machine has sessions. -/
def table (rows : List Session) : Database :=
  { machines := [desk]
    sessions := rows.map (SessionRow.mk "m1") }

theorem rowsOf_table (p : Pool (World PlainHash) SessionCall) (id : String) :
    ((table p.world.sessions).rowsOf id).Perm
      (Function.update untouched "m1" p id).world.sessions := by
  by_cases hid : id = "m1"
  · subst hid
    simp [Database.rowsOf, table, List.filter_map, Function.comp_def]
  · have hne : ¬ "m1" = id := fun h => hid h.symm
    simp [Database.rowsOf, table, List.filter_map, Function.comp_def, hid, hne, untouched,
      World.created]

/-- The steps make a table of which a report counts more of a window than has passed of it. -/
def Overcounted (es : List (String × Pool.Label SessionEvent Input)) : Prop :=
  (∀ e ∈ es, Forward e.2) ∧ ∃ s, ∃ now : ℤ, ∃ db : Database, ∃ windowFrom windowTo : ℤ,
    run (family next) untouched es = some s ∧ (∀ id, (s id).world.clock ≤ now) ∧
      (∀ id, (db.rowsOf id).Perm (s id).world.sessions) ∧ windowFrom < windowTo ∧
      roundHalfUp ((max 0 (min windowTo now - windowFrom) : ℤ) / 1000) <
        usedSecondsOf (ReportsService.rows .double (fun _ _ => 0) db.machines
          (db.sessions.map SessionRow.usage) windowFrom windowTo now) "m1"

theorem overcounted_of_run {es : List (Pool.Label SessionEvent Input)}
    {p : Pool (World PlainHash) SessionCall} (hf : ∀ label ∈ es, Forward label)
    (h : run next ⟨World.created 0, []⟩ es = some p) (windowFrom windowTo now : ℤ)
    (hnow : p.world.clock ≤ now) (hpos : 0 ≤ now) (hwindow : windowFrom < windowTo)
    (seconds : List ℕ) (hms : msOf ((table p.world.sessions).sessions.map SessionRow.usage) now "m1"
      windowFrom windowTo = seconds.map fun s : ℕ => (1000 * s : ℤ))
    (hsum : 8 * seconds.sum < 2 ^ 53)
    (hlt : nearestSecond (max 0 (min windowTo now - windowFrom)) < seconds.sum) :
    Overcounted (es.map fun label => ("m1", label)) := by
  refine ⟨by simpa using hf, _, now, table p.world.sessions, windowFrom, windowTo,
    run_family_single h, fun id => ?_, rowsOf_table p, hwindow, ?_⟩
  · by_cases hid : id = "m1"
    · rwa [hid, Function.update_self]
    · rwa [Function.update_of_ne hid]
  · have hlisted : "m1" ∈ reportedIds (table p.world.sessions).machines :=
      (by decide : "m1" ∈ reportedIds [desk])
    rw [ReportsService.usedSecondsOf_rows, if_pos hlisted, secondsOf_double, hms,
      (doubleSeconds_of_seconds hsum).1, roundHalfUp_natCast, roundHalfUp_eq]
    rw [← Int.cast_natCast (n := seconds.sum)]
    exact Int.cast_lt.2 hlt

/-- A call goes on. -/
def goOn (i : ℕ) (id : String) : Pool.Label SessionEvent Input := .call i ⟨0, 0, "", id, 0⟩

/-- A session of one minute, up to the row. -/
def started : List (Pool.Label SessionEvent Input) := .env (.start 1) :: List.replicate 7 (goOn 0 "x")

/-- It is ended after twenty seconds. -/
def ended : List (Pool.Label SessionEvent Input) :=
  .env (.tick 20000) :: .env (.edit "x" .end) :: List.replicate 5 (goOn 1 "")

/-- It is extended by an hour, and the sweeper comes between the check and the write. -/
def extendedLate : List (Pool.Label SessionEvent Input) :=
  [.env (.edit "x" (.extend 60)), goOn 1 "", goOn 1 "", goOn 1 "", .env (.sweep 60001), goOn 2 "",
    goOn 1 ""]

/-- Another session is stamped after ten seconds, and created after the end of the first, ten seconds
later. -/
def startedEarly : List (Pool.Label SessionEvent Input) :=
  [.env (.start 1), goOn 1 "", goOn 1 "", goOn 1 "", .env (.tick 10000), goOn 1 "", goOn 1 "",
    .env (.edit "x" .end), goOn 2 "", .env (.tick 10000), goOn 2 "", goOn 2 "", goOn 2 "", goOn 1 "y"]

theorem usage_within_time_ended :
    ∃ p, run next (untouched "m1") (started ++ ended) = some p ∧
      let reported (arithmetic : Arithmetic) := usedSecondsOf (ReportsService.rows arithmetic
        (fun _ _ => 0) [desk] ((table p.world.sessions).sessions.map SessionRow.usage) 0 60000 30000)
        "m1"
      reported .exact ≤ roundHalfUp ((max 0 (min 60000 30000 - 0) : ℤ) / 1000) ∧
        reported .double ≤ roundHalfUp ((max 0 (min 60000 30000 - 0) : ℤ) / 1000) := by
  refine ⟨_, rfl, ?_⟩
  have htimely : Along (family next) (fun s e => Timely (s e.1) e.2) untouched
      ((started ++ ended).map fun label => ("m1", label)) := by decide
  refine And.imp_right (fun h => h ?_) (usage_within_time (fun _ => rfl) (by decide) htimely
    (run_family_single rfl) (fun id => ?_) (rowsOf_table _) (fun _ _ => 0) "m1" 0 60000)
  · by_cases hid : id = "m1"
    · rw [hid, Function.update_self]
      decide
    · rw [Function.update_of_ne hid]
      decide
  · decide

/-- The hour is counted before it has passed, and ten seconds are counted twice. -/
theorem time_overcounted :
    Overcounted ((started ++ extendedLate).map fun label => ("m1", label)) ∧
      Overcounted ((started ++ startedEarly).map fun label => ("m1", label)) := by
  constructor
  · exact overcounted_of_run (by decide) rfl 0 3600000 60001 (by decide) (by decide) (by decide)
      [3600] (by decide) (by decide) (by decide)
  · exact overcounted_of_run (by decide) rfl 0 60000 20000 (by decide) (by decide) (by decide)
      [20, 10] (by decide) (by decide) (by decide)

end SessionPool

end Taymna.Api
