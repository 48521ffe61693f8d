import Taymna.Automata.Counter
import Taymna.Api.SessionPool

/-!
# What extensions add up to

An `extend` adds its minutes to the deadline that `requireActiveSession` has read, and writes the
sum in another query. So the session's deadline is a `Counter` that the calls of `extend` share, and
what they grant adds up only if no other extension of the session is written between the read and
the write of one. -/

namespace Taymna.Api

open Automata SessionsService

variable {Hash : Type*}

/-! ## What a call adds -/

/-- An `extend` or `end` of this session. -/
def SessionCall.edits (id : String) : SessionCall → Bool
  | .edit id' _ _ => id' = id
  | _ => false

/-- The minutes that the call has granted the session, once it has returned success. -/
def SessionCall.granted (id : String) : SessionCall → ℤ
  | .edit id' (.extend additionalMinutes) (.done _) => if id' = id then additionalMinutes else 0
  | _ => 0

/-- The minutes that it has written. -/
def SessionCall.added (id : String) : SessionCall → ℤ
  | .edit id' (.extend additionalMinutes) (.updated (some _)) =>
    if id' = id then additionalMinutes else 0
  | .edit id' (.extend additionalMinutes) (.done _) => if id' = id then additionalMinutes else 0
  | _ => 0

/-- The deadline that it has read, and still has to add to. -/
def SessionCall.base (id : String) : SessionCall → Option ℤ
  | .edit id' (.extend _) (.found _ (some session)) =>
    if id' = id then some session.expiresAt else none
  | .edit id' (.extend additionalMinutes) (.update _ (.extend expiresAt)) =>
    if id' = id then some (expiresAt - additionalMinutes * 60000) else none
  | .edit id' (.extend additionalMinutes) (.stamped _ (.extend expiresAt) _) =>
    if id' = id then some (expiresAt - additionalMinutes * 60000) else none
  | _ => none

/-- What the deadline that the call is about to write adds to. -/
def SessionCall.writing (id : String) : SessionCall → Option ℤ
  | .edit id' (.extend additionalMinutes) (.stamped _ (.extend expiresAt) _) =>
    if id' = id then some (expiresAt - additionalMinutes * 60000) else none
  | _ => none

/-- The call carries the arguments it was made with, which the controller has let through. -/
def SessionCall.Faithful : SessionCall → Prop
  | .edit id change pc =>
    change.allowed = true ∧
      match pc with
      | .find id' change' => id' = id ∧ change' = change
      | .found change' session => change' = change ∧ ∀ row ∈ session, row.id = id
      | .update id' written | .stamped id' written _ =>
        id' = id ∧ ((∃ now, change = .end ∧ written = .end now) ∨
          ∃ minutes expiresAt, change = .extend minutes ∧ written = .extend expiresAt)
      | _ => True
  | _ => True

namespace SessionPool

/-- The minutes that the calls have granted the session. -/
def granted (id : String) (calls : List SessionCall) : ℤ := (calls.map (SessionCall.granted id)).sum

/-- The deadline of the session. -/
def deadline (id : String) (rows : List Session) : Option ℤ :=
  (findUnique rows id).map Session.expiresAt

/-- No other extension of the session is written between the read and the write of one. -/
def Current (id : String) (p : Pool (World Hash) SessionCall) :
    Pool.Label SessionEvent Input → Prop
  | .call i _ => ∀ c ∈ p.calls[i]?, ∀ base ∈ c.writing id, deadline id p.world.sessions = some base
  | .env _ => True

instance (id : String) (p : Pool (World Hash) SessionCall) : ∀ label, Decidable (Current id p label)
  | .call _ _ => inferInstanceAs (Decidable (∀ c ∈ _, _))
  | .env _ => instDecidableTrue

/-- The deadline as a counter, in milliseconds: it starts at `start`. -/
def counter (id : String) (start : ℤ) (p : Pool (World Hash) SessionCall) : Counter ℤ where
  value := (deadline id p.world.sessions).getD 0
  total := start + (p.calls.map (SessionCall.added id)).sum * 60000
  reads := { r | ∃ c ∈ p.calls, c.base id = some r }

/-! ## The arguments of a call -/

section Step

variable {w w' : World Hash} {input : Input} {c c' : SessionCall} {id : String}

theorem faithful_of_event {e : SessionEvent} {cs : List SessionCall}
    (h : event w e = some (w', cs)) : ∀ c ∈ cs, c.Faithful := by
  intro c hc
  cases made_of_event h c hc with
  | edit hallowed => exact ⟨hallowed, rfl, rfl⟩
  | start | getActiveSession | sweep => trivial

theorem faithful_of_step (h : Step w input c w' c') (hc : c.Faithful) : c'.Faithful := by
  cases h with
  | edit h =>
    obtain ⟨hallowed, hc⟩ := hc
    refine ⟨hallowed, ?_⟩
    cases h with
    | find =>
      obtain ⟨rfl, rfl⟩ := hc
      exact ⟨rfl, fun row hrow => (findUnique_some hrow).2⟩
    | @allowed change session =>
      obtain ⟨rfl, hid⟩ := hc
      refine ⟨hid session rfl, ?_⟩
      cases change with
      | extend minutes => exact Or.inr ⟨minutes, _, rfl, rfl⟩
      | «end» => exact Or.inl ⟨_, rfl, rfl⟩
    | stamp => exact hc
    | unknown | inactive | expired | update | missing | push | failed => trivial
  | start | expire | expired | find | sweep => trivial

/-! ## The deadline -/

theorem deadline_of_rowsStep {rows rows' : List Session} (h : RowsStep rows c rows')
    (hrow : (deadline id rows).isSome) (hwriting : ∀ change pc, c ≠ .edit id change pc)
    (hc : c.Faithful) : deadline id rows' = deadline id rows := by
  cases h with
  | keep => rfl
  | @expire _ now updatedAt =>
    unfold deadline expireStale
    rw [findUnique_map (fun r => by split_ifs <;> rfl), Option.map_map]
    refine congrArg (Option.map · (findUnique rows id)) (funext fun r => ?_)
    simp only [Function.comp]
    split_ifs <;> rfl
  | create =>
    unfold deadline at hrow ⊢
    rw [findUnique_append _ (by simpa using hrow)]
  | @update id' change id'' edit updatedAt _ _ hupdate =>
    obtain ⟨-, rfl, -⟩ := hc
    obtain ⟨row, -, -, rfl⟩ := update_eq_some hupdate
    unfold deadline
    rw [findUnique_map (fun r => by split_ifs <;> simp)]
    cases hfind : findUnique rows id with
    | none => rfl
    | some r =>
      have hne : r.id ≠ id'' := by
        rintro he
        obtain rfl := (findUnique_some hfind).2
        exact hwriting change _ (by rw [he])
      simp [hne]

/-- A call about something else neither reads the deadline nor adds to it. -/
theorem silent_of_not_edits (h : c.edits id = false) :
    c.added id = 0 ∧ c.base id = none ∧ c.writing id = none := by
  cases c with
  | edit id' change pc =>
    have hne : id' ≠ id := by simpa [SessionCall.edits] using h
    refine ⟨?_, ?_, ?_⟩
    · unfold SessionCall.added
      split <;> simp_all
    · unfold SessionCall.base
      split <;> simp_all
    · unfold SessionCall.writing
      split <;> simp_all
  | start | getActiveSession | sweep => exact ⟨rfl, rfl, rfl⟩

theorem edits_of_step (h : Step w input c w' c') : c'.edits id = c.edits id := by
  cases h <;> rfl

/-- A step that does not write the deadline. -/
structure Quiet (id : String) (w w' : World Hash) (c c' : SessionCall) : Prop where
  deadline : deadline id w'.sessions = deadline id w.sessions
  added : c'.added id = c.added id
  base : ∀ r, c'.base id = some r → c.base id = some r ∨ SessionPool.deadline id w.sessions = some r
  writing : c.writing id = none

/-- A step that adds to the deadline that the call has read. -/
structure Adds (id : String) (read minutes : ℤ) (w' : World Hash) (c c' : SessionCall) : Prop where
  base : c.base id = some read
  writing : c.writing id = some read
  pos : 0 < minutes
  deadline : deadline id w'.sessions = some (read + minutes * 60000)
  added : c'.added id = c.added id + minutes
  done : c'.base id = none

theorem quiet_of_not_edits (h : Step w input c w' c') (hc : c.Faithful)
    (hrow : (deadline id w.sessions).isSome) (he : c.edits id = false) : Quiet id w w' c c' := by
  obtain ⟨hadded, -, hwriting⟩ := silent_of_not_edits he
  obtain ⟨hadded', hbase', -⟩ := silent_of_not_edits ((edits_of_step h).trans he)
  have hne : ∀ change pc, c ≠ .edit id change pc := by
    rintro change pc rfl
    simp [SessionCall.edits] at he
  refine ⟨deadline_of_rowsStep (rowsStep_of_step h) hrow hne hc, ?_, ?_, hwriting⟩
  · rw [hadded, hadded']
  · simp [hbase']

/-- An `end` of the session leaves its deadline. -/
theorem quiet_of_end {pc pc' : EditSession} (h : EditSession.Step w input pc w' pc')
    (hc : (SessionCall.edit id .end pc).Faithful) :
    Quiet id w w' (.edit id .end pc) (.edit id .end pc') := by
  refine ⟨?_, rfl, by simp [SessionCall.base], rfl⟩
  cases h with
  | @update id' edit updatedAt rows session hupdate =>
    obtain ⟨-, rfl, ⟨now, -, rfl⟩ | ⟨minutes, expiresAt, he, -⟩⟩ := hc
    · obtain ⟨row, -, -, rfl⟩ := update_eq_some hupdate
      unfold deadline
      rw [findUnique_map (fun r => by split_ifs <;> simp), Option.map_map]
      refine congrArg (Option.map · _) (funext fun r => ?_)
      simp only [Function.comp]
      split_ifs <;> rfl
    · cases he
  | push => rw [pushSessionUpdate_sessions]
  | find | unknown | inactive | expired | allowed | stamp | missing | failed => rfl

/-- An `extend` of the session. -/
theorem count_of_extend {minutes : ℤ} {pc pc' : EditSession} (h : EditSession.Step w input pc w' pc')
    (hc : (SessionCall.edit id (.extend minutes) pc).Faithful)
    (hrow : (deadline id w.sessions).isSome) :
    Quiet id w w' (.edit id (.extend minutes) pc) (.edit id (.extend minutes) pc') ∨
      ∃ read, Adds id read minutes w' (.edit id (.extend minutes) pc)
        (.edit id (.extend minutes) pc') := by
  obtain ⟨hallowed, hpc⟩ := hc
  have hpos : 0 < minutes := by
    simp only [Change.allowed, allowedMinutes, Bool.and_eq_true, decide_eq_true_eq] at hallowed
    omega
  cases h with
  | find =>
    obtain ⟨rfl, rfl⟩ := hpc
    refine Or.inl ⟨rfl, rfl, fun r hr => Or.inr ?_, rfl⟩
    unfold deadline
    cases hfind : findUnique w.sessions _ with
    | none => simp [hfind, SessionCall.base] at hr
    | some row => simpa [hfind, SessionCall.base] using hr
  | allowed =>
    obtain ⟨rfl, -⟩ := hpc
    exact Or.inl ⟨rfl, rfl,
      fun r hr => Or.inl (by simpa [SessionCall.base, EditSession.edit] using hr), rfl⟩
  | @stamp id' written =>
    refine Or.inl ⟨rfl, rfl, fun r hr => Or.inl ?_, rfl⟩
    cases written <;> exact hr
  | @update id' written updatedAt rows session hupdate =>
    obtain ⟨rfl, ⟨now, he, -⟩ | ⟨minutes', expiresAt, he, rfl⟩⟩ := hpc
    · cases he
    · refine Or.inr ⟨expiresAt - minutes * 60000, ?_, ?_, hpos, ?_, ?_, ?_⟩
      · simp [SessionCall.base]
      · simp [SessionCall.writing]
      · obtain ⟨row, hfind, -, rfl⟩ := update_eq_some hupdate
        unfold deadline
        rw [findUnique_map (fun r => by split_ifs <;> simp), hfind]
        simp [(findUnique_some hfind).2, Edit.apply]
      · simp [SessionCall.added]
      · simp [SessionCall.base]
  | @missing id' written updatedAt hupdate =>
    obtain ⟨rfl, -⟩ := hpc
    unfold deadline at hrow
    unfold update at hupdate
    split at hupdate
    · rename_i hnone
      simp [hnone] at hrow
    · cases hupdate
  | push => exact Or.inl ⟨by rw [pushSessionUpdate_sessions], rfl, by simp [SessionCall.base], rfl⟩
  | unknown | inactive | expired | failed =>
    exact Or.inl ⟨rfl, rfl, by simp [SessionCall.base], rfl⟩

theorem count_of_step (h : Step w input c w' c') (hc : c.Faithful)
    (hrow : (deadline id w.sessions).isSome) :
    Quiet id w w' c c' ∨ ∃ read minutes, Adds id read minutes w' c c' := by
  cases he : c.edits id with
  | false => exact Or.inl (quiet_of_not_edits h hc hrow he)
  | true =>
    cases h with
    | @edit id' change pc _ pc' h =>
      obtain rfl : id' = id := by simpa [SessionCall.edits] using he
      cases change with
      | extend minutes =>
        exact (count_of_extend h hc hrow).imp_right fun ⟨read, hadds⟩ => ⟨read, minutes, hadds⟩
      | «end» => exact Or.inl (quiet_of_end h hc)
    | start | expire | expired | find | sweep => cases he

/-- A call that starts has read nothing yet. -/
theorem silent_of_event (id : String) {e : SessionEvent} {cs : List SessionCall}
    (h : event w e = some (w', cs)) : ∀ c ∈ cs, c.added id = 0 ∧ c.base id = none := by
  intro c hc
  cases made_of_event h c hc with
  | start | edit | getActiveSession | sweep => simp [SessionCall.added, SessionCall.base]

end Step

/-! ## Whole runs -/

variable {id : String} {p q : Pool (World Hash) SessionCall} {label : Pool.Label SessionEvent Input}

/-- The session is there, and its calls carry their arguments. -/
structure Ready (id : String) (p : Pool (World Hash) SessionCall) : Prop where
  row : (deadline id p.world.sessions).isSome
  calls : ∀ c ∈ p.calls, c.Faithful

theorem faithful_next (hp : ∀ c ∈ p.calls, c.Faithful) (h : next p label = some q) :
    ∀ c ∈ q.calls, c.Faithful := by
  intro c hc
  cases Pool.next_iff.1 h with
  | env he => exact (List.mem_append.1 hc).elim (hp c) (faithful_of_event he c)
  | call hget hstep =>
    rcases Pool.mem_set_cases hc with rfl | hc
    · exact faithful_of_step (step_cases hstep) (hp _ (List.mem_of_getElem? hget))
    · exact hp c hc

/-- Every step of the pool is a step of the counter. -/
theorem counter_step (start : ℤ) (hp : Ready id p) (h : next p label = some q) :
    Ready id q ∧ (counter id start p).Step (Current id p label) (counter id start q) := by
  have hfaithful := faithful_next hp.calls h
  cases Pool.next_iff.1 h with
  | @env event w cs he =>
    have hrows := event_sessions he
    have hsilent := silent_of_event id he
    refine ⟨⟨by rw [hrows]; exact hp.row, hfaithful⟩, ?_⟩
    have hsum : (cs.map (SessionCall.added id)).sum = 0 :=
      List.sum_eq_zero fun x hx => by
        obtain ⟨c, hc, rfl⟩ := List.mem_map.1 hx
        exact (hsilent c hc).1
    refine .quiet_of (congrArg (fun rows => (deadline id rows).getD 0) hrows) ?_ ?_ trivial
    · simp [counter, hsum]
    · rintro r ⟨c, hc, hr⟩
      rcases List.mem_append.1 hc with hc | hc
      · exact Or.inr ⟨c, hc, hr⟩
      · rw [(hsilent c hc).2] at hr
        cases hr
  | @call i input c w c' hget hstep =>
    have hmem := List.mem_of_getElem? hget
    have hsum := Pool.sum_map_set (SessionCall.added id) hget c'
    rcases count_of_step (step_cases hstep) (hp.calls c hmem) hp.row with hquiet | ⟨read, minutes, hadds⟩
    · refine ⟨⟨by rw [hquiet.deadline]; exact hp.row, hfaithful⟩, ?_⟩
      refine .quiet_of (congrArg (Option.getD · 0) hquiet.deadline) ?_ ?_ ?_
      · simp only [counter, hsum, hquiet.added, sub_self, add_zero]
      · rintro r ⟨d, hd, hr⟩
        rcases Pool.mem_set_cases hd with rfl | hd
        · refine (hquiet.base r hr).symm.imp (fun hdeadline => ?_) fun hbase => ⟨c, hmem, hbase⟩
          simp [counter, hdeadline]
        · exact Or.inr ⟨d, hd, hr⟩
      · simp [Current, hget, hquiet.writing]
    · refine ⟨⟨by rw [hadds.deadline]; rfl, hfaithful⟩, ?_⟩
      obtain ⟨value, hvalue⟩ := Option.isSome_iff_exists.1 hp.row
      have hpos : 0 < minutes * 60000 := by
        have := hadds.pos
        omega
      refine .write_of ⟨c, hmem, hadds.base⟩ hpos (by simp [counter, hadds.deadline]) ?_ ?_ ?_
      · simp only [counter, hsum, hadds.added]
        omega
      · rintro r ⟨d, hd, hr⟩
        rcases Pool.mem_set_cases hd with rfl | hd
        · cases hadds.done.symm.trans hr
        · exact ⟨d, hd, hr⟩
      · simp [Current, hget, hadds.writing, counter, hvalue, eq_comm]

/-- A session that no call is about yet, and what its deadline starts from. -/
theorem counter_sound {row : Session} (hrow : findUnique p.world.sessions id = some row)
    (hnew : ∀ c ∈ p.calls, c.edits id = false) :
    (counter id row.expiresAt p).value = row.expiresAt ∧
      (counter id row.expiresAt p).total = row.expiresAt ∧ (counter id row.expiresAt p).reads = ∅ := by
  have hsum : (p.calls.map (SessionCall.added id)).sum = 0 :=
    List.sum_eq_zero fun x hx => by
      obtain ⟨c, hc, rfl⟩ := List.mem_map.1 hx
      exact (silent_of_not_edits (hnew c hc)).1
  refine ⟨by simp [counter, deadline, hrow], by simp [counter, hsum], ?_⟩
  refine Set.eq_empty_of_forall_notMem fun r ⟨c, hc, hr⟩ => ?_
  cases (silent_of_not_edits (hnew c hc)).2.1.symm.trans hr

/-- Once the calls have returned, what they have written is what they have granted. -/
theorem added_eq_granted {c : SessionCall} (hc : c.edits id = true → c.returned = true) :
    c.added id = c.granted id := by
  cases c with
  | edit id' change pc =>
    by_cases he : id' = id
    · subst he
      have hret := hc (by simp [SessionCall.edits])
      cases change <;> cases pc <;> first | rfl | cases hret
    · rw [(silent_of_not_edits (by simpa [SessionCall.edits] using he)).1]
      unfold SessionCall.granted
      split <;> simp_all
  | start | getActiveSession | sweep => rfl

/-- However the calls interleave, from a moment at which the session is there and no call is about
it yet, to one at which all the calls about it have returned: its deadline has moved by the minutes
that the calls have granted if and only if no other extension of it was written between the read and
the write of one. -/
theorem extensions_counted_iff (w : World Hash) {es₁ es₂ : List (Pool.Label SessionEvent Input)}
    {p₁ p : Pool (World Hash) SessionCall} {row : Session} (h₁ : run next ⟨w, []⟩ es₁ = some p₁)
    (hrow : findUnique p₁.world.sessions id = some row) (hnew : ∀ c ∈ p₁.calls, c.edits id = false)
    (h₂ : run next p₁ es₂ = some p) (hret : ∀ c ∈ p.calls, c.edits id = true → c.returned = true) :
    deadline id p.world.sessions = some (row.expiresAt + granted id p.calls * 60000) ↔
      Along next (Current id) p₁ es₂ := by
  have hready : Ready id p₁ := by
    refine ⟨by simp [deadline, hrow], ?_⟩
    exact run_invariant (I := fun p => ∀ c ∈ p.calls, c.Faithful) (fun _ _ _ hp h => faithful_next hp h)
      (by simp) h₁
  obtain ⟨hvalue, htotal, hreads⟩ := counter_sound hrow hnew
  have hsound : (counter id row.expiresAt p₁).Sound := by
    refine ⟨?_, ?_, ?_⟩ <;> simp [hvalue, htotal, hreads]
  have hcounted := Counter.counted_iff (f := counter id row.expiresAt)
    (fun _ _ _ hp h => counter_step row.expiresAt hp h) hready hsound h₂
  rw [hvalue, htotal, eq_self, true_and] at hcounted
  have hgranted : granted id p.calls = (p.calls.map (SessionCall.added id)).sum :=
    congrArg List.sum (List.map_congr_left fun c hc => (added_eq_granted (hret c hc)).symm)
  have hready' : Ready id p :=
    run_invariant (fun _ _ _ hp h => (counter_step row.expiresAt hp h).1) hready h₂
  obtain ⟨value, hdeadline⟩ := Option.isSome_iff_exists.1 hready'.row
  rw [← hcounted, hgranted, hdeadline, Option.some.injEq]
  simp [counter, hdeadline]

/-- A machine with a session of one minute. -/
def running : World PlainHash :=
  { World.created 0 with sessions := [⟨"x", 0, 60000, none, .active, 0⟩] }

/-- Two extensions, the second of which reads what the first has written. -/
def inTurn : List (Pool.Label SessionEvent Input) :=
  let go (i : ℕ) : Pool.Label SessionEvent Input := .call i ⟨1, 1, "", "", 0⟩
  [.env (.edit "x" (.extend 10)), go 0, go 0, go 0, go 0, go 0, .env (.edit "x" (.extend 5)), go 1,
    go 1, go 1, go 1, go 1]

theorem extensions_counted_inTurn :
    ∃ p, run next (⟨running, []⟩ : Pool _ _) inTurn = some p ∧
      (deadline "x" p.world.sessions = some (60000 + granted "x" p.calls * 60000) ↔
        Along next (Current "x") (⟨running, []⟩ : Pool _ _) inTurn) := by
  refine ⟨_, rfl, ?_⟩
  have hstart : run next ⟨running, []⟩ [] = some ⟨running, []⟩ := rfl
  have hrow : findUnique running.sessions "x" = some ⟨"x", 0, 60000, none, .active, 0⟩ := rfl
  exact extensions_counted_iff running hstart hrow (by simp) rfl (by decide)

/-- Two extensions that read the same deadline. -/
def atOnce : List (Pool.Label SessionEvent Input) :=
  let go (i : ℕ) : Pool.Label SessionEvent Input := .call i ⟨1, 1, "", "", 0⟩
  [.env (.edit "x" (.extend 10)), .env (.edit "x" (.extend 5)), go 0, go 1, go 0, go 0, go 1, go 1,
    go 0, go 1, go 0, go 1]

/-- Both return success, and the ten minutes of the first are gone. -/
theorem extension_lost :
    ∃ p, run next (⟨running, []⟩ : Pool _ _) atOnce = some p ∧
      (∀ c ∈ p.calls, c.returned = true) ∧ granted "x" p.calls = 15 ∧
      deadline "x" p.world.sessions = some (60000 + 5 * 60000) :=
  ⟨_, rfl, by decide, by decide, by decide⟩

end SessionPool

end Taymna.Api
