import Taymna.Automata.Run
import Taymna.Agent.RunLoop

/-!
# Offline expiry

The loop marks an overdue session `EXPIRED` in place, saves the mark together with the trusted
high-water mark, and reloads both after a restart. `Arrivals` follows, place by place, the session
as it came from the server, and `Faithful` relates the two: the mark is only ever on a session
whose deadline the saved high-water mark has passed. So the decision of a tick is the stateless
comparison of the arrived session with the trusted time, and a decision to block that has been
saved is final until something newer is applied.
-/

namespace Taymna.Agent

open Automata

/-- For each place that holds a session: the same session as it arrived. -/
structure Arrivals where
  memory : Option SessionSnapshot
  tmp : Option SessionSnapshot
  disk : Option SessionSnapshot
deriving DecidableEq, Repr

/-- The session that a state file holds. -/
def StateFile.session : StateFile → Option SessionSnapshot
  | .readable state => state.session
  | _ => none

namespace Arrivals

/-- Before the first step, what the state file holds is taken as it stands. -/
def initial (disk : Disk) : Arrivals :=
  { memory := none, tmp := none, disk := disk.stateJson.session }

/-- What a server event brings into memory. -/
def onEvent (r : RunLoop) (event : ServerEvent) (memory : Option SessionSnapshot) :
    Option SessionSnapshot :=
  if r.decommissioned then memory
  else
    match event with
    | .decommission => none
    | .sessionState session messageTime =>
      if messageTime ≤ r.state.lastAppliedAt then memory else session
    | .serverTime _ => memory

/-- Where the arrived sessions are after a step. -/
def next (h : Host) (label : Host.Label) (a : Arrivals) : Arrivals :=
  match h.process, label with
  | _, .start _ _ => { a with memory := a.disk }
  | .running r, .event (some event) _ => { a with memory := onEvent r event a.memory }
  | .running r, .proceed =>
    match r.pc with
    | .save _ => { a with tmp := a.memory }
    | .rename _ => { a with disk := a.tmp }
    | _ => a
  | _, .enroll _ _ => { a with disk := none }
  | _, _ => a

end Arrivals

/-- A host with the arrived sessions followed along. -/
def Host.traced : Host × Arrivals → Host.Label → Option (Host × Arrivals) :=
  annotated (silent Host.step) Arrivals.next

/-! ## What is held is what arrived, or its mark -/

/-- `state` holds the arrived session, or that session marked once the high-water mark has passed
its deadline. -/
def AgentState.Holds (state : AgentState) (arrived : Option SessionSnapshot) : Prop :=
  state.session = arrived ∨
    ∃ s, arrived = some s ∧ s.status = .active ∧ s.expiresAt ≤ state.trustedHighWaterMark ∧
      state.session = some { s with status := .expired }

/-- The arrived session grants time past `trustedNow`. -/
def Grants (arrived : Option SessionSnapshot) (trustedNow : ℤ) : Prop :=
  ∃ s, arrived = some s ∧ s.status = .active ∧ trustedNow < s.expiresAt

/-- From the high-water mark on, the decision on the held session is the comparison with the
arrived one. -/
theorem AgentState.Holds.advance_allowed_iff {state : AgentState} {arrived : Option SessionSnapshot}
    (h : state.Holds arrived) {trustedNow : ℤ} (ht : state.trustedHighWaterMark ≤ trustedNow) :
    (advance state.session trustedNow).2 = .allowed ↔ Grants arrived trustedNow := by
  rcases h with h | ⟨s, harr, hact, hle, hs⟩
  · rw [h, Agent.advance_allowed_iff, Grants]
  · rw [hs, Agent.advance_allowed_iff]
    constructor
    · rintro ⟨s', hs', hact', -⟩
      obtain rfl := Option.some.inj hs'
      cases hact'
    · rintro ⟨s', hs', -, hlt⟩
      rw [harr] at hs'
      obtain rfl := Option.some.inj hs'
      exact absurd hlt (not_lt.2 (hle.trans ht))

/-- A later high-water mark is as good. -/
theorem AgentState.Holds.mono {state state' : AgentState} {arrived : Option SessionSnapshot}
    (h : state.Holds arrived) (hs : state'.session = state.session)
    (hm : state.trustedHighWaterMark ≤ state'.trustedHighWaterMark) : state'.Holds arrived := by
  rcases h with h | ⟨s, harr, hact, hle, hheld⟩
  · exact Or.inl (hs.trans h)
  · exact Or.inr ⟨s, harr, hact, hle.trans hm, hs.trans hheld⟩

/-- The mark that a tick leaves. -/
theorem AgentState.Holds.advance {state state' : AgentState} {arrived : Option SessionSnapshot}
    (h : state.Holds arrived) (hm : state.trustedHighWaterMark ≤ state'.trustedHighWaterMark)
    (hs : state'.session = (advance state.session state'.trustedHighWaterMark).1) :
    state'.Holds arrived := by
  rw [advance_fst] at hs
  rcases h with h | ⟨s, harr, hact, hle, hheld⟩
  · rw [h] at hs
    cases arrived with
    | none => exact Or.inl hs
    | some s =>
      by_cases hexp : s.status = .active ∧ s.expiresAt ≤ state'.trustedHighWaterMark
      · refine Or.inr ⟨s, rfl, hexp.1, hexp.2, ?_⟩
        rw [hs, Option.map_some, expire, if_pos hexp]
      · refine Or.inl ?_
        rw [hs, Option.map_some, expire, if_neg hexp]
  · refine Or.inr ⟨s, harr, hact, hle.trans hm, ?_⟩
    rw [hs, hheld, Option.map_some, expire_of_not_active (by simp)]

namespace RunLoop

/-- The state's mark is the clock's. -/
def Synced (r : RunLoop) : Prop := r.state.trustedHighWaterMark = r.clock.highWaterMark

theorem synced_onEvent {r : RunLoop} (h : r.Synced) (event : ServerEvent) (instant : ℕ) :
    (r.onEvent event instant).Synced := by
  unfold onEvent
  split_ifs
  · exact h
  · cases event with
    | decommission => exact h
    | sessionState session messageTime =>
      dsimp only
      split_ifs
      · rfl
      · exact h
    | serverTime time => rfl

theorem synced_onTick {r : RunLoop} (h : r.Synced) (osNow : ℤ) (instants : Instants) :
    (r.onTick osNow instants).1.Synced := by
  unfold onTick
  split_ifs
  · exact h
  · rfl

theorem holds_resync {r : RunLoop} (hsync : r.Synced) {arrived : Option SessionSnapshot}
    (h : r.state.Holds arrived) (serverTime : ℤ) (instant : ℕ) :
    (r.resync serverTime instant).state.Holds arrived := by
  refine h.mono rfl ?_
  change r.state.trustedHighWaterMark ≤ (r.clock.resyncFromServer serverTime instant).highWaterMark
  rw [hsync, ClockGuard.resyncFromServer_highWaterMark]
  exact le_max_left _ _

theorem holds_onEvent {r : RunLoop} (hsync : r.Synced) {arrived : Option SessionSnapshot}
    (h : r.state.Holds arrived) (event : ServerEvent) (instant : ℕ) :
    (r.onEvent event instant).state.Holds (Arrivals.onEvent r event arrived) := by
  unfold onEvent Arrivals.onEvent
  split_ifs
  · exact h
  · cases event with
    | decommission => exact Or.inl rfl
    | sessionState session messageTime =>
      rcases le_or_gt messageTime r.state.lastAppliedAt with hle | hlt
      · simpa [applyServerMessage_stale hle, hle] using h
      · simp only [applyServerMessage_newer hlt, if_neg (not_le.2 hlt), if_true]
        exact Or.inl rfl
    | serverTime time => exact holds_resync hsync h time instant

theorem holds_onTick {r : RunLoop} (hsync : r.Synced) {arrived : Option SessionSnapshot}
    (h : r.state.Holds arrived) (osNow : ℤ) (instants : Instants) :
    (r.onTick osNow instants).1.state.Holds arrived := by
  unfold onTick
  split_ifs
  · exact h
  · refine h.advance ?_ rfl
    change r.state.trustedHighWaterMark ≤ r.clock.trusted osNow instants.read
    rw [hsync]
    exact r.clock.highWaterMark_le_trusted osNow instants.read

end RunLoop

/-- Each place holds what arrived there. -/
structure Faithful (h : Host) (a : Arrivals) : Prop where
  disk : ∀ state, h.disk.stateJson = .readable state → state.Holds a.disk
  memory : ∀ r, h.process = .running r → r.state.Holds a.memory
  synced : ∀ r, h.process = .running r → r.Synced
  written : ∀ r next, h.process = .running r → r.pc = .rename next →
    h.disk.tmp = .readable r.state ∧ a.tmp = a.memory

namespace Faithful

theorem of_stopped {disk : Disk} {a : Arrivals}
    (hd : ∀ state, disk.stateJson = .readable state → state.Holds a.disk) :
    Faithful ⟨disk, .stopped⟩ a where
  disk := hd
  memory r hr := by cases hr
  synced r hr := by cases hr
  written r next hr := by cases hr

theorem of_running {disk : Disk} {r : RunLoop} {a : Arrivals}
    (hd : ∀ state, disk.stateJson = .readable state → state.Holds a.disk)
    (hm : r.state.Holds a.memory) (hsync : r.Synced)
    (hw : ∀ next, r.pc = .rename next → disk.tmp = .readable r.state ∧ a.tmp = a.memory) :
    Faithful ⟨disk, .running r⟩ a where
  disk := hd
  memory r' hr := by
    obtain rfl := Process.running.inj hr
    exact hm
  synced r' hr := by
    obtain rfl := Process.running.inj hr
    exact hsync
  written r' next hr hpc := by
    obtain rfl := Process.running.inj hr
    exact hw next hpc

theorem initial (disk : Disk) : Faithful ⟨disk, .stopped⟩ (Arrivals.initial disk) := by
  refine of_stopped fun state hd => Or.inl ?_
  rw [Arrivals.initial, hd]
  rfl

/-- What a rename puts in place is what the memory held. -/
theorem renamed {disk : Disk} {r : RunLoop} {a : Arrivals} {next : AfterSave}
    (hf : Faithful ⟨disk, .running r⟩ a) (hpc : r.pc = .rename next) (state : AgentState)
    (hs : (Store.rename disk).stateJson = .readable state) : state.Holds a.tmp := by
  obtain ⟨htmp, harr⟩ := hf.written r next rfl hpc
  rw [Store.rename_stateJson, htmp] at hs
  obtain rfl := StateFile.readable.inj hs
  exact harr ▸ hf.memory r rfl

theorem step {h h' : Host} {a : Arrivals} {label : Host.Label} {effects : List Effect}
    (hf : Faithful h a) (hstep : Host.step h label = some (h', effects)) :
    Faithful h' (Arrivals.next h label a) := by
  cases Host.step_cases hstep with
  | start hb =>
    cases hb with
    | inert hd => exact ⟨hf.disk, by simp, by simp, by simp⟩
    | running hd => exact of_running hf.disk (hf.disk _ hd) rfl (by simp [RunLoop.start])
  | @crash _ torn =>
    have harr : Arrivals.next h (.crash torn) a = a := by
      unfold Arrivals.next
      split <;> simp_all
    rw [harr]
    exact of_stopped fun state hd => hf.disk state (by rwa [Host.crashed_stateJson] at hd)
  | shutdownInert => exact of_stopped hf.disk
  | enroll =>
    refine of_stopped fun state hd => ?_
    obtain rfl := StateFile.readable.inj hd
    exact Or.inl rfl
  | @event disk r event instant hpc =>
    have hsync : r.Synced := hf.synced r rfl
    exact of_running hf.disk (RunLoop.holds_onEvent hsync (hf.memory r rfl) event instant)
      (RunLoop.synced_onEvent hsync event instant)
      fun next hn => absurd hn (RunLoop.onEvent_pc_ne_rename hpc event instant next)
  | @tick disk r osNow instants hpc =>
    have hsync : r.Synced := hf.synced r rfl
    exact of_running hf.disk (RunLoop.holds_onTick hsync (hf.memory r rfl) osNow instants)
      (RunLoop.synced_onTick hsync osNow instants)
      fun next hn => absurd hn (RunLoop.onTick_pc_ne_rename hpc osNow instants next)
  | @shutdown disk r =>
    exact of_running hf.disk (hf.memory r rfl) (hf.synced r rfl) (by simp)
  | @closed disk r =>
    exact of_running hf.disk (hf.memory r rfl) (hf.synced r rfl) fun next => hf.written r next rfl
  | @warn disk r _ hpc | @acceptWarn disk r hpc | @acceptAck disk r hpc =>
    have harr : Arrivals.next ⟨disk, .running r⟩ .proceed a = a := by simp [Arrivals.next, hpc]
    rw [harr]
    exact of_running hf.disk (hf.memory r rfl) (hf.synced r rfl) (by simp)
  | @save disk r next hpc =>
    have harr : Arrivals.next ⟨disk, .running r⟩ .proceed a = { a with tmp := a.memory } := by
      simp [Arrivals.next, hpc]
    rw [harr]
    exact of_running hf.disk (hf.memory r rfl) (hf.synced r rfl) fun _ _ => ⟨rfl, rfl⟩
  | @renameExit disk r hpc =>
    have harr : Arrivals.next ⟨disk, .running r⟩ .proceed a = { a with disk := a.tmp } := by
      simp [Arrivals.next, hpc]
    rw [harr]
    exact of_stopped (hf.renamed hpc)
  | @renameLoop disk r hpc | @renameAccept disk r hpc =>
    have harr : Arrivals.next ⟨disk, .running r⟩ .proceed a = { a with disk := a.tmp } := by
      simp [Arrivals.next, hpc]
    rw [harr]
    exact of_running (hf.renamed hpc) (hf.memory r rfl) (hf.synced r rfl) (by simp)

theorem run {disk : Disk} {es : List Host.Label} {p : Host × Arrivals}
    (h : run Host.traced (⟨disk, .stopped⟩, Arrivals.initial disk) es = some p) :
    Faithful p.1 p.2 := by
  refine run_invariant (I := fun p : Host × Arrivals => Faithful p.1 p.2) (fun p label q hp hq => ?_)
    (initial disk) h
  obtain ⟨h', hh, rfl⟩ := annotated_eq_some.1 hq
  obtain ⟨effects, he⟩ := silent_eq_some.1 hh
  exact hp.step he

end Faithful

/-! ## Where an arrived session comes from -/

/-- `session` was in the state file at first, or a server event has carried it. -/
def Carried (disk : Disk) (es : List Host.Label) (session : Option SessionSnapshot) : Prop :=
  ∀ s, session = some s → disk.stateJson.session = some s ∨
    ∃ messageTime instant, .event (some (.sessionState (some s) messageTime)) instant ∈ es

theorem Carried.concat {disk : Disk} {es : List Host.Label} {session : Option SessionSnapshot}
    (h : Carried disk es session) (label : Host.Label) : Carried disk (es ++ [label]) session := by
  intro s hs
  rcases h s hs with h | ⟨messageTime, instant, h⟩
  · exact Or.inl h
  · exact Or.inr ⟨messageTime, instant, List.mem_append_left _ h⟩

theorem carried_onEvent {disk : Disk} {es : List Host.Label} {memory : Option SessionSnapshot}
    (h : Carried disk es memory) (r : RunLoop) (event : ServerEvent) (instant : ℕ) :
    Carried disk (es ++ [.event (some event) instant]) (Arrivals.onEvent r event memory) := by
  unfold Arrivals.onEvent
  split_ifs
  · exact h.concat _
  · cases event with
    | decommission => exact fun s hs => by cases hs
    | sessionState session messageTime =>
      dsimp only
      split_ifs
      · exact h.concat _
      · rintro s rfl
        exact Or.inr ⟨messageTime, instant, by simp⟩
    | serverTime time => exact h.concat _

theorem carried_run {disk : Disk} {es : List Host.Label} {h : Host} {a : Arrivals}
    (hrun : run Host.traced (⟨disk, .stopped⟩, Arrivals.initial disk) es = some (h, a)) :
    Carried disk es a.memory ∧ Carried disk es a.tmp ∧ Carried disk es a.disk := by
  refine run_history_invariant (I := fun es (p : Host × Arrivals) =>
    Carried disk es p.2.memory ∧ Carried disk es p.2.tmp ∧ Carried disk es p.2.disk)
    ⟨by simp [Carried, Arrivals.initial], by simp [Carried, Arrivals.initial],
      fun s hs => Or.inl hs⟩ ?_ hrun
  rintro es ⟨h, a⟩ label q ⟨hm, ht, hd⟩ hq
  obtain ⟨h', -, rfl⟩ := annotated_eq_some.1 hq
  dsimp only
  unfold Arrivals.next
  split
  · exact ⟨hd.concat _, ht.concat _, hd.concat _⟩
  · exact ⟨carried_onEvent hm _ _ _, ht.concat _, hd.concat _⟩
  · split
    · exact ⟨hm.concat _, hm.concat _, hd.concat _⟩
    · exact ⟨hm.concat _, ht.concat _, ht.concat _⟩
    · exact ⟨hm.concat _, ht.concat _, hd.concat _⟩
  · exact ⟨hm.concat _, ht.concat _, fun s hs => by cases hs⟩
  · exact ⟨hm.concat _, ht.concat _, hd.concat _⟩

/-! ## What every place keeps -/

namespace Host

/-- `P` holds of the state in the file, and `Q` of the loop, whose state is the one that is about to be
put in place of the file. -/
structure Kept (P : AgentState → Prop) (Q : RunLoop → Prop) (h : Host) : Prop where
  disk : ∀ state, h.disk.stateJson = .readable state → P state
  memory : ∀ r, h.process = .running r → Q r
  written : ∀ r next, h.process = .running r → r.pc = .rename next → h.disk.tmp = .readable r.state

namespace Kept

variable {P : AgentState → Prop} {Q : RunLoop → Prop}

theorem of_stopped {disk : Disk} (hd : ∀ state, disk.stateJson = .readable state → P state) :
    Kept P Q ⟨disk, .stopped⟩ where
  disk := hd
  memory r hr := by cases hr
  written r next hr := by cases hr

theorem of_running {disk : Disk} {r : RunLoop}
    (hd : ∀ state, disk.stateJson = .readable state → P state) (hm : Q r)
    (hw : ∀ next, r.pc = .rename next → disk.tmp = .readable r.state) :
    Kept P Q ⟨disk, .running r⟩ where
  disk := hd
  memory r' hr := by
    obtain rfl := Process.running.inj hr
    exact hm
  written r' next hr hpc := by
    obtain rfl := Process.running.inj hr
    exact hw next hpc

theorem renamed (hstate : ∀ r, Q r → P r.state) {disk : Disk} {r : RunLoop} {next : AfterSave}
    (hk : Kept P Q ⟨disk, .running r⟩) (hpc : r.pc = .rename next) (state : AgentState)
    (hs : (Store.rename disk).stateJson = .readable state) : P state := by
  rw [Store.rename_stateJson, hk.written r next rfl hpc] at hs
  obtain rfl := StateFile.readable.inj hs
  exact hstate r (hk.memory r rfl)

/-- What depends on the state and the clock alone, and is kept by a start, an enrolment, an event and
a tick, is kept by every step. -/
theorem step (hstate : ∀ r, Q r → P r.state)
    (hsame : ∀ r r', r'.state = r.state → r'.clock = r.clock → Q r → Q r')
    (hstart : ∀ state instant, P state → Q (RunLoop.start state instant)) {h h' : Host} {label : Label}
    {effects : List Effect} (hstep : Host.step h label = some (h', effects))
    (henroll : ∀ credentials now, label = .enroll credentials now →
      P (enrolledState (Store.loadForEnroll h.disk now).2 credentials))
    (hevent : ∀ r event instant, h.process = .running r → label = .event (some event) instant →
      Q r → Q (r.onEvent event instant))
    (htick : ∀ r osNow instants, Q r → Q (r.onTick osNow instants).1) (hk : Kept P Q h) :
    Kept P Q h' := by
  cases step_cases hstep with
  | start hb =>
    cases hb with
    | inert => exact ⟨hk.disk, by simp, by simp⟩
    | running hd => exact of_running hk.disk (hstart _ _ (hk.disk _ hd)) (by simp [RunLoop.start])
  | crash => exact of_stopped fun state hd => hk.disk state (by rwa [crashed_stateJson] at hd)
  | shutdownInert => exact of_stopped hk.disk
  | @enroll disk credentials now =>
    refine of_stopped fun state hd => ?_
    obtain rfl := StateFile.readable.inj hd
    exact henroll credentials now rfl
  | @event disk r event instant hpc =>
    exact of_running hk.disk (hevent r event instant rfl rfl (hk.memory r rfl))
      fun next hn => absurd hn (RunLoop.onEvent_pc_ne_rename hpc event instant next)
  | @tick disk r osNow instants hpc =>
    exact of_running hk.disk (htick r osNow instants (hk.memory r rfl))
      fun next hn => absurd hn (RunLoop.onTick_pc_ne_rename hpc osNow instants next)
  | @closed disk r =>
    exact of_running hk.disk (hsame r _ rfl rfl (hk.memory r rfl)) fun next => hk.written r next rfl
  | @shutdown disk r | @warn disk r | @acceptWarn disk r | @acceptAck disk r =>
    exact of_running hk.disk (hsame r _ rfl rfl (hk.memory r rfl)) (by simp)
  | @save disk r => exact of_running hk.disk (hsame r _ rfl rfl (hk.memory r rfl)) fun _ _ => rfl
  | renameExit hpc => exact of_stopped (renamed hstate hk hpc)
  | @renameLoop disk r hpc | @renameAccept disk r hpc =>
    exact of_running (renamed hstate hk hpc) (hsame r _ rfl rfl (hk.memory r rfl)) (by simp)

end Kept

end Host

/-! ## A saved decision to block is final -/

/-- `state` holds no session that a tick could allow. -/
def AgentState.Over (state : AgentState) : Prop := ∀ s, state.session = some s → s.status ≠ .active

theorem AgentState.Over.advance_blocked {state : AgentState} (h : state.Over) (trustedNow : ℤ) :
    (Agent.advance state.session trustedNow).2 = .blocked :=
  (Agent.advance_blocked_iff _ _).2 fun s hs hact => absurd hact (h s hs)

/-- Whatever the clock shows, a tick leaves no `ACTIVE` mark on what is over or overdue. -/
theorem over_advance (session : Option SessionSnapshot) {trustedNow : ℤ}
    (h : ∀ s, session = some s → s.status = .active → s.expiresAt ≤ trustedNow) :
    ∀ s, (advance session trustedNow).1 = some s → s.status ≠ .active := by
  intro s hs hact
  rw [advance_fst] at hs
  obtain ⟨s₀, hs₀, rfl⟩ := Option.map_eq_some_iff.1 hs
  obtain ⟨hact₀, hlt⟩ := (expire_status_active_iff _ _).1 hact
  exact absurd hlt (not_lt.2 (h s₀ hs₀ hact₀))

namespace Host

/-- This step takes in a session message that is strictly newer than the last one. -/
def Applies (h : Host) (label : Label) : Prop :=
  ∃ r session messageTime instant, h.process = .running r ∧ r.decommissioned = false ∧
    label = .event (some (.sessionState session messageTime)) instant ∧
    r.state.lastAppliedAt < messageTime

/-- Neither the memory nor the disk holds a session that a tick could allow. -/
structure Over (h : Host) : Prop where
  disk : ∀ state, h.disk.stateJson = .readable state → state.Over
  memory : ∀ r, h.process = .running r → r.state.Over
  written : ∀ r next, h.process = .running r → r.pc = .rename next →
    h.disk.tmp = .readable r.state

/-- The rest of an iteration that a tick began: the warnings, the write and the rename. -/
theorem run_proceed_of_warn {disk : Disk} {r : RunLoop} {trustedNow : ℤ}
    (hpc : r.pc = .warn trustedNow) :
    run (silent step) ⟨disk, .running r⟩ [.proceed, .proceed, .proceed] =
      some ⟨Store.save disk r.state, .running { r with
        warnings := (r.warnings.reconcile r.state.session trustedNow).1, pc := .select }⟩ := by
  simp [run_cons, silent, step, proceed, hpc, Store.save]

namespace Over

theorem of_running {disk : Disk} {r : RunLoop}
    (hd : ∀ state, disk.stateJson = .readable state → state.Over) (hm : r.state.Over)
    (hw : ∀ next, r.pc = .rename next → disk.tmp = .readable r.state) :
    Over ⟨disk, .running r⟩ where
  disk := hd
  memory r' hr := by
    obtain rfl := Process.running.inj hr
    exact hm
  written r' next hr hpc := by
    obtain rfl := Process.running.inj hr
    exact hw next hpc

theorem onEvent {disk : Disk} {r : RunLoop} (ho : r.state.Over) {event : ServerEvent} {instant : ℕ}
    (hna : ¬ Applies ⟨disk, .running r⟩ (.event (some event) instant)) :
    (r.onEvent event instant).state.Over := by
  rcases hd : r.decommissioned with _ | _
  · unfold RunLoop.onEvent
    rw [if_neg (by simp [hd])]
    cases event with
    | decommission => exact fun s hs => by cases hs
    | sessionState session messageTime =>
      have hle : messageTime ≤ r.state.lastAppliedAt :=
        not_lt.1 fun hlt => hna ⟨r, session, messageTime, instant, rfl, hd, rfl, hlt⟩
      simpa [applyServerMessage_stale hle] using ho
    | serverTime time => exact ho
  · rwa [RunLoop.onEvent_of_decommissioned hd]

theorem onTick {r : RunLoop} (ho : r.state.Over) (osNow : ℤ) (instants : Instants) :
    (r.onTick osNow instants).1.state.Over := by
  unfold RunLoop.onTick
  split_ifs
  · exact ho
  · exact over_advance _ fun s hs hact => absurd hact (ho s hs)

theorem iff_kept {h : Host} :
    h.Over ↔ Kept AgentState.Over (fun r => r.state.Over) h :=
  ⟨fun ho => ⟨ho.disk, ho.memory, ho.written⟩, fun hk => ⟨hk.disk, hk.memory, hk.written⟩⟩

/-- Only a newer message brings back a session that a tick could allow. -/
theorem step {h h' : Host} {label : Label} {effects : List Effect} (ho : h.Over)
    (hna : ¬ h.Applies label) (hstep : Host.step h label = some (h', effects)) : h'.Over := by
  rw [iff_kept] at ho ⊢
  refine ho.step (fun r hr => hr) (fun r r' hs _ hr => ?_) (fun state instant hs => hs) hstep
    (fun credentials now _ s hs => ?_) (fun r event instant hr hl hover => ?_)
    fun r osNow instants hover => onTick hover osNow instants
  · rw [hs]
    exact hr
  · cases hs
  · obtain ⟨disk, process⟩ := h
    obtain rfl : process = .running r := hr
    exact onEvent hover (hl ▸ hna)

/-- A tick on an overdue session, once its save is complete. -/
theorem of_saved_tick {h saved : Host} {r : RunLoop} {osNow : ℤ} {instants : Instants}
    (hr : h.process = .running r)
    (hover : ∀ s, r.state.session = some s → s.expiresAt ≤ r.clock.trusted osNow instants.read)
    (hsaved : run (silent Host.step) h [.tick osNow instants, .proceed, .proceed, .proceed] =
      some saved) : saved.Over := by
  obtain ⟨disk, process⟩ := h
  obtain rfl : process = .running r := hr
  obtain ⟨h₁, hs₁, h₂⟩ := run_cons_eq_some.1 hsaved
  obtain ⟨effects, hs₁⟩ := silent_eq_some.1 hs₁
  cases step_cases hs₁ with
  | tick hpc =>
    rcases hd : r.decommissioned with _ | _
    · have hstate := over_advance r.state.session fun s hs _ => hover s hs
      have hpc₁ : (r.onTick osNow instants).1.pc = .warn (r.clock.trusted osNow instants.read) := by
        simp [RunLoop.onTick, hd]
      have hstate₁ : (r.onTick osNow instants).1.state.Over := by
        rw [RunLoop.onTick, if_neg (by simp [hd])]
        exact hstate
      rw [run_proceed_of_warn hpc₁] at h₂
      obtain rfl := Option.some.inj h₂
      refine of_running (fun state hs => ?_) hstate₁ (by simp)
      obtain rfl := StateFile.readable.inj hs
      exact hstate₁
    · rw [RunLoop.onTick_of_decommissioned hd] at h₂
      simp [run_cons, silent, Host.step, proceed, hpc] at h₂

end Over

/-- Along every run, crashes and restarts included: the session in memory is one the server has
sent, or its local `EXPIRED` mark; the decision is the comparison of what the server sent with the
trusted time; and once a tick that found the deadline passed is saved, every later tick blocks
until a newer message is applied. -/
theorem offline_expiry {disk : Disk} {es : List Label} {h : Host} {a : Arrivals}
    (hrun : run traced (⟨disk, .stopped⟩, Arrivals.initial disk) es = some (h, a)) {r : RunLoop}
    (hr : h.process = .running r) :
    (Carried disk es a.memory ∧ (r.state.session = a.memory ∨ ∃ s, a.memory = some s ∧
        s.status = .active ∧ r.state.session = some { s with status := .expired })) ∧
      (∀ osNow instant, (advance r.state.session (r.clock.trusted osNow instant)).2 = .allowed ↔
        Grants a.memory (r.clock.trusted osNow instant)) ∧
      ∀ osNow (instants : Instants) saved,
        (∀ s, r.state.session = some s → s.expiresAt ≤ r.clock.trusted osNow instants.read) →
        run (silent step) h [.tick osNow instants, .proceed, .proceed, .proceed] = some saved →
        ∀ fs h', Along (silent step) (fun h label => ¬ h.Applies label) saved fs →
        run (silent step) saved fs = some h' → ∀ r', h'.process = .running r' →
        ∀ osNow' instant',
          (advance r'.state.session (r'.clock.trusted osNow' instant')).2 = .blocked := by
  have hf : Faithful h a := Faithful.run hrun
  have hholds : r.state.Holds a.memory := hf.memory r hr
  refine ⟨⟨(carried_run hrun).1, ?_⟩, fun osNow instant => ?_, ?_⟩
  · rcases hholds with hheld | ⟨s, harr, hact, -, hheld⟩
    · exact Or.inl hheld
    · exact Or.inr ⟨s, harr, hact, hheld⟩
  · refine hholds.advance_allowed_iff ?_
    rw [show r.state.trustedHighWaterMark = r.clock.highWaterMark from hf.synced r hr]
    exact r.clock.highWaterMark_le_trusted osNow instant
  · intro osNow instants saved hover hsaved fs h' hna hfs r' hr' osNow' instant'
    have hover' : h'.Over := by
      refine run_invariant_along (fun h label t ho hna hstep => ?_)
        (Over.of_saved_tick hr hover hsaved) hna hfs
      obtain ⟨effects, he⟩ := silent_eq_some.1 hstep
      exact ho.step hna he
    exact (hover'.memory r' hr').advance_blocked _

/-- A session that was granted until 100, on the disk of an enrolled machine. -/
def grantedDisk : Disk :=
  Store.save ⟨.absent, .absent⟩
    { AgentState.default 10 with
      credentials := some ⟨"https://taymna.example.com", "m1", "s1"⟩
      session := some ⟨"s1", 0, 100, .active, 20⟩ }

/-- The deadline passes, the mark is saved, the process crashes, and the clock is set back: the next
tick blocks. -/
theorem offline_expiry_granted :
    (advance (some ⟨"s1", 0, 100, .expired, 20⟩) ((ClockGuard.new 100 0).trusted 50 3)).2 =
      .blocked := by
  have hrun : run traced (⟨grantedDisk, .stopped⟩, Arrivals.initial grantedDisk) [.start 10 0] =
    some (⟨grantedDisk, .running _⟩, _) := rfl
  refine (offline_expiry hrun rfl).2.2 100 (.at 90) _ ?_ rfl [.crash false, .start 20 0] _ ?_ rfl _
    rfl 50 3
  · rintro s ⟨⟩
    decide
  · refine along_of_forall (fun h label hl => ?_) _
    rintro ⟨r, session, messageTime, instant, -, -, rfl, -⟩
    simp at hl

end Host

end Taymna.Agent
