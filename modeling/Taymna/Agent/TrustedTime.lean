import Taymna.Automata.Run
import Taymna.Agent.OfflineExpiry

/-!
# Trusted time

The mark is in three places: in the clock guard, in the agent's state, and in the state file.
`Ordered` puts them in order at every point of a run, together with every time that the process has
seen: the file is never ahead of the guard, and a file about to be put in place holds the guard's
own mark. So neither a crash nor an enrolment can make trusted time run backward.
-/

namespace Taymna.Agent

open Automata

namespace RunLoop

/-- The time that an event hands to `resync_from_server`. -/
def resyncTime (r : RunLoop) (event : ServerEvent) : Option ℤ :=
  if r.decommissioned then none
  else
    match event with
    | .decommission => none
    | .sessionState _ messageTime =>
      if messageTime ≤ r.state.lastAppliedAt then none else some messageTime
    | .serverTime time => some time

/-- All that an event does to the guard's mark. -/
theorem onEvent_highWaterMark (r : RunLoop) (event : ServerEvent) (instant : ℕ) :
    (r.onEvent event instant).clock.highWaterMark =
      (r.resyncTime event).elim r.clock.highWaterMark (max r.clock.highWaterMark) := by
  unfold onEvent resyncTime
  split_ifs
  · rfl
  · cases event with
    | decommission => rfl
    | sessionState session messageTime =>
      rcases le_or_gt messageTime r.state.lastAppliedAt with hle | hlt
      · simp [applyServerMessage_stale hle, hle]
      · simp [applyServerMessage_newer hlt, not_le.2 hlt, resync]
    | serverTime time => simp [resync]

theorem highWaterMark_le_onEvent (r : RunLoop) (event : ServerEvent) (instant : ℕ) :
    r.clock.highWaterMark ≤ (r.onEvent event instant).clock.highWaterMark := by
  rw [onEvent_highWaterMark]
  cases r.resyncTime event with
  | none => exact le_rfl
  | some time => exact le_max_left _ _

theorem resyncTime_le_onEvent {r : RunLoop} {event : ServerEvent} {time : ℤ}
    (h : r.resyncTime event = some time) (instant : ℕ) :
    time ≤ (r.onEvent event instant).clock.highWaterMark := by
  rw [onEvent_highWaterMark, h]
  exact le_max_right _ _

/-- All that a tick does to the guard's mark. -/
theorem onTick_highWaterMark (r : RunLoop) (osNow : ℤ) (instants : Instants) :
    (r.onTick osNow instants).1.clock.highWaterMark =
      if r.decommissioned then r.clock.highWaterMark else r.clock.trusted osNow instants.read := by
  unfold onTick
  split_ifs
  · rfl
  · rfl

theorem highWaterMark_le_onTick (r : RunLoop) (osNow : ℤ) (instants : Instants) :
    r.clock.highWaterMark ≤ (r.onTick osNow instants).1.clock.highWaterMark := by
  rw [onTick_highWaterMark]
  split_ifs
  · exact le_rfl
  · exact r.clock.highWaterMark_le_trusted osNow instants.read

end RunLoop

/-- The `trusted_high_water_mark` that a state file holds. -/
def StateFile.mark : StateFile → Option ℤ
  | .readable state => some state.trustedHighWaterMark
  | _ => none

@[simp] theorem StateFile.mark_readable (state : AgentState) :
    (StateFile.readable state).mark = some state.trustedHighWaterMark := rfl

namespace Host

/-- The value that `ClockGuard::now` returns in a step. -/
def reading (h : Host) (label : Label) : Option ℤ :=
  match h.process, label with
  | .running r, .tick osNow instants =>
    if r.pc = .select ∧ r.decommissioned = false then some (r.clock.trusted osNow instants.read) else none
  | _, _ => none

/-- The time that is passed to `resync_from_server` in a step. -/
def resynced (h : Host) (label : Label) : Option ℤ :=
  match h.process, label with
  | .running r, .event (some event) _ => if r.pc = .select then r.resyncTime event else none
  | _, _ => none

/-- The times of the process so far, each returned by `now` or passed to `resync_from_server`. -/
def nextTimes (h : Host) (label : Label) (times : List ℤ) : List ℤ :=
  match label with
  | .start _ _ => []
  | _ => (h.reading label).toList ++ (h.resynced label).toList ++ times

/-- A host with the times that its process has seen. -/
def timed : Host × List ℤ → Label → Option (Host × List ℤ) := annotated (silent step) nextTimes

/-- A value of `now` is at least the guard's mark. -/
theorem highWaterMark_le_of_reading {disk : Disk} {r : RunLoop} {label : Label} {value : ℤ}
    (h : reading ⟨disk, .running r⟩ label = some value) : r.clock.highWaterMark ≤ value := by
  cases label with
  | tick osNow instants =>
    simp only [reading] at h
    split_ifs at h
    rw [← Option.some.inj h]
    exact r.clock.highWaterMark_le_trusted osNow instants.read
  | _ => cases h

/-- Only a running process reads the clock. -/
theorem running_of_reading {h : Host} {label : Label} {value : ℤ}
    (hv : h.reading label = some value) : ∃ r, h.process = .running r := by
  unfold reading at hv
  split at hv
  · exact ⟨_, ‹_›⟩
  · cases hv

end Host

/-- The places of the mark, and the times of the process, in order. -/
structure Ordered (h : Host) (times : List ℤ) (least : ℤ) : Prop where
  disk : ∃ mark, h.disk.stateJson.mark = some mark ∧ least ≤ mark ∧
    ∀ r, h.process = .running r → mark ≤ r.clock.highWaterMark
  times : ∀ r, h.process = .running r → ∀ time ∈ times, time ≤ r.clock.highWaterMark
  synced : ∀ r, h.process = .running r → r.Synced
  written : ∀ r next, h.process = .running r → r.pc = .rename next →
    h.disk.tmp = .readable r.state

namespace Ordered

theorem of_stopped {disk : Disk} {times : List ℤ} {least mark : ℤ}
    (hd : disk.stateJson.mark = some mark) (hl : least ≤ mark) :
    Ordered ⟨disk, .stopped⟩ times least where
  disk := ⟨mark, hd, hl, by simp⟩
  times r hr := by cases hr
  synced r hr := by cases hr
  written r next hr := by cases hr

theorem of_running {disk : Disk} {r : RunLoop} {times : List ℤ} {least mark : ℤ}
    (hd : disk.stateJson.mark = some mark) (hl : least ≤ mark)
    (hm : mark ≤ r.clock.highWaterMark) (ht : ∀ time ∈ times, time ≤ r.clock.highWaterMark)
    (hsync : r.Synced) (hw : ∀ next, r.pc = .rename next → disk.tmp = .readable r.state) :
    Ordered ⟨disk, .running r⟩ times least where
  disk := by
    refine ⟨mark, hd, hl, fun r' hr => ?_⟩
    obtain rfl := Process.running.inj hr
    exact hm
  times r' hr := by
    obtain rfl := Process.running.inj hr
    exact ht
  synced r' hr := by
    obtain rfl := Process.running.inj hr
    exact hsync
  written r' next hr hpc := by
    obtain rfl := Process.running.inj hr
    exact hw next hpc

/-- What a rename puts in place holds the guard's mark. -/
theorem renamed {disk : Disk} {r : RunLoop} {times : List ℤ} {least : ℤ} {next : AfterSave}
    (ho : Ordered ⟨disk, .running r⟩ times least) (hpc : r.pc = .rename next) :
    (Store.rename disk).stateJson.mark = some r.clock.highWaterMark ∧
      least ≤ r.clock.highWaterMark := by
  have htmp : disk.tmp = .readable r.state := ho.written r next rfl hpc
  have hsync : r.state.trustedHighWaterMark = r.clock.highWaterMark := ho.synced r rfl
  obtain ⟨mark, -, hl, hm⟩ := ho.disk
  refine ⟨?_, hl.trans (hm r rfl)⟩
  rw [Store.rename_stateJson, htmp, StateFile.mark_readable, hsync]

/-- The loop goes on with the same clock, and with nothing about to be renamed. -/
theorem goes_on {disk : Disk} {r r' : RunLoop} {times : List ℤ} {least : ℤ}
    (ho : Ordered ⟨disk, .running r⟩ times least) (hc : r'.clock = r.clock)
    (hs : r'.state = r.state) (hpc : ∀ next, r'.pc ≠ .rename next) :
    Ordered ⟨disk, .running r'⟩ times least := by
  obtain ⟨mark, hd, hl, hm⟩ := ho.disk
  refine of_running hd hl ?_ ?_ ?_ fun next hn => absurd hn (hpc next)
  · rw [hc]
    exact hm r rfl
  · rw [hc]
    exact ho.times r rfl
  · unfold RunLoop.Synced
    rw [hc, hs]
    exact ho.synced r rfl

theorem step {h h' : Host} {times : List ℤ} {least : ℤ} {label : Host.Label}
    {effects : List Effect} (ho : Ordered h times least)
    (hstep : Host.step h label = some (h', effects)) :
    Ordered h' (Host.nextTimes h label times) least := by
  obtain ⟨mark, hd, hl, hm⟩ := ho.disk
  cases Host.step_cases hstep with
  | start hb =>
    cases hb with
    | inert => exact ⟨⟨mark, hd, hl, by simp⟩, by simp, by simp, by simp⟩
    | running hj =>
      -- The guard is seeded with the mark on disk, and the process has seen no time yet.
      rw [hj, StateFile.mark_readable] at hd
      exact of_running (by rw [hj]; exact hd) hl (Option.some.inj hd).ge (by simp [Host.nextTimes]) rfl
        (by simp [RunLoop.start])
  | crash => exact of_stopped (by rwa [Host.crashed_stateJson]) hl
  | shutdownInert => exact of_stopped hd hl
  | @enroll disk credentials now =>
    -- The file is readable, so the enrolment keeps its mark.
    rcases hj : disk.stateJson with _ | _ | state
    · simp [hj, StateFile.mark] at hd
    · simp [hj, StateFile.mark] at hd
    · have hkept : (Host.enrolled disk credentials now).stateJson.mark = some mark := by
        rw [← hd, hj]
        simp [Host.enrolled, Store.loadForEnroll, Store.load, hj, Host.enrolledState]
      exact of_stopped hkept hl
  | @event disk r event instant hpc =>
    have hle := r.highWaterMark_le_onEvent event instant
    refine of_running hd hl ((hm r rfl).trans hle) (fun time ht => ?_)
      (RunLoop.synced_onEvent (ho.synced r rfl) event instant)
      fun next hn => absurd hn (RunLoop.onEvent_pc_ne_rename hpc event instant next)
    have ht : time ∈ (r.resyncTime event).toList ++ times := by
      simpa [Host.nextTimes, Host.reading, Host.resynced, hpc] using ht
    rcases List.mem_append.1 ht with ht | ht
    · exact RunLoop.resyncTime_le_onEvent (Option.mem_toList.1 ht) instant
    · exact (ho.times r rfl time ht).trans hle
  | @tick disk r osNow instants hpc =>
    have hle := r.highWaterMark_le_onTick osNow instants
    refine of_running hd hl ((hm r rfl).trans hle) (fun time ht => ?_)
      (RunLoop.synced_onTick (ho.synced r rfl) osNow instants)
      fun next hn => absurd hn (RunLoop.onTick_pc_ne_rename hpc osNow instants next)
    have ht : time ∈ (Host.reading ⟨disk, .running r⟩ (.tick osNow instants)).toList ++ times := by
      simpa [Host.nextTimes, Host.resynced] using ht
    rcases List.mem_append.1 ht with ht | ht
    · have hread := Option.mem_toList.1 ht
      simp only [Host.reading, hpc, true_and] at hread
      split_ifs at hread with hdec
      rw [RunLoop.onTick_highWaterMark, if_neg (by simp [hdec])]
      exact (Option.some.inj hread).ge
    · exact (ho.times r rfl time ht).trans hle
  | @shutdown disk r => exact ho.goes_on rfl rfl (by simp)
  | @closed disk r =>
    exact of_running hd hl (hm r rfl) (ho.times r rfl) (ho.synced r rfl)
      fun next => ho.written r next rfl
  | @warn disk r | @acceptWarn disk r | @acceptAck disk r => exact ho.goes_on rfl rfl (by simp)
  | @save disk r =>
    exact of_running hd hl (hm r rfl) (ho.times r rfl) (ho.synced r rfl) fun _ _ => rfl
  | @renameExit disk r hpc => exact of_stopped (ho.renamed hpc).1 (ho.renamed hpc).2
  | @renameLoop disk r hpc | @renameAccept disk r hpc =>
    exact of_running (ho.renamed hpc).1 (ho.renamed hpc).2 le_rfl (ho.times r rfl) (ho.synced r rfl)
      (by simp)

theorem step_timed {p q : Host × List ℤ} {least : ℤ} {label : Host.Label}
    (ho : Ordered p.1 p.2 least) (h : Host.timed p label = some q) : Ordered q.1 q.2 least := by
  obtain ⟨h', hh, rfl⟩ := annotated_eq_some.1 h
  obtain ⟨effects, he⟩ := silent_eq_some.1 hh
  exact ho.step he

theorem run {p q : Host × List ℤ} {least : ℤ} {es : List Host.Label}
    (ho : Ordered p.1 p.2 least) (h : run Host.timed p es = some q) : Ordered q.1 q.2 least :=
  run_invariant (I := fun p : Host × List ℤ => Ordered p.1 p.2 least)
    (fun _ _ _ hp hq => step_timed hp hq) ho h

/-- What is read then is no earlier than anything before. -/
theorem le_reading {h : Host} {times : List ℤ} {least value : ℤ} {label : Host.Label}
    (ho : Ordered h times least) (hv : h.reading label = some value) :
    (∀ time ∈ times, time ≤ value) ∧ ∃ mark, h.disk.stateJson.mark = some mark ∧ mark ≤ value := by
  obtain ⟨disk, process⟩ := h
  obtain ⟨r, hr⟩ := Host.running_of_reading hv
  obtain rfl : process = .running r := hr
  have hle : r.clock.highWaterMark ≤ value := Host.highWaterMark_le_of_reading hv
  obtain ⟨mark, hd, -, hm⟩ := ho.disk
  exact ⟨fun time ht => (ho.times r rfl time ht).trans hle, mark, hd, (hm r rfl).trans hle⟩

/-- The state of the file as it is now. -/
theorem on_disk {h : Host} {times : List ℤ} {least : ℤ} (ho : Ordered h times least) :
    ∃ mark, h.disk.stateJson.mark = some mark ∧ least ≤ mark ∧ Ordered h times mark := by
  obtain ⟨mark, hd, hl, hm⟩ := ho.disk
  exact ⟨mark, hd, hl, ⟨mark, hd, le_rfl, hm⟩, ho.times, ho.synced, ho.written⟩

end Ordered

namespace Host

/-- Along every run from a readable state file, crashes, restarts and enrolments included: what
`now` returns is at least every time that the process has seen and the mark on disk, and the mark on
disk never decreases. -/
theorem trustedTime_monotone {disk : Disk} {state : AgentState}
    (hd : disk.stateJson = .readable state) :
    (∀ es, Along timed (fun p label => ∀ value, p.1.reading label = some value →
        (∀ time ∈ p.2, time ≤ value) ∧
          ∃ mark, p.1.disk.stateJson.mark = some mark ∧ mark ≤ value) (⟨disk, .stopped⟩, []) es) ∧
      ∀ es fs h h', run (silent step) ⟨disk, .stopped⟩ es = some h →
        run (silent step) h fs = some h' →
        ∃ mark mark', h.disk.stateJson.mark = some mark ∧ h'.disk.stateJson.mark = some mark' ∧
          mark ≤ mark' := by
  have h₀ : Ordered ⟨disk, .stopped⟩ [] state.trustedHighWaterMark :=
    Ordered.of_stopped (by rw [hd, StateFile.mark_readable]) le_rfl
  refine ⟨fun es => ?_, fun es fs h h' hes hfs => ?_⟩
  · exact along_of_invariant (P := fun _ _ => True)
      (I := fun p : Host × List ℤ => Ordered p.1 p.2 state.trustedHighWaterMark)
      (fun _ _ _ hp _ hq => hp.step_timed hq) (fun _ _ hp _ _ hv => hp.le_reading hv) h₀
      (along_of_forall (fun _ _ _ => trivial) _)
  · obtain ⟨times, ht⟩ : ∃ times, run timed (⟨disk, .stopped⟩, []) es = some (h, times) :=
      exists_run_annotated_iff.2 hes
    obtain ⟨mark, hm, -, ho⟩ := (Ordered.run h₀ ht).on_disk
    obtain ⟨times', ht'⟩ : ∃ times', run timed (h, times) fs = some (h', times') :=
      exists_run_annotated_iff.2 hfs
    obtain ⟨mark', hm', hle, -⟩ := (Ordered.run ho ht').on_disk
    exact ⟨mark, mark', hm, hm', hle⟩

/-- The server's time 80 holds against a clock that shows 20. -/
theorem trustedTime_monotone_granted :
    80 ≤ ((ClockGuard.new 10 0).resyncFromServer 80 1).trusted 20 2 := by
  have h := (@trustedTime_monotone grantedDisk _ rfl).1
    [.start 10 0, .event (some (.serverTime 80)) 1, .tick 20 (.at 2)]
  exact (h.2.2.1 _ rfl).1 80 (by decide)

end Host

end Taymna.Agent
