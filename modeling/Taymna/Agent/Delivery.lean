import Taymna.Agent.FinalWarning
import Taymna.Agent.Flags
import Taymna.Agent.Notifier
import Taymna.Automata.Mailbox

/-!
# The warnings thread (`agent/src/main.rs`)

`run` decides the warnings and sends them into a channel; a thread of its own takes them out and hands
them to the notifier, which may take its time, and takes a last final warning down when the channel
is closed. A `Station` is one computer with that thread. Its steps are those of the run loop, the
delivery of one effect, and the end of the thread, in any order that the channel allows.

What the thread has asked of the operating system is a history in which every handle is in custody
(`Kept`). A final warning that is held is one that `ExpiryWarnings` believes to be on screen, once
everything has been delivered.
-/

namespace Taymna.Agent

open Automata

/-! ## What the effects leave on screen -/

/-- Whether a final warning is on screen after an effect. -/
def WarningEffect.visible (visible : Bool) : WarningEffect → Bool
  | .notify _ => visible
  | .showFinalWarning _ => true
  | .dismissFinalWarning => false

/-- Whether one is on screen after these effects. -/
def visibleAfter (effects : List WarningEffect) : Bool := effects.foldl WarningEffect.visible false

theorem visibleAfter_append (es fs : List WarningEffect) :
    visibleAfter (es ++ fs) = fs.foldl WarningEffect.visible (visibleAfter es) := List.foldl_append

/-- Where `screen` accepts the effects, it ends in what they leave. -/
theorem foldl_visible_of_run_screen {v v' : Bool} {es : List WarningEffect}
    (h : run screen v es = some v') : es.foldl WarningEffect.visible v = v' := by
  induction es generalizing v with
  | nil => exact Option.some.inj h
  | cons e es ih =>
    obtain ⟨u, hu, hrest⟩ := run_cons_eq_some.1 h
    have hvisible : e.visible v = u := by
      cases e <;> cases v <;> first | exact Option.some.inj hu | cases hu
    rw [List.foldl_cons, hvisible]
    exact ih hrest

/-- What an effect of the run loop puts into the channel. -/
def Effect.warning? : Effect → Option WarningEffect
  | .warn effect => some effect
  | .disableUsage | .enableUsage | .ackDecommission => none

@[simp] theorem filterMap_warning?_map_warn (es : List WarningEffect) :
    (es.map Effect.warn).filterMap Effect.warning? = es := by
  rw [List.filterMap_map]
  exact List.filterMap_some

theorem filterMap_warning?_onTick (r : RunLoop) (osNow : ℤ) (instants : Instants) :
    (r.onTick osNow instants).2.filterMap Effect.warning? = [] := by
  rw [List.filterMap_eq_nil_iff]
  intro e he
  unfold RunLoop.onTick RunLoop.enforce at he
  split_ifs at he
  · cases he
  · dsimp only at he
    split at he
    · obtain rfl := List.mem_singleton.1 he
      rfl
    · obtain rfl := List.mem_singleton.1 he
      rfl
    · cases he

/-! ## The station -/

/-- A computer with its warnings thread. -/
structure Station (σ κ : Type*) where
  host : Host
  /-- The channel from the run loop to the thread. -/
  channel : Mailbox WarningEffect
  /-- What the notifier remembers, while the thread runs. -/
  thread : Option σ
  /-- What the thread of this process has asked of the operating system, in order. -/
  calls : List κ

namespace Station

/-- A step of the run loop or of the thread. -/
inductive Label (ω : Type*)
  | host (label : Host.Label)
  /-- The thread takes one effect out of the channel and delivers it. -/
  | deliver (answer : ω)
  /-- The channel is closed and empty: the thread takes down what it holds, and ends. -/
  | finish (answer : ω)
  /-- The thread panics, or the process is killed while it waits for the thread. -/
  | die
deriving DecidableEq, Repr

variable {σ ω κ η : Type*}

/-- A computer that is switched off. -/
def off (disk : Disk) : Station σ κ :=
  { host := ⟨disk, .stopped⟩, channel := .empty, thread := none, calls := [] }

/-- The thread that a started process has: one that is decommissioned without a credential has none. -/
def spawned (n : UserNotifier σ ω κ) : Process → Option σ
  | .running _ => some n.new
  | .inert | .stopped => none

/-- The station after a step of the run loop. -/
def moved (n : UserNotifier σ ω κ) (s : Station σ κ) (host : Host) (effects : List Effect) :
    Host.Label → Station σ κ
  | .start _ _ => { host := host, channel := .empty, thread := spawned n host.process, calls := [] }
  | .crash _ => { s with host := host, thread := none }
  | _ =>
    -- Without the thread nobody receives, and a send is lost.
    { s with
      host := host
      channel := if s.thread.isSome then s.channel.post (effects.filterMap Effect.warning?)
        else s.channel }

/-- A process starts once the one before it is gone, with its thread. -/
def ready (s : Station σ κ) : Host.Label → Bool
  | .start _ _ => s.thread.isNone
  | _ => true

/-- One step. -/
def step (n : UserNotifier σ ω κ) (s : Station σ κ) : Label ω → Option (Station σ κ)
  | .host label =>
    if s.ready label then
      (Host.step s.host label).map fun (host, effects) => s.moved n host effects label
    else none
  | .deliver answer =>
    match s.thread, s.channel.take? with
    | some notifier, some (effect, channel) =>
      let (notifier, calls) := n.apply effect answer notifier
      some { s with channel := channel, thread := some notifier, calls := s.calls ++ calls }
    | _, _ => none
  | .finish answer =>
    match s.thread, s.channel.take?, s.host.process with
    | some notifier, none, .stopped =>
      some { s with thread := none, calls := s.calls ++ (n.dismissFinalWarning answer notifier).2 }
    | _, _, _ => none
  | .die =>
    match s.thread with
    | some _ => some { s with thread := none }
    | none => none

/-- The steps of a station. -/
inductive Step (n : UserNotifier σ ω κ) (s : Station σ κ) : Label ω → Station σ κ → Prop
  | host {label host effects} : s.ready label = true → Host.step s.host label = some (host, effects) →
      Step n s (.host label) (s.moved n host effects label)
  | deliver {answer notifier effect channel} : s.thread = some notifier →
      s.channel.take? = some (effect, channel) →
      Step n s (.deliver answer)
        { s with
          channel := channel
          thread := some (n.apply effect answer notifier).1
          calls := s.calls ++ (n.apply effect answer notifier).2 }
  | finish {answer notifier} : s.thread = some notifier → s.channel.waiting = [] →
      s.host.process = .stopped →
      Step n s (.finish answer)
        { s with thread := none, calls := s.calls ++ (n.dismissFinalWarning answer notifier).2 }
  | die {notifier} : s.thread = some notifier → Step n s .die { s with thread := none }

theorem step_cases {n : UserNotifier σ ω κ} {s s' : Station σ κ} {label : Label ω}
    (h : step n s label = some s') : Step n s label s' := by
  cases label with
  | host label =>
    simp only [step] at h
    split_ifs at h with hready
    obtain ⟨⟨host, effects⟩, hhost, rfl⟩ := Option.map_eq_some_iff.1 h
    exact .host hready hhost
  | deliver answer =>
    simp only [step] at h
    split at h
    · rename_i notifier effect channel hthread htake
      obtain rfl := Option.some.inj h
      exact .deliver hthread htake
    · cases h
  | finish answer =>
    simp only [step] at h
    split at h
    · rename_i notifier hthread htake hprocess
      obtain rfl := Option.some.inj h
      exact .finish hthread (Mailbox.take?_eq_none htake) hprocess
    · cases h
  | die =>
    simp only [step] at h
    split at h
    · rename_i notifier hthread
      obtain rfl := Option.some.inj h
      exact .die hthread
    · cases h

/-! ## Custody -/

section

variable [DecidableEq η] (custodyOf : κ → Option (Custody η)) (held : σ → Option η)

/-- Every handle that the thread has been given is in its custody: it owns what its notifier holds,
and at most one handle is left behind where the thread has gone. -/
structure Kept (s : Station σ κ) : Prop where
  alive : ∀ notifier, s.thread = some notifier →
    run custody [] (s.calls.filterMap custodyOf) = some (held notifier).toList
  gone : ∃ owned, run custody [] (s.calls.filterMap custodyOf) = some owned ∧ owned.length ≤ 1

variable {custodyOf held} {n : UserNotifier σ ω κ} {s s' : Station σ κ}

theorem Kept.of_alive {notifier : σ} (hthread : s.thread = some notifier)
    (h : run custody [] (s.calls.filterMap custodyOf) = some (held notifier).toList) :
    Kept custodyOf held s := by
  refine ⟨fun notifier' h' => ?_, _, h, ?_⟩
  · obtain rfl := Option.some.inj (hthread.symm.trans h')
    exact h
  · cases held notifier <;> simp

/-- An effect that is delivered moves the custody to what the notifier then holds. -/
theorem run_deliver (hn : n.Keeps custodyOf held) {calls : List κ} {notifier : σ}
    (h : run custody [] (calls.filterMap custodyOf) = some (held notifier).toList)
    (effect : WarningEffect) (answer : ω) :
    run custody [] ((calls ++ (n.apply effect answer notifier).2).filterMap custodyOf) =
      some (held (n.apply effect answer notifier).1).toList := by
  rw [List.filterMap_append, run_append, h]
  exact hn.apply effect answer notifier

/-- The last dismissal leaves nothing. -/
theorem run_finish (hn : n.Keeps custodyOf held) {calls : List κ} {notifier : σ}
    (h : run custody [] (calls.filterMap custodyOf) = some (held notifier).toList) (answer : ω) :
    run custody [] ((calls ++ (n.dismissFinalWarning answer notifier).2).filterMap custodyOf) =
      some [] := by
  have hrun := run_deliver hn h .dismissFinalWarning answer
  have hnone : held (n.apply .dismissFinalWarning answer notifier).1 = none := hn.dismiss answer notifier
  rw [hnone] at hrun
  exact hrun

theorem kept_off (disk : Disk) : Kept custodyOf held (off disk : Station σ κ) :=
  ⟨fun _ h => (by cases h), [], rfl, Nat.zero_le 1⟩

theorem Kept.moved (hn : n.Keeps custodyOf held) (hs : Kept custodyOf held s) (host : Host)
    (effects : List Effect) (label : Host.Label) : Kept custodyOf held (s.moved n host effects label) := by
  cases label with
  | start =>
    refine ⟨fun notifier h => ?_, [], rfl, Nat.zero_le 1⟩
    have hnotifier : notifier = n.new := by
      simp only [Station.moved, spawned] at h
      split at h
      · exact (Option.some.inj h).symm
      · cases h
      · cases h
    show some [] = some (held notifier).toList
    rw [hnotifier, hn.new]
    rfl
  | crash => exact ⟨fun _ h => (by cases h), hs.gone⟩
  | shutdown | event | tick | proceed | enroll => exact ⟨hs.alive, hs.gone⟩

theorem Kept.step (hn : n.Keeps custodyOf held) (hs : Kept custodyOf held s) {label : Label ω}
    (h : step n s label = some s') : Kept custodyOf held s' := by
  cases step_cases h with
  | @host label host effects _ _ => exact hs.moved hn host effects label
  | deliver hthread _ =>
    exact Kept.of_alive rfl (run_deliver hn (hs.alive _ hthread) _ _)
  | finish hthread _ _ =>
    exact ⟨fun _ h => (by cases h), [], run_finish hn (hs.alive _ hthread) _, Nat.zero_le 1⟩
  | die => exact ⟨fun _ h => (by cases h), hs.gone⟩

end

/-! ## What is believed to be on screen -/

/-- What the effects decided so far leave on screen is what `ExpiryWarnings` believes, and nothing
once the decommission has been accepted. -/
structure Told (r : RunLoop) (decided : List WarningEffect) : Prop where
  coherent : r.warnings.Coherent
  visible : visibleAfter decided =
    if r.decommissioned || r.pc = .acceptAck then false else r.warnings.finalVisible

/-- Of a running process. -/
def Tells (s : Station σ κ) : Prop :=
  ∀ r, s.host.process = .running r → s.thread.isSome = true → Told r s.channel.posted

variable {n : UserNotifier σ ω κ} {s s' : Station σ κ}

theorem Told.quiet {r r' : RunLoop} {decided : List WarningEffect} (h : Told r decided)
    (hwarnings : r'.warnings = r.warnings) (hflag : r'.decommissioned = r.decommissioned)
    (hpc : r.pc ≠ .acceptAck) (hpc' : r'.pc ≠ .acceptAck) : Told r' decided := by
  refine ⟨hwarnings ▸ h.coherent, ?_⟩
  rw [h.visible, hwarnings, hflag]
  simp [hpc, hpc']

theorem onEvent_warnings (r : RunLoop) (event : ServerEvent) (instant : ℕ) :
    (r.onEvent event instant).warnings = r.warnings := by
  unfold RunLoop.onEvent
  split_ifs
  · rfl
  · cases event with
    | decommission => rfl
    | sessionState session messageTime =>
      dsimp only
      split_ifs <;> rfl
    | serverTime time => rfl

theorem onEvent_pc_ne {r : RunLoop} (h : r.pc = .select) (event : ServerEvent) (instant : ℕ) :
    (r.onEvent event instant).pc ≠ .acceptAck := by
  unfold RunLoop.onEvent
  split_ifs
  · simp [h]
  · cases event with
    | decommission => simp
    | sessionState session messageTime =>
      dsimp only
      split_ifs <;> simp [h]
    | serverTime time => simp [RunLoop.resync, h]

theorem onTick_warnings (r : RunLoop) (osNow : ℤ) (instants : Instants) :
    (r.onTick osNow instants).1.warnings = r.warnings := by
  unfold RunLoop.onTick
  split_ifs <;> rfl

theorem onTick_pc_ne {r : RunLoop} (h : r.pc = .select) (osNow : ℤ) (instants : Instants) :
    (r.onTick osNow instants).1.pc ≠ .acceptAck := by
  unfold RunLoop.onTick
  split_ifs <;> simp [h]

theorem told_start (state : AgentState) (instant : ℕ) : Told (RunLoop.start state instant) [] := by
  refine ⟨ExpiryWarnings.coherent_new, ?_⟩
  simp [visibleAfter, RunLoop.start, ExpiryWarnings.new]

/-- One step of the run loop of a process that goes on. -/
theorem Told.step {h h' : Host} {label : Host.Label} {effects : List Effect} (hsound : h.Sound)
    (hstep : Host.step h label = some (h', effects)) {r r' : RunLoop} (hr : h.process = .running r)
    (hr' : h'.process = .running r') {decided : List WarningEffect} (hd : Told r decided) :
    Told r' (decided ++ effects.filterMap Effect.warning?) := by
  have hflags := hsound r hr
  cases Host.step_cases hstep with
  | start | shutdownInert | enroll => cases hr
  | crash | renameExit => cases hr'
  | shutdown hpc | save hpc | renameLoop hpc | renameAccept hpc =>
    obtain rfl := Process.running.inj hr
    obtain rfl := Process.running.inj hr'
    rw [List.filterMap_nil, List.append_nil]
    exact hd.quiet rfl rfl (by simp [hpc]) (by simp)
  | closed hpc =>
    obtain rfl := Process.running.inj hr
    obtain rfl := Process.running.inj hr'
    rw [List.filterMap_nil, List.append_nil]
    exact hd.quiet rfl rfl (by simp [hpc]) (by simp [hpc])
  | event hpc =>
    obtain rfl := Process.running.inj hr
    obtain rfl := Process.running.inj hr'
    rw [List.filterMap_nil, List.append_nil]
    exact hd.quiet (onEvent_warnings _ _ _) (RunLoop.onEvent_decommissioned _ _ _) (by simp [hpc])
      (onEvent_pc_ne hpc _ _)
  | tick hpc =>
    obtain rfl := Process.running.inj hr
    obtain rfl := Process.running.inj hr'
    rw [filterMap_warning?_onTick, List.append_nil]
    exact hd.quiet (onTick_warnings _ _ _) (Computer.onTick_decommissioned _ _ _) (by simp [hpc])
      (onTick_pc_ne hpc _ _)
  | @warn disk r₀ trustedNow hpc =>
    obtain rfl : r₀ = r := Process.running.inj hr
    obtain rfl := Process.running.inj hr'
    have hrun := ExpiryWarnings.run_call hd.coherent (r₀.state.session, trustedNow)
    have hopen : r₀.decommissioned = false := by
      by_contra hd
      have hquiet := hflags.quiet (by simpa using hd)
      rw [hpc] at hquiet
      cases hquiet
    have hvisible := hd.visible
    rw [hopen, hpc] at hvisible
    refine ⟨hd.coherent.call (r₀.state.session, trustedNow), ?_⟩
    have hfold := foldl_visible_of_run_screen hrun
    unfold ExpiryWarnings.call at hfold
    rw [filterMap_warning?_map_warn, visibleAfter_append, hvisible]
    simpa [hopen] using hfold
  | acceptWarn hpc =>
    obtain rfl := Process.running.inj hr
    obtain rfl := Process.running.inj hr'
    refine ⟨hd.coherent, ?_⟩
    rw [visibleAfter_append]
    simp [Effect.warning?, WarningEffect.visible]
  | acceptAck hpc =>
    obtain rfl := Process.running.inj hr
    obtain rfl := Process.running.inj hr'
    refine ⟨hd.coherent, ?_⟩
    have hvisible := hd.visible
    rw [hpc] at hvisible
    show visibleAfter (decided ++ []) = _
    rw [List.append_nil]
    simpa using hvisible

/-- A process that is running has been started in this step, or was running before. -/
theorem running_of_step {h h' : Host} {label : Host.Label} {effects : List Effect}
    (hstep : Host.step h label = some (h', effects)) {r' : RunLoop}
    (hr' : h'.process = .running r') :
    (∃ now instant state, label = .start now instant ∧ r' = RunLoop.start state instant) ∨
      ((∀ now instant, label ≠ .start now instant) ∧ (∀ torn, label ≠ .crash torn) ∧
        ∃ r, h.process = .running r) := by
  cases Host.step_cases hstep with
  | @start disk now instant process effects hb =>
    cases hb with
    | inert => cases hr'
    | running => exact Or.inl ⟨now, instant, _, rfl, (Process.running.inj hr').symm⟩
  | crash | shutdownInert | renameExit | enroll => cases hr'
  | shutdown | event | closed | tick | warn | save | renameLoop | renameAccept | acceptWarn
  | acceptAck => exact Or.inr ⟨by simp, by simp, _, rfl⟩

/-- Any other step but a start or a crash sends what it decides. -/
theorem moved_of_ne {label : Host.Label} (hstart : ∀ now instant, label ≠ .start now instant)
    (hcrash : ∀ torn, label ≠ .crash torn) (host : Host) (effects : List Effect) :
    s.moved n host effects label =
      { s with
        host := host
        channel := if s.thread.isSome then s.channel.post (effects.filterMap Effect.warning?)
          else s.channel } := by
  cases label with
  | start => exact absurd rfl (hstart _ _)
  | crash => exact absurd rfl (hcrash _)
  | shutdown | event | tick | proceed | enroll => rfl

theorem Tells.step (hsound : s.host.Sound) (hs : s.Tells) {label : Label ω}
    (h : Station.step n s label = some s') : s'.Tells := by
  cases step_cases h with
  | @host label host effects _ hhost =>
    intro r' hr' hthread
    have hrun : host.process = .running r' := by
      cases label <;> exact hr'
    rcases running_of_step hhost hrun with ⟨now, instant, state, rfl, rfl⟩ |
      ⟨hstart, hcrash, r, hr⟩
    · exact told_start state instant
    · rw [moved_of_ne hstart hcrash] at hthread ⊢
      have halive : s.thread.isSome = true := hthread
      dsimp only
      rw [if_pos halive, Mailbox.post_posted]
      exact (hs r hr halive).step hsound hhost hr hrun
  | deliver hthread htake =>
    intro r hr _
    rw [(Mailbox.take?_eq_some htake).2.2]
    exact hs r hr (by rw [hthread]; rfl)
  | finish | die => exact fun _ _ h => by cases h

theorem sound_step (hs : s.host.Sound) {label : Label ω} (h : Station.step n s label = some s') :
    s'.host.Sound := by
  cases step_cases h with
  | @host label host effects _ hhost =>
    have hhost' := hs.step hhost
    cases label <;> exact hhost'
  | deliver | finish | die => exact hs

/-! ## What is held -/

/-- A final warning is held only where the effects that were delivered leave one on screen. -/
def Shown (held : σ → Option η) (s : Station σ κ) : Prop :=
  ∀ notifier, s.thread = some notifier → (held notifier).isSome = true →
    visibleAfter s.channel.taken = true

theorem Shown.step [DecidableEq η] {custodyOf : κ → Option (Custody η)} {held : σ → Option η}
    (hn : n.Keeps custodyOf held) (hs : s.Shown held) {label : Label ω}
    (h : Station.step n s label = some s') : s'.Shown held := by
  cases step_cases h with
  | @host label host effects _ _ =>
    intro notifier hthread hheld
    cases label with
    | start =>
      have hnotifier : notifier = n.new := by
        simp only [moved, spawned] at hthread
        split at hthread
        · exact (Option.some.inj hthread).symm
        · cases hthread
        · cases hthread
      rw [hnotifier, hn.new] at hheld
      cases hheld
    | crash => cases hthread
    | shutdown | event | tick | proceed | enroll =>
      have hshown := hs notifier hthread hheld
      dsimp only [moved]
      split_ifs <;> exact hshown
  | @deliver answer notifier effect channel hthread htake =>
    intro notifier' hnotifier' hheld
    obtain rfl := Option.some.inj hnotifier'
    dsimp only
    rw [(Mailbox.take?_eq_some htake).2.1, visibleAfter_append]
    cases effect with
    | notify notice =>
      have hsame : held (n.apply (.notify notice) answer notifier).1 = held notifier :=
        hn.notify notice answer notifier
      rw [hsame] at hheld
      exact hs notifier hthread hheld
    | showFinalWarning => rfl
    | dismissFinalWarning =>
      have hnone : held (n.apply .dismissFinalWarning answer notifier).1 = none :=
        hn.dismiss answer notifier
      rw [hnone] at hheld
      cases hheld
  | finish | die => exact fun _ h => by cases h

/-! ## Runs -/

/-- Whatever the run loop, the thread and the operating system do, in whatever order: no handle is
used or released that is not owned, at most one is owned, and it is the one that the notifier holds; a
final warning is held, once everything is delivered, only in a process that enforces and believes it on
screen; and the end of the thread leaves nothing. -/
def Tidy [DecidableEq η] (n : UserNotifier σ ω κ) (custodyOf : κ → Option (Custody η))
    (held : σ → Option η) : Prop :=
  ∀ (disk : Disk) (labels : List (Label ω)) (s : Station σ κ),
    run (step n) (off disk) labels = some s →
      (∃ owned, run custody [] (s.calls.filterMap custodyOf) = some owned ∧ owned.length ≤ 1) ∧
      (∀ notifier, s.thread = some notifier →
        run custody [] (s.calls.filterMap custodyOf) = some (held notifier).toList ∧
        (s.channel.waiting = [] → (held notifier).isSome = true → ∀ r, s.host.process = .running r →
          r.decommissioned = false ∧ r.warnings.finalVisible = true)) ∧
      ∀ answer s', step n s (.finish answer) = some s' →
        run custody [] (s'.calls.filterMap custodyOf) = some []

theorem tidy_of_keeps [DecidableEq η] {custodyOf : κ → Option (Custody η)} {held : σ → Option η}
    (hn : n.Keeps custodyOf held) : Tidy n custodyOf held := by
  intro disk labels s hrun
  have hinv : s.host.Sound ∧ Kept custodyOf held s ∧ s.Tells ∧ s.Shown held := by
    refine run_invariant (I := fun s : Station σ κ =>
      s.host.Sound ∧ Kept custodyOf held s ∧ s.Tells ∧ s.Shown held) ?_ ?_ hrun
    · rintro s label s' ⟨hsound, hkept, htells, hshown⟩ hstep
      exact ⟨sound_step hsound hstep, hkept.step hn hstep, htells.step hsound hstep,
        hshown.step hn hstep⟩
    · exact ⟨Host.sound_stopped disk, kept_off disk, fun _ h => (by cases h), fun _ h => by cases h⟩
  obtain ⟨-, hkept, htells, hshown⟩ := hinv
  refine ⟨hkept.gone, fun notifier hthread => ⟨hkept.alive notifier hthread, ?_⟩, ?_⟩
  · intro hwaiting hheld r hr
    have hvisible := hshown notifier hthread hheld
    rw [Mailbox.taken_of_waiting hwaiting, (htells r hr (by rw [hthread]; rfl)).visible] at hvisible
    split_ifs at hvisible with hflag
    rw [Bool.or_eq_true, not_or] at hflag
    exact ⟨by simpa using hflag.1, hvisible⟩
  · intro answer s' hstep
    cases step_cases hstep with
    | finish hthread _ _ => exact run_finish hn (hkept.alive _ hthread) answer

/-- The notifiers of Windows and macOS. -/
theorem notifiers_tidy :
    Tidy Windows.notifier Windows.OsCall.custody id ∧ Tidy Macos.notifier Macos.OsCall.custody id :=
  ⟨tidy_of_keeps Windows.keeps_windows, tidy_of_keeps Macos.keeps_macos⟩

/-- The disk of a machine whose session runs until 100 s. -/
def watched : Disk :=
  Store.save ⟨.absent, .absent⟩
    { AgentState.default 0 with
      credentials := some ⟨"https://taymna.example.com", "m1", "s1"⟩
      session := some ⟨"s1", 0, 100000000000, .active, 20⟩ }

/-- A tick, its warnings and the save. -/
def ticked (osNow : ℤ) : List (Label ω) :=
  [.host (.tick osNow (.at 0)), .host .proceed, .host .proceed, .host .proceed]

/-- The session is received, and the state is saved. -/
def received (session : SessionSnapshot) : List (Label ω) :=
  [.host (.event (some (.sessionState session session.updatedAt)) 0), .host .proceed, .host .proceed]

/-- The final warning is shown 20 s ahead, replaced when the session is extended by 10 s, and taken down
when it is ended. -/
def watching (first second other : ω) : List (Label ω) :=
  .host (.start 0 0) :: ticked 80000000000 ++ .deliver first ::
    received ⟨"s1", 0, 110000000000, .active, 81000000000⟩ ++ ticked 82000000000 ++
    .deliver other :: .deliver second ::
    received ⟨"s1", 0, 110000000000, .ended, 83000000000⟩ ++ ticked 84000000000 ++ [.deliver other]

/-- The handles of such a run. -/
def twoWarnings (first second : η) : List (Custody η) :=
  [.acquire first, .use first, .release first, .acquire second, .use second, .release second]

theorem notifiers_tidy_watched :
    (∃ s, run (step Windows.notifier) (off watched) (watching (.started 7) (.started 8) .failed) = some s ∧
        s.calls.filterMap Windows.OsCall.custody = twoWarnings 7 8 ∧
        run custody [] (s.calls.filterMap Windows.OsCall.custody) = some []) ∧
      ∃ s, run (step Macos.notifier) (off watched) (watching (some 7) (some 8) none) = some s ∧
        s.calls.filterMap Macos.OsCall.custody = twoWarnings 7 8 ∧
        run custody [] (s.calls.filterMap Macos.OsCall.custody) = some [] := by
  refine ⟨⟨_, rfl, rfl, ?_⟩, ⟨_, rfl, rfl, ?_⟩⟩
  · exact ((notifiers_tidy.1 watched (watching (.started 7) (.started 8) .failed) _ rfl).2.1 none rfl).1
  · exact ((notifiers_tidy.2 watched (watching (some 7) (some 8) none) _ rfl).2.1 none rfl).1

end Station

end Taymna.Agent
