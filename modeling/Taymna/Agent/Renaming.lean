import Taymna.Agent.Reconcile

/-!
# Only the deadline reaches what is shown

Two runs of `reconcile` at the same times, on sessions that agree on their presence, their status
and their deadline, and whose ids are renamed injectively: the effects are the same, whatever else
the server has written. The id is kept and compared, but only whether it is the same matters.
-/

namespace Taymna.Agent

open Automata

/-- The second session has the first one's status and deadline, and its id under the renaming. -/
inductive Renamed (f : String → String) : Option SessionSnapshot → Option SessionSnapshot → Prop
  | none : Renamed f none none
  | some {s t : SessionSnapshot} : t.id = f s.id → t.status = s.status →
      t.expiresAt = s.expiresAt → Renamed f (some s) (some t)

/-- A call at the same time, on a renamed session. -/
def RenamedCall (f : String → String) (c d : Call) : Prop := Renamed f c.1 d.1 ∧ d.2 = c.2

def DeadlineKey.rename (f : String → String) (key : DeadlineKey) : DeadlineKey :=
  { key with sessionId := f key.sessionId }

theorem DeadlineKey.rename_injective {f : String → String} (hf : Function.Injective f) :
    Function.Injective (rename f) := by
  rintro ⟨id, expiresAt⟩ ⟨id', expiresAt'⟩ h
  obtain ⟨hid, hexpires⟩ := DeadlineKey.mk.inj h
  exact congrArg₂ DeadlineKey.mk (hf hid) hexpires

namespace ExpiryWarnings

def rename (f : String → String) (w : ExpiryWarnings) : ExpiryWarnings :=
  { w with key := w.key.map (DeadlineKey.rename f) }

variable {f : String → String}

theorem keyOf_renamed {s t : Option SessionSnapshot} (h : Renamed f s t) :
    keyOf t = (keyOf s).map (DeadlineKey.rename f) := by
  cases h with
  | none => rfl
  | @some s t hid hstatus hexpires =>
    by_cases hs : s.status = .active <;>
      simp [keyOf, Option.filter, hs, hstatus, hid, hexpires, DeadlineKey.rename]

@[simp] theorem dismissals_rename (w : ExpiryWarnings) :
    (w.rename f).dismissals = w.dismissals := rfl

theorem rekey_rename (hf : Function.Injective f) (w : ExpiryWarnings) (key : Option DeadlineKey) :
    (w.rename f).rekey (key.map (DeadlineKey.rename f)) =
      ((w.rekey key).1.rename f, (w.rekey key).2) := by
  have hinj := Option.map_injective (DeadlineKey.rename_injective hf)
  by_cases h : key = w.key
  · have hrenamed : key.map (DeadlineKey.rename f) = (w.rename f).key := congrArg _ h
    rw [rekey_of_eq h, rekey_of_eq hrenamed]
  · rw [rekey_of_ne h, rekey_of_ne fun he => h (hinj he)]
    rfl

/-- The deadline is judged by its instant. -/
theorem warn_rename (w : ExpiryWarnings) (key : DeadlineKey) (now : ℤ) :
    (w.rename f).warn (key.rename f) now = ((w.warn key now).1.rename f, (w.warn key now).2) := by
  have hsame : (w.rename f).due (key.rename f) now = w.due key now := rfl
  rcases le_or_gt (numSeconds (key.expiresAt - now)) 0 with hle | hpos
  · rw [warn_of_passed w hle]
    exact warn_of_passed (w.rename f) hle
  · cases hdue : w.due key now with
    | none =>
      rw [warn_of_none hpos hdue]
      exact warn_of_none hpos (hsame.trans hdue)
    | some level =>
      by_cases hfired : (w.fired.any fun already => level.rank ≤ already.rank) = true
      · rw [warn_of_said hpos hdue hfired]
        exact warn_of_said hpos (hsame.trans hdue) hfired
      · rw [warn_of_due hpos hdue hfired]
        exact warn_of_due hpos (hsame.trans hdue) hfired

theorem call_rename (hf : Function.Injective f) (w : ExpiryWarnings) {c d : Call}
    (h : RenamedCall f c d) : (w.rename f).call d = ((w.call c).1.rename f, (w.call c).2) := by
  obtain ⟨hsession, hnow⟩ := h
  have hkey := keyOf_renamed hsession
  unfold call
  rw [hnow]
  cases hc : keyOf c.1 with
  | none =>
    rw [hc] at hkey
    rw [reconcile_of_none hc, reconcile_of_none hkey]
    exact rekey_rename hf w none
  | some key =>
    rw [hc] at hkey
    rw [reconcile_of_some hc, reconcile_of_some hkey]
    have hrekey := rekey_rename hf w (some key)
    rw [Option.map_some] at hrekey
    rw [hrekey, warn_rename]

/-- Nothing but the deadline can be told from the effects, call by call. -/
theorem effects_renamed (hf : Function.Injective f) {cs ds : List Call}
    (h : List.Forall₂ (RenamedCall f) cs ds) : outputs call new cs = outputs call new ds := by
  refine outputs_eq_of_simulation (R := fun w v => v = w.rename f) ?_ rfl h
  rintro w _ c d rfl hcd
  rw [call_rename hf w hcd]
  exact ⟨rfl, rfl⟩

/-- A session, and one of another id that was started and updated at other times. -/
theorem effects_renamed_started :
    outputs call new [(some ⟨"a", 0, 20000000000, .active, 0⟩, 0), (none, 1)] =
      outputs call new [(some ⟨"ba", 5, 20000000000, .active, 7⟩, 0), (none, 1)] :=
  effects_renamed (f := fun id => "b" ++ id)
    (fun x y h => String.toList_inj.1 (by simpa using congrArg String.toList h))
    (.cons ⟨.some rfl rfl rfl, rfl⟩ (.cons ⟨.none, rfl⟩ .nil))

end ExpiryWarnings

end Taymna.Agent
