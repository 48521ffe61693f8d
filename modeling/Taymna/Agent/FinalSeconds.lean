import Taymna.Agent.FinalWarning
import Taymna.Agent.LinuxNotifier

/-!
# The seconds of a final warning

Each platform limits the seconds of a final warning in its own place: Windows and macOS before they
use them at all, Linux for the time that the notification stays up but not for its text. A final
warning is shown with more than no and at most sixty seconds left, so that the limits never bite: all
three show the same number, and their warnings go away by themselves after that many seconds, which is
not after the deadline.
-/

namespace Taymna.Agent

open Automata Text

namespace ExpiryWarnings

theorem levelFor_or_late_final {late : Bool} {r : ℤ}
    (h : (if late then arrivingLateLevel r else levelFor r) = some .final) : r ≤ 60 := by
  by_contra hr
  have hlevel : levelFor r = some .final := by
    cases late with
    | false => exact h
    | true => rwa [if_pos rfl, arrivingLateLevel_of_lt (not_le.1 hr)] at h
  have hle := levelFor_final_iff.1 hlevel
  omega

/-- The seconds of a final warning are the whole ones that are left of an `ACTIVE` session, and at
most a minute. -/
theorem seconds_of_final {w : ExpiryWarnings} {c : Call} {remaining : ℤ}
    (h : .showFinalWarning remaining ∈ (w.call c).2) :
    ∃ s, c.1 = some s ∧ s.status = .active ∧ remaining = numSeconds (s.expiresAt - c.2) ∧
      0 < remaining ∧ remaining ≤ 60 := by
  have hcases := w.call_cases c
  generalize (w.call c).1 = w', (w.call c).2 = effects at hcases h
  have hne : ∀ key, .showFinalWarning remaining ∉ (w.rekey key).2 := by
    intro key hmem
    cases w.mem_rekey key _ hmem
  cases hcases with
  | idle => exact absurd h (hne none)
  | @judged key w' effects hkey heval =>
    rcases List.mem_append.1 h with hmem | hmem
    · exact absurd hmem (hne (some key))
    · obtain ⟨s, hs, hactive, -, hexpires⟩ := keyOf_eq_some_iff.1 hkey
      cases heval with
      | passed => cases mem_dismissals _ _ hmem
      | quiet => cases hmem
      | @fires level hpos hdue _ =>
        have hannounce := List.mem_singleton.1 hmem
        cases level with
        | tenMinutes | fiveMinutes | oneMinute => cases hannounce
        | final =>
          obtain rfl := WarningEffect.showFinalWarning.inj hannounce
          exact ⟨s, hs, hactive, by rw [hexpires], hpos, levelFor_or_late_final hdue⟩

/-- The limit of the platforms leaves the seconds of a final warning as they are. -/
theorem clamp_of_final {remaining : ℤ} (hpos : 0 < remaining) (hle : remaining ≤ 60) :
    max 1 (min 600 remaining) = remaining := by
  rw [min_eq_right (by omega), max_eq_right (by omega)]

/-- What `reconcile` asks for, and what each platform makes of it. -/
theorem final_warning_seconds {w : ExpiryWarnings} {c : Call} {remaining : ℤ}
    (h : .showFinalWarning remaining ∈ (w.call c).2) :
    (∃ s, c.1 = some s ∧ s.status = .active ∧ remaining * 1000000000 ≤ s.expiresAt - c.2 ∧
        s.expiresAt - c.2 < (remaining + 1) * 1000000000) ∧
      (Windows.showFinalWarning remaining).toList = Windows.countdownTemplate.fill
        (Function.update (Windows.Mark.value 1) .seconds (toString remaining).toList) ∧
      Macos.showFinalWarning remaining =
        "display alert " ++ Macos.applescriptString finalWarningHeadline ++ " message " ++
          Macos.applescriptString (toString remaining ++ " seconds remaining.\n\n" ++ finalWarningBody) ++
          " as critical buttons \x7b\"Dismiss\"\x7d default button \"Dismiss\" giving up after " ++
          toString remaining ∧
      ∀ session stdout, (Linux.OsCall.notifySend session (Linux.finalWarningOptions remaining)
          finalWarningHeadline (Linux.finalWarningText remaining) stdout).command =
        ["notify-send", "--app-name", appName, "--urgency", "critical", "--expire-time",
          toString (remaining * 1000), "--print-id", finalWarningHeadline,
          toString remaining ++ " seconds remaining. " ++ finalWarningBody] := by
  obtain ⟨s, hs, hactive, hremaining, hpos, hle⟩ := seconds_of_final h
  have hclamp := clamp_of_final hpos hle
  refine ⟨⟨s, hs, hactive, ?_⟩, ?_, ?_, fun session stdout => ?_⟩
  · have hsecond := numSeconds_pos_iff.1 (hremaining ▸ hpos)
    rw [numSeconds_of_nonneg (by omega)] at hremaining
    omega
  · rw [Windows.toList_showFinalWarning]
    refine congrArg Windows.countdownTemplate.fill (funext fun m => ?_)
    cases m with
    | seconds =>
      show (toString (max 1 (min 600 remaining))).toList = _
      rw [hclamp]
      rfl
    | brand | headline | body => rfl
  · unfold Macos.showFinalWarning Macos.finalWarningMessage
    rw [hclamp]
  · unfold Linux.OsCall.command Linux.finalWarningOptions Linux.finalWarningText Linux.expireMs
    rw [hclamp, max_eq_left (by omega)]
    rfl

/-- Twenty seconds before the end, at the first look. -/
theorem final_warning_seconds_closing :
    (∃ s, some closing = some s ∧ s.status = .active ∧ 20 * 1000000000 ≤ s.expiresAt - 0 ∧
        s.expiresAt - 0 < (20 + 1) * 1000000000) ∧
      ∀ session stdout, (Linux.OsCall.notifySend session (Linux.finalWarningOptions 20)
          finalWarningHeadline (Linux.finalWarningText 20) stdout).command =
        ["notify-send", "--app-name", appName, "--urgency", "critical", "--expire-time",
          toString (20 * 1000 : ℤ), "--print-id", finalWarningHeadline,
          toString (20 : ℤ) ++ " seconds remaining. " ++ finalWarningBody] := by
  have hfinal : .showFinalWarning 20 ∈ (new.call (some closing, 0)).2 := by decide
  obtain ⟨hsession, -, -, hlinux⟩ := final_warning_seconds hfinal
  exact ⟨hsession, hlinux⟩

end ExpiryWarnings

end Taymna.Agent
