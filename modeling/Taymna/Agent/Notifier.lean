import Taymna.Agent.CountdownWindow
import Taymna.Automata.Custody

/-!
# The notifiers (`agent/src/platform`)

`UserNotifier` is the trait: three methods on what the notifier remembers, each of which asks the
operating system for something and takes its answer. The notifiers of Windows and macOS remember the
process that draws the final warning. Both take it down in the same way, and so never lose a handle,
close one twice or use one that is closed (`keeps_windows`, `keeps_macos`).
-/

namespace Taymna.Agent

open Automata

/-- `platform::UserNotifier`: `σ` is what it remembers, `ω` what the operating system answers to one
call of a method, and `κ` what the method asks of it. -/
structure UserNotifier (σ ω κ : Type*) where
  new : σ
  notify : Notice → ω → σ → σ × List κ
  showFinalWarning : ℤ → ω → σ → σ × List κ
  dismissFinalWarning : ω → σ → σ × List κ

namespace UserNotifier

variable {σ ω κ η : Type*}

/-- `warning::apply`. -/
def apply (n : UserNotifier σ ω κ) : WarningEffect → ω → σ → σ × List κ
  | .notify notice => n.notify notice
  | .showFinalWarning remainingSecs => n.showFinalWarning remainingSecs
  | .dismissFinalWarning => n.dismissFinalWarning

/-- Every method leaves the handles that the notifier remembers in its custody, and no others. -/
structure Keeps [DecidableEq η] (n : UserNotifier σ ω κ) (custodyOf : κ → Option (Custody η))
    (held : σ → Option η) : Prop where
  new : held n.new = none
  apply : ∀ effect answer s, run custody (held s).toList ((n.apply effect answer s).2.filterMap custodyOf) =
    some (held (n.apply effect answer s).1).toList
  notify : ∀ notice answer s, held (n.notify notice answer s).1 = held s
  dismiss : ∀ answer s, held (n.dismissFinalWarning answer s).1 = none

/-- A notifier that remembers the process which draws the final warning: a notice is drawn by a process
that is let go at once, and a process that is remembered is taken down before another one takes its
place. -/
def ofSlot (takeDown : η → List κ) (letGo : η → κ) (started : ω → Option η)
    (notifyCall : Notice → ω → κ) (showCall : ℤ → ω → κ) : UserNotifier (Option η) ω κ where
  new := none
  notify notice answer := Slot.flash letGo (notifyCall notice answer) (started answer)
  showFinalWarning remainingSecs answer :=
    Slot.replace takeDown (showCall remainingSecs answer) (started answer)
  dismissFinalWarning _ := Slot.dismiss takeDown

theorem keeps_ofSlot [DecidableEq η] {takeDown : η → List κ} {letGo : η → κ} {started : ω → Option η}
    {notifyCall : Notice → ω → κ} {showCall : ℤ → ω → κ} {custodyOf : κ → Option (Custody η)}
    (hdown : ∀ x, (takeDown x).filterMap custodyOf = [.use x, .release x])
    (hgo : ∀ x, custodyOf (letGo x) = some (.release x))
    (hnotify : ∀ notice answer, custodyOf (notifyCall notice answer) = (started answer).map .acquire)
    (hshow : ∀ remaining answer, custodyOf (showCall remaining answer) = (started answer).map .acquire) :
    (ofSlot takeDown letGo started notifyCall showCall).Keeps custodyOf id where
  new := rfl
  apply effect answer slot := by
    cases effect with
    | notify notice => exact Slot.run_flash (hnotify notice answer) hgo slot
    | showFinalWarning remainingSecs => exact Slot.run_replace hdown (hshow remainingSecs answer) slot
    | dismissFinalWarning =>
      have hrun := Slot.run_dismiss hdown slot
      cases slot <;> exact hrun
  notify _ _ _ := rfl
  dismiss _ slot := by cases slot <;> rfl

end UserNotifier

/-! ## Windows (`agent/src/platform/windows.rs`) -/

namespace Windows

/-- What `run_powershell` returns: a process, nothing when nobody is at the console, or an error. -/
inductive Answer
  | started (process : ℕ)
  | nobody
  | failed
deriving DecidableEq, Repr

/-- The process that has been started. -/
def Answer.process : Answer → Option ℕ
  | .started process => some process
  | .nobody | .failed => none

inductive OsCall
  | runPowershell (script : String) (answer : Answer)
  | terminateProcess (process : ℕ)
  | closeHandle (process : ℕ)
deriving DecidableEq, Repr

/-- `dismiss_final_warning`: the process is terminated, and its handle closed. -/
def takeDown (process : ℕ) : List OsCall := [.terminateProcess process, .closeHandle process]

/-- `WindowsNotifier`: the slot is the process handle of the countdown window. -/
def notifier : UserNotifier (Option ℕ) Answer OsCall :=
  .ofSlot takeDown .closeHandle Answer.process
    (fun notice answer => .runPowershell (Windows.notify notice) answer)
    fun remainingSecs answer => .runPowershell (Windows.showFinalWarning remainingSecs) answer

/-- A handle is the agent's from the start of its process until it is closed. -/
def OsCall.custody : OsCall → Option (Custody ℕ)
  | .runPowershell _ answer => answer.process.map .acquire
  | .terminateProcess process => some (.use process)
  | .closeHandle process => some (.release process)

theorem keeps_windows : notifier.Keeps OsCall.custody id :=
  UserNotifier.keeps_ofSlot (fun _ => rfl) (fun _ => rfl) (fun _ _ => rfl) fun _ _ => rfl

end Windows

/-! ## macOS (`agent/src/platform/macos.rs`) -/

namespace Macos

inductive OsCall
  /-- `spawn_osascript`; no child when nobody is logged in at the GUI, or nothing could be run. -/
  | spawnOsascript (script : String) (child : Option ℕ)
  | kill (child : ℕ)
  | wait (child : ℕ)
deriving DecidableEq, Repr

/-- `dismiss_final_warning`: the child is killed, and waited for. -/
def takeDown (child : ℕ) : List OsCall := [.kill child, .wait child]

/-- `MacosNotifier`: the slot is the child that draws the final alert. -/
def notifier : UserNotifier (Option ℕ) (Option ℕ) OsCall :=
  .ofSlot takeDown .wait id (fun notice child => .spawnOsascript (Macos.notify notice) child)
    fun remainingSecs child => .spawnOsascript (Macos.showFinalWarning remainingSecs) child

/-- A child is the agent's from its start until it has been waited for. -/
def OsCall.custody : OsCall → Option (Custody ℕ)
  | .spawnOsascript _ child => child.map .acquire
  | .kill child => some (.use child)
  | .wait child => some (.release child)

theorem keeps_macos : notifier.Keeps OsCall.custody id :=
  UserNotifier.keeps_ofSlot (fun _ => rfl) (fun _ => rfl) (fun _ _ => rfl) fun _ _ => rfl

end Macos

end Taymna.Agent
