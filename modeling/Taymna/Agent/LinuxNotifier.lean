import Taymna.Agent.DesktopSession
import Taymna.Agent.Notifier
import Taymna.Automata.Transducer

/-!
# The Linux notifier (`agent/src/platform/linux.rs`)

The final warning is a notification, known by the id that `notify-send` prints, and closed by a call
to the daemon of whoever sits at the desktop then. The id is taken out of the slot before it is known
who that is, so that a dismissal which finds nobody there or another user, or whose call fails,
forgets a notification that may still be up. These are all: what is up is what the slot holds or was
forgotten so (`notifications_up`).
-/

namespace Taymna.Agent.Linux

open Automata Text

/-- What the operating system answers to one method of the notifier. -/
structure Answer where
  /-- Who is at the desktop when a notification is to be closed. -/
  closing : Option DesktopSession
  /-- Whether the call to `gdbus` succeeds. -/
  closed : Bool
  /-- Who is at the desktop when a notification is to be shown. -/
  session : Option DesktopSession
  /-- The output of `notify-send`, if it succeeds. -/
  stdout : Option (List Char)
deriving DecidableEq, Repr

/-- What is run as the desktop user. -/
inductive OsCall
  | notifySend (session : DesktopSession) (options : List String) (title body : String)
    (stdout : Option (List Char))
  /-- `gdbus` with `CloseNotification`. -/
  | closeNotification (session : DesktopSession) (notification : ℕ) (closed : Bool)
deriving DecidableEq, Repr

/-- `notify_send`: its call, and the id that was printed. -/
def notifySend (options : List String) (title body : String) (answer : Answer) :
    Option ℕ × List OsCall :=
  match answer.session with
  | none => (none, [])
  | some session =>
    (answer.stdout.bind fun stdout => parseU32 (trim stdout),
      [.notifySend session options title body answer.stdout])

/-- The program that is run, and its arguments. -/
def OsCall.command : OsCall → List String
  | .notifySend _ options title body _ =>
    ["notify-send", "--app-name", appName] ++ options ++ [title, body]
  | .closeNotification _ notification _ =>
    ["gdbus", "call", "--session", "--dest", "org.freedesktop.Notifications", "--object-path",
      "/org/freedesktop/Notifications", "--method", "org.freedesktop.Notifications.CloseNotification",
      toString notification]

/-- `--urgency` of a notice. -/
def urgencyName : Urgency → String
  | .normal => "normal"
  | .critical => "critical"

/-- How long the final warning stays up by itself. -/
def expireMs (remainingSecs : ℤ) : ℤ := max 1 (min 600 remainingSecs) * 1000

/-- The options of `show_final_warning`. -/
def finalWarningOptions (remainingSecs : ℤ) : List String :=
  ["--urgency", "critical", "--expire-time", toString (expireMs remainingSecs), "--print-id"]

/-- The text of the final warning. -/
def finalWarningText (remainingSecs : ℤ) : String :=
  toString (max remainingSecs 0) ++ " seconds remaining. " ++ finalWarningBody

/-- `dismiss_final_warning`: the id is gone from the slot whatever comes of it. -/
def dismiss (answer : Answer) : Option ℕ → Option ℕ × List OsCall
  | none => (none, [])
  | some notification =>
    match answer.closing with
    | none => (none, [])
    | some session => (none, [.closeNotification session notification answer.closed])

/-- `LinuxNotifier`: the slot is the id of the final warning. -/
def notifier : UserNotifier (Option ℕ) Answer OsCall where
  new := none
  notify notice answer slot :=
    (slot, (notifySend ["--urgency", urgencyName notice.urgency, "--expire-time", "15000"] notice.title
      notice.body answer).2)
  showFinalWarning remainingSecs answer slot :=
    let (slot, calls) := dismiss answer slot
    let (shown, calls') := notifySend (finalWarningOptions remainingSecs) finalWarningHeadline
      (finalWarningText remainingSecs) answer
    (shown.or slot, calls ++ calls')
  dismissFinalWarning := dismiss

/-! ## The desktop -/

/-- A final warning: the user whose daemon shows it, and its id there. -/
structure Notification where
  uid : ℕ
  id : ℕ
deriving DecidableEq, Repr

/-- The final warning that a call puts up, if it prints its id. -/
def OsCall.shows : OsCall → Option Notification
  | .notifySend session options _ _ stdout =>
    if "--print-id" ∈ options then
      (stdout.bind fun stdout => parseU32 (trim stdout)).map fun id => { uid := session.uid, id := id }
    else none
  | .closeNotification _ _ _ => none

/-- What a call takes down, if it is up: the bus is that of the call. -/
def OsCall.closes : OsCall → Option Notification
  | .notifySend _ _ _ _ _ => none
  | .closeNotification session notification closed =>
    if closed then some { uid := session.uid, id := notification } else none

/-- The notifier, and what is on the screens. -/
structure Desktop where
  /-- What the notifier remembers. -/
  slot : Option ℕ
  /-- Whose daemon has shown the last final warning. -/
  bus : ℕ
  /-- The final warnings that are up. -/
  up : List Notification
deriving DecidableEq, Repr

/-- What happens to the final warnings. -/
inductive DesktopEvent
  | effect (effect : WarningEffect) (answer : Answer)
  /-- It expires, or its owner clicks it away or signs out. -/
  | gone (notification : Notification)
deriving DecidableEq, Repr

namespace Desktop

/-- The notifier is new. -/
def start : Desktop := { slot := none, bus := 0, up := [] }

/-- The final warning whose id the notifier remembers. -/
def held (d : Desktop) : Option Notification := d.slot.map fun id => { uid := d.bus, id := id }

/-- What a call changes on the screens. -/
def call (d : Desktop) (c : OsCall) : Desktop :=
  { d with
    bus := (c.shows.map Notification.uid).getD d.bus
    up := c.shows.toList ++ c.closes.elim d.up d.up.erase }

/-- One event, and the calls that are made. -/
def step (d : Desktop) : DesktopEvent → Desktop × List OsCall
  | .effect effect answer =>
    let (slot, calls) := notifier.apply effect answer d.slot
    ({ calls.foldl call d with slot := slot }, calls)
  | .gone notification => ({ d with up := d.up.erase notification }, [])

end Desktop

/-- Whether the call that closes the notification gets to its own daemon. -/
def Answer.closes (answer : Answer) (notification : Notification) : Bool :=
  answer.closed && answer.closing.any fun session => session.uid = notification.uid

/-- What an event makes the notifier forget without having closed it. -/
def Desktop.forgets (d : Desktop) : DesktopEvent → Option Notification
  | .effect (.notify _) _ | .gone _ => none
  | .effect (.showFinalWarning _) answer | .effect .dismissFinalWarning answer =>
    d.held.filter fun notification => !answer.closes notification

/-- All that the events make it forget. -/
def Desktop.forgotten : Desktop → List DesktopEvent → List Notification
  | _, [] => []
  | d, e :: es => (d.forgets e).toList ++ forgotten (d.step e).1 es

/-- Nobody but this user is at the desktop when the notifier asks. -/
def DesktopEvent.By (uid : ℕ) : DesktopEvent → Prop
  | .effect _ answer => (∀ s ∈ answer.closing, s.uid = uid) ∧ ∀ s ∈ answer.session, s.uid = uid
  | .gone _ => True

/-- Somebody is, and a call to close a notification succeeds. -/
def DesktopEvent.Reached : DesktopEvent → Prop
  | .effect _ answer => answer.closing.isSome = true ∧ answer.closed = true
  | .gone _ => True

/-! ## One event -/

namespace Desktop

variable (d : Desktop)

/-- Whatever the notifier held has been taken out of the slot, and a close call may have been made. -/
def dismissed (answer : Answer) : Desktop :=
  { d with
    slot := none
    up := (d.slot.bind fun id => if answer.closed then
      answer.closing.map fun session => { uid := session.uid, id := id } else none).elim d.up d.up.erase }

/-- A final warning has come up. -/
def shown (notification : Notification) : Desktop :=
  { slot := some notification.id, bus := notification.uid, up := notification :: d.up }

theorem foldl_dismiss (answer : Answer) :
    (dismiss answer d.slot).1 = none ∧
      { (dismiss answer d.slot).2.foldl call d with slot := none } = d.dismissed answer := by
  unfold dismiss dismissed
  cases d.slot with
  | none => exact ⟨rfl, rfl⟩
  | some id =>
    cases answer.closing with
    | none => exact ⟨rfl, by simp⟩
    | some session =>
      cases answer.closed <;> exact ⟨rfl, by simp [call, OsCall.shows, OsCall.closes]⟩

/-- A notice prints no id. -/
theorem step_notify (notice : Notice) (answer : Answer) :
    (d.step (.effect (.notify notice) answer)).1 = d := by
  have hnone : "--print-id" ∉ ["--urgency", urgencyName notice.urgency, "--expire-time", "15000"] := by
    cases notice.urgency <;> decide
  show { (notifySend _ _ _ answer).2.foldl call d with slot := d.slot } = d
  unfold notifySend
  cases answer.session with
  | none => rfl
  | some session =>
    have hshows : OsCall.shows (.notifySend session ["--urgency", urgencyName notice.urgency,
        "--expire-time", "15000"] notice.title notice.body answer.stdout) = none := if_neg hnone
    simp only [List.foldl_cons, List.foldl_nil, call, hshows]
    rfl

/-- The final warning prints its id. -/
theorem step_show (remainingSecs : ℤ) (answer : Answer) :
    (d.step (.effect (.showFinalWarning remainingSecs) answer)).1 = d.dismissed answer ∨
      ∃ session ∈ answer.session, ∃ id, (d.step (.effect (.showFinalWarning remainingSecs) answer)).1 =
        (d.dismissed answer).shown { uid := session.uid, id := id } := by
  obtain ⟨hslot, hdismissed⟩ := d.foldl_dismiss answer
  have hprint : "--print-id" ∈ finalWarningOptions remainingSecs := by simp [finalWarningOptions]
  generalize hstep : (d.step (.effect (.showFinalWarning remainingSecs) answer)).1 = d'
  have hd' : d' = { ((dismiss answer d.slot).2 ++ (notifySend (finalWarningOptions remainingSecs)
      finalWarningHeadline (finalWarningText remainingSecs) answer).2).foldl call d with
    slot := (notifySend (finalWarningOptions remainingSecs) finalWarningHeadline
      (finalWarningText remainingSecs) answer).1.or (dismiss answer d.slot).1 } := hstep.symm
  rw [hslot, List.foldl_append, Option.or_none] at hd'
  rw [hd', ← hdismissed]
  unfold notifySend
  cases answer.session with
  | none => exact Or.inl rfl
  | some session =>
    dsimp only
    cases hid : answer.stdout.bind fun stdout => parseU32 (trim stdout) with
    | none =>
      have hshows : OsCall.shows (.notifySend session (finalWarningOptions remainingSecs)
          finalWarningHeadline (finalWarningText remainingSecs) answer.stdout) = none := by
        rw [OsCall.shows, if_pos hprint, hid, Option.map_none]
      left
      simp only [List.foldl_cons, List.foldl_nil, call, hshows]
      rfl
    | some id =>
      have hshows : OsCall.shows (.notifySend session (finalWarningOptions remainingSecs)
          finalWarningHeadline (finalWarningText remainingSecs) answer.stdout) =
          some { uid := session.uid, id := id } := by
        rw [OsCall.shows, if_pos hprint, hid, Option.map_some]
      refine Or.inr ⟨session, rfl, id, ?_⟩
      simp only [List.foldl_cons, List.foldl_nil, call, hshows]
      rfl

theorem step_dismiss (answer : Answer) :
    (d.step (.effect .dismissFinalWarning answer)).1 = d.dismissed answer := by
  obtain ⟨hslot, hdismissed⟩ := d.foldl_dismiss answer
  rw [← hdismissed, ← hslot]
  rfl

/-- A call that does not get to the notification's own daemon may be made to another one. -/
theorem up_dismissed (answer : Answer) :
    d.held = none ∧ (d.dismissed answer).up = d.up ∨
      ∃ notification, d.held = some notification ∧
        (answer.closes notification = true ∧ (d.dismissed answer).up = d.up.erase notification ∨
          answer.closes notification = false ∧ ((d.dismissed answer).up = d.up ∨
            ∃ session ∈ answer.closing, session.uid ≠ notification.uid ∧
              (d.dismissed answer).up = d.up.erase { notification with uid := session.uid })) := by
  unfold held dismissed
  cases d.slot with
  | none => exact Or.inl ⟨rfl, rfl⟩
  | some id =>
    refine Or.inr ⟨_, rfl, ?_⟩
    unfold Answer.closes
    cases answer.closed with
    | false => exact Or.inr ⟨rfl, Or.inl rfl⟩
    | true =>
      cases answer.closing with
      | none => exact Or.inr ⟨rfl, Or.inl rfl⟩
      | some session =>
        by_cases huid : session.uid = d.bus
        · exact Or.inl ⟨by simp [huid], by simp [huid]⟩
        · exact Or.inr ⟨by simp [huid], Or.inr ⟨session, rfl, huid, rfl⟩⟩

/-! ### What is up -/

variable {d} {lost : List Notification}

theorem subperm_dismissed (h : d.up.Subperm (d.held.toList ++ lost)) (answer : Answer) :
    (d.dismissed answer).up.Subperm
      ((d.held.filter fun notification => !answer.closes notification).toList ++ lost) := by
  rcases d.up_dismissed answer with ⟨hheld, hup⟩ | ⟨n, hheld, ⟨hcloses, hup⟩ | ⟨hcloses, hup⟩⟩
  · rw [hup, hheld]
    rwa [hheld] at h
  · rw [hup, hheld, Option.filter_some, hcloses]
    rw [hheld] at h
    simpa using h.erase n
  · have hle : (d.dismissed answer).up.Subperm d.up := by
      rcases hup with hup | ⟨session, -, -, hup⟩
      · rw [hup]
      · rw [hup]
        exact (List.erase_sublist).subperm
    rw [hheld, Option.filter_some, hcloses]
    rw [hheld] at h
    exact hle.trans h

/-- What is up after an event is held or has been forgotten. -/
theorem subperm_step (h : d.up.Subperm (d.held.toList ++ lost)) (e : DesktopEvent) :
    (d.step e).1.up.Subperm ((d.step e).1.held.toList ++ ((d.forgets e).toList ++ lost)) := by
  cases e with
  | gone notification => exact (List.erase_sublist).subperm.trans h
  | effect effect answer =>
    cases effect with
    | notify notice =>
      rw [step_notify]
      exact h
    | dismissFinalWarning =>
      rw [step_dismiss]
      exact subperm_dismissed h answer
    | showFinalWarning remainingSecs =>
      have hdismissed := subperm_dismissed h answer
      rcases d.step_show remainingSecs answer with hstep | ⟨session, -, id, hstep⟩
      · rw [hstep]
        exact hdismissed
      · rw [hstep]
        exact (List.subperm_cons _).2 hdismissed

/-- Only an event of the desktop takes down what the notifier holds. -/
theorem held_step (h : ∀ n ∈ d.held, n ∈ d.up) {e : DesktopEvent} (he : ∀ n, e ≠ .gone n) :
    ∀ n ∈ (d.step e).1.held, n ∈ (d.step e).1.up := by
  cases e with
  | gone notification => exact absurd rfl (he notification)
  | effect effect answer =>
    cases effect with
    | notify notice =>
      rw [step_notify]
      exact h
    | dismissFinalWarning =>
      rw [step_dismiss]
      exact fun n hn => nomatch hn
    | showFinalWarning remainingSecs =>
      rcases d.step_show remainingSecs answer with hstep | ⟨session, -, id, hstep⟩
      · rw [hstep]
        exact fun n hn => nomatch hn
      · rw [hstep]
        intro n hn
        obtain rfl := Option.some.inj hn
        exact List.mem_cons_self

/-! ### One user -/

variable {uid : ℕ}

theorem owner_step (h : ∀ n ∈ d.held, n.uid = uid) {e : DesktopEvent} (he : e.By uid) :
    ∀ n ∈ (d.step e).1.held, n.uid = uid := by
  cases e with
  | gone notification => exact h
  | effect effect answer =>
    cases effect with
    | notify notice =>
      rw [step_notify]
      exact h
    | dismissFinalWarning =>
      rw [step_dismiss]
      exact fun n hn => nomatch hn
    | showFinalWarning remainingSecs =>
      rcases d.step_show remainingSecs answer with hstep | ⟨session, hsession, id, hstep⟩
      · rw [hstep]
        exact fun n hn => nomatch hn
      · rw [hstep]
        intro n hn
        obtain rfl := Option.some.inj hn
        exact he.2 session hsession

/-- A close call of the user's is for the notification that is held. -/
theorem perm_dismissed (h : d.up.Perm (d.held.toList ++ lost)) (howner : ∀ n ∈ d.held, n.uid = uid)
    {answer : Answer} (hanswer : ∀ s ∈ answer.closing, s.uid = uid) :
    (d.dismissed answer).up.Perm
      ((d.held.filter fun notification => !answer.closes notification).toList ++ lost) := by
  rcases d.up_dismissed answer with ⟨hheld, hup⟩ | ⟨n, hheld, ⟨hcloses, hup⟩ | ⟨hcloses, hup⟩⟩
  · rw [hup, hheld]
    rwa [hheld] at h
  · rw [hup, hheld, Option.filter_some, hcloses]
    rw [hheld] at h
    simpa using h.erase n
  · rw [hheld, Option.filter_some, hcloses]
    rcases hup with hup | ⟨session, hsession, hne, -⟩
    · rw [hup]
      rwa [hheld] at h
    · exact absurd ((hanswer session hsession).trans (howner n hheld).symm) hne

theorem perm_step (h : d.up.Perm (d.held.toList ++ lost)) (howner : ∀ n ∈ d.held, n.uid = uid)
    {e : DesktopEvent} (he : e.By uid) (hgone : ∀ n, e ≠ .gone n) :
    (d.step e).1.up.Perm ((d.step e).1.held.toList ++ ((d.forgets e).toList ++ lost)) := by
  cases e with
  | gone notification => exact absurd rfl (hgone notification)
  | effect effect answer =>
    cases effect with
    | notify notice =>
      rw [step_notify]
      exact h
    | dismissFinalWarning =>
      rw [step_dismiss]
      exact perm_dismissed h howner he.1
    | showFinalWarning remainingSecs =>
      have hdismissed := perm_dismissed h howner he.1
      rcases d.step_show remainingSecs answer with hstep | ⟨session, -, id, hstep⟩
      · rw [hstep]
        exact hdismissed
      · rw [hstep]
        exact hdismissed.cons _

theorem forgets_eq_none (howner : ∀ n ∈ d.held, n.uid = uid) {e : DesktopEvent} (he : e.By uid)
    (hreached : e.Reached) : d.forgets e = none := by
  have hcloses : ∀ answer : Answer, (∀ s ∈ answer.closing, s.uid = uid) →
      answer.closing.isSome = true → answer.closed = true →
        (d.held.filter fun notification => !answer.closes notification) = none := by
    intro answer huid hsome hclosed
    obtain ⟨session, hsession⟩ := Option.isSome_iff_exists.1 hsome
    refine Option.filter_eq_none_iff.2 fun n hn => ?_
    have hsame : session.uid = n.uid := (huid session hsession).trans (howner n hn).symm
    simp [Answer.closes, hclosed, hsession, hsame]
  cases e with
  | gone notification => rfl
  | effect effect answer =>
    cases effect with
    | notify notice => rfl
    | showFinalWarning | dismissFinalWarning => exact hcloses answer he.1 hreached.1 hreached.2

/-! ## Runs -/

/-- What an event forgets comes before what the later ones do. -/
theorem perm_forgotten (d : Desktop) (e : DesktopEvent) (es : List DesktopEvent)
    (held lost : List Notification) :
    (held ++ (forgotten (d.step e).1 es ++ ((d.forgets e).toList ++ lost))).Perm
      (held ++ (forgotten d (e :: es) ++ lost)) := by
  refine List.Perm.append_left held ?_
  rw [forgotten, ← List.append_assoc]
  exact List.perm_append_comm.append_right lost

theorem subperm_after (h : d.up.Subperm (d.held.toList ++ lost)) (es : List DesktopEvent) :
    (after step d es).up.Subperm ((after step d es).held.toList ++ (d.forgotten es ++ lost)) := by
  induction es generalizing d lost with
  | nil => exact h
  | cons e es ih =>
    have hrest := ih (subperm_step h e)
    rw [after_cons]
    exact hrest.trans (perm_forgotten d e es _ lost).subperm

theorem held_after (h : ∀ n ∈ d.held, n ∈ d.up) {es : List DesktopEvent} (hgone : ∀ n, .gone n ∉ es) :
    ∀ n ∈ (after step d es).held, n ∈ (after step d es).up := by
  induction es generalizing d with
  | nil => exact h
  | cons e es ih =>
    have hstep := held_step h fun n (hn : e = .gone n) => hgone n (hn ▸ List.mem_cons_self)
    exact ih hstep fun n hn => hgone n (List.mem_cons_of_mem e hn)

theorem perm_after (h : d.up.Perm (d.held.toList ++ lost)) (howner : ∀ n ∈ d.held, n.uid = uid)
    {es : List DesktopEvent} (hby : ∀ e ∈ es, e.By uid) (hgone : ∀ n, .gone n ∉ es) :
    (after step d es).up.Perm ((after step d es).held.toList ++ (d.forgotten es ++ lost)) := by
  induction es generalizing d lost with
  | nil => exact h
  | cons e es ih =>
    obtain ⟨he, hes⟩ := List.forall_mem_cons.1 hby
    have hstep := perm_step h howner he fun n hn => hgone n (hn ▸ List.mem_cons_self)
    have hrest := ih hstep (owner_step howner he) hes fun n hn => hgone n (List.mem_cons_of_mem e hn)
    rw [after_cons]
    exact hrest.trans (perm_forgotten d e es _ lost)

theorem forgotten_eq_nil (howner : ∀ n ∈ d.held, n.uid = uid) {es : List DesktopEvent}
    (hby : ∀ e ∈ es, e.By uid) (hreached : ∀ e ∈ es, e.Reached) : d.forgotten es = [] := by
  induction es generalizing d with
  | nil => rfl
  | cons e es ih =>
    obtain ⟨he, hes⟩ := List.forall_mem_cons.1 hby
    obtain ⟨hreach, hreaches⟩ := List.forall_mem_cons.1 hreached
    rw [forgotten, forgets_eq_none howner he hreach, ih (owner_step howner he) hes hreaches]
    rfl

/-- Whatever effects are delivered, whatever is answered and whatever goes by itself: each final
warning that is up is the one that the notifier knows or has been forgotten, and the one that it knows
is up unless something has gone by itself. With one user these are all that are up, and none is
forgotten where every call to close one gets through. -/
theorem notifications_up (es : List DesktopEvent) :
    (after step start es).up.Subperm ((after step start es).held.toList ++ start.forgotten es) ∧
      ((∀ n, .gone n ∉ es) → ∀ n ∈ (after step start es).held, n ∈ (after step start es).up) ∧
      ((∃ uid, ∀ e ∈ es, e.By uid) →
        ((∀ n, .gone n ∉ es) →
          (after step start es).up.Perm ((after step start es).held.toList ++ start.forgotten es)) ∧
        ((∀ e ∈ es, e.Reached) → start.forgotten es = [])) := by
  have hnone : ∀ n, n ∉ start.held := fun n hn => nomatch hn
  refine ⟨?_, fun hgone => ?_, fun ⟨uid, hby⟩ => ⟨fun hgone => ?_, fun hreached => ?_⟩⟩
  · have hup : (after step start es).up.Subperm
        ((after step start es).held.toList ++ (start.forgotten es ++ [])) :=
      subperm_after (List.Subperm.refl _) es
    rwa [List.append_nil] at hup
  · exact held_after (fun n hn => absurd hn (hnone n)) hgone
  · have hup : (after step start es).up.Perm
        ((after step start es).held.toList ++ (start.forgotten es ++ [])) :=
      perm_after (List.Perm.refl _) (fun n hn => absurd hn (hnone n)) hby hgone
    rwa [List.append_nil] at hup
  · exact forgotten_eq_nil (fun n hn => absurd hn (hnone n)) hby hreached

def ana : DesktopSession := { user := ['a', 'n', 'a'], uid := 1000 }

/-- A final warning is shown to Ana, and is replaced by another one. -/
def replaced : List DesktopEvent :=
  [.effect (.showFinalWarning 20)
      { closing := some ana, closed := true, session := some ana, stdout := some ['7'] },
    .effect (.showFinalWarning 9)
      { closing := some ana, closed := true, session := some ana, stdout := some ['8'] }]

theorem notifications_up_replaced :
    start.forgotten replaced = [] ∧ (after step start replaced).up = [{ uid := 1000, id := 8 }] := by
  have hgone : ∀ n, .gone n ∉ replaced := by simp [replaced]
  have hby : ∀ e ∈ replaced, e.By 1000 := by simp [replaced, DesktopEvent.By, ana]
  have hreached : ∀ e ∈ replaced, e.Reached := by simp [replaced, DesktopEvent.Reached]
  obtain ⟨-, -, hone⟩ := notifications_up replaced
  obtain ⟨hperm, hforgotten⟩ := hone ⟨1000, hby⟩
  have hup := hperm hgone
  rw [hforgotten hreached, show (after step start replaced).held = some { uid := 1000, id := 8 } by
    decide] at hup
  exact ⟨hforgotten hreached, List.perm_singleton.1 hup⟩

/-- Ana's desktop is switched to Bob's, and her session is extended: the close call goes to Bob's
daemon, and her warning stays up although the notifier does not know it any more. -/
example :
    let bob : DesktopSession := { user := ['b', 'o', 'b'], uid := 1001 }
    let es : List DesktopEvent :=
      [.effect (.showFinalWarning 20)
          { closing := none, closed := false, session := some ana, stdout := some ['7'] },
        .effect .dismissFinalWarning
          { closing := some bob, closed := true, session := some bob, stdout := none }]
    (after step start es).held = none ∧ (after step start es).up = [{ uid := 1000, id := 7 }] := by
  decide

end Desktop

end Taymna.Agent.Linux
