import Taymna.Agent.RunLoop
import Taymna.Api.World
import Taymna.Automata.Replica

/-!
# The session as a replicated value

The agent's stored session is a replica of the machine's `ACTIVE` row: what it holds is a `Copy`
stamped with `lastAppliedAt`, and each `session_state` on its socket carries one, stamped with the
row's `updatedAt` or, when there is no session, with the server's time. `Current` is what has to
hold of the `ACTIVE` row and of all the copies for the agent to end up with that row.
-/

namespace Taymna.SessionSync

open Automata Agent Api
open SessionsService (snapshot)

/-- What the agent keeps of the pushes: the session, and the time it was judged by. -/
abbrev Held := Copy (Option SessionSnapshot) ℤ

def held (state : AgentState) : Held := ⟨state.session, state.lastAppliedAt⟩

/-- What a server event makes of it while the agent is not decommissioned. -/
def receive (a : Held) : ServerEvent → Held
  | .sessionState session messageTime =>
    let applied := applyServerMessage a.view a.stamp session messageTime
    ⟨applied.session, applied.lastAppliedAt⟩
  | .serverTime _ => a
  | .decommission => ⟨none, a.stamp⟩

theorem held_onEvent {r : RunLoop} (h : r.decommissioned = false) (event : ServerEvent)
    (instant : ℕ) : held (r.onEvent event instant).state = receive (held r.state) event := by
  unfold RunLoop.onEvent
  rw [if_neg (by simp [h])]
  cases event with
  | sessionState session messageTime =>
    dsimp only
    split_ifs <;> rfl
  | serverTime => rfl
  | decommission => rfl

/-- `apply_server_message` keeps the newest copy. -/
theorem receive_sessionState (a : Held) (session : Option SessionSnapshot) (messageTime : ℤ) :
    receive a (.sessionState session messageTime) = a.take ⟨session, messageTime⟩ := by
  rcases lt_or_ge a.stamp messageTime with h | h
  · simp only [receive, applyServerMessage_newer h]
    rw [Copy.take_of_lt h]
  · simp only [receive, applyServerMessage_stale h]
    rw [Copy.take_of_le h]

/-- What a frame makes of it: `handle_message` passes the event on, if there is one. -/
def handle (a : Held) : Frame → Held
  | .message message =>
    match message.read.event with
    | some event => receive a event
    | none => a
  | .close _ _ => a

/-- The copy that a `session_state` carries. -/
def carried : Frame → Option Held
  | .message (.sessionState session serverTime) =>
    let session := session.map SessionStateDto.read
    some ⟨session, messageTime session (nanos serverTime)⟩
  | _ => none

theorem handle_of_carried {a m : Held} {frame : Frame} (h : carried frame = some m) :
    handle a frame = a.take m := by
  unfold carried at h
  split at h
  · obtain rfl := Option.some.inj h
    exact receive_sessionState _ _ _
  · cases h

/-- An agent to which nothing but session states is sent ends up with the newest copy. -/
theorem foldl_handle {a : Held} {frames : List Frame} (h : ∀ f ∈ frames, (carried f).isSome = true) :
    frames.foldl handle a = a.latest (frames.filterMap carried) := by
  induction frames generalizing a with
  | nil => rfl
  | cons f frames ih =>
    obtain ⟨m, hm⟩ := Option.isSome_iff_exists.1 (h f List.mem_cons_self)
    rw [List.foldl_cons, handle_of_carried hm, List.filterMap_cons_some hm, Copy.latest_cons]
    exact ih fun g hg => h g (List.mem_cons_of_mem f hg)

/-- The copy that a push of a row carries. -/
def copy (row : Session) : Held := ⟨some (snapshot row), nanos row.updatedAt⟩

@[simp] theorem copy_stamp (row : Session) : (copy row).stamp = nanos row.updatedAt := rfl

theorem carried_row (row : Session) (serverTime : ℤ) :
    carried (.message (SessionsService.sessionState (some row) serverTime)) = some (copy row) := rfl

theorem carried_null (serverTime : ℤ) :
    carried (.message (SessionsService.sessionState none serverTime)) =
      some ⟨none, nanos serverTime⟩ := rfl

/-! ## Agreement -/

/-- The agent's session is the machine's `ACTIVE` row; or it is not `ACTIVE`, when there is none. -/
def Agree (active : Option Session) (session : Option SessionSnapshot) : Prop :=
  match active with
  | some row => ∃ s ∈ session, s.status = .active ∧ s.id = row.id ∧ s.expiresAt = nanos row.expiresAt
  | none => ∀ s ∈ session, s.status ≠ .active

theorem agree_copy {row : Session} (h : row.status = .active) :
    Agree (some row) (copy row).view :=
  ⟨snapshot row, rfl, h, rfl, rfl⟩

theorem agree_copy_none {row : Session} (h : row.status ≠ .active) : Agree none (copy row).view := by
  rintro s hs
  obtain rfl := Option.some.inj hs
  exact h

theorem agree_none_none : Agree none none := by
  rintro s hs
  cases hs

/-- The copies that disagree with the `ACTIVE` row are older than it; and once the agent has been
told of the session, or is about to be, no copy that disagrees can be the last word. -/
structure Current (active : Option Session) (C : List Held) (briefed : Prop) : Prop where
  below : ∀ row, active = some row → Copy.Below (Agree active) (nanos row.updatedAt) C
  settled : briefed → ∃ n, (∀ row, active = some row → nanos row.updatedAt ≤ n) ∧
    Copy.Settled (Agree active) n C

namespace Current

variable {active : Option Session} {C D : List Held} {briefed briefed' : Prop} {row : Session}

/-- Copies that get lost do no harm as long as the agent has yet to be told of the session. -/
theorem of_subset (h : Current active C briefed) (hD : D ⊆ C) (hC : briefed → C ⊆ D)
    (hb : briefed' → briefed) : Current active D briefed' where
  below row hrow := (h.below row hrow).of_subset hD
  settled hbriefed := by
    obtain ⟨n, hn, hsettled⟩ := h.settled (hb hbriefed)
    exact ⟨n, hn, hsettled.of_subset hD (hC (hb hbriefed))⟩

/-- A write of what is the `ACTIVE` row from then on, or was until then, stamped later than
everything before it. -/
theorem write (hnew : ∀ x ∈ C, x.stamp < nanos row.updatedAt) :
    Current (if row.status = .active then some row else none) (copy row :: C) briefed := by
  have hbelow : ∀ Q, Copy.Below Q (nanos row.updatedAt) C := fun _ x hx _ => hnew x hx
  have hagree : Agree (if row.status = .active then some row else none) (copy row).view := by
    split_ifs with hs
    · exact agree_copy hs
    · exact agree_copy_none hs
  have hrow : ∀ r, (if row.status = .active then some row else none) = some r → r = row := by
    intro r hr
    split_ifs at hr with hs
    exact (Option.some.inj hr).symm
  have hsettled :=
    (hbelow (Agree (if row.status = .active then some row else none))).settled hagree le_rfl
  refine ⟨fun r hr => ?_, fun _ => ⟨nanos row.updatedAt, fun r hr => ?_, hsettled⟩⟩
  · rw [hrow r hr]
    exact hsettled.below
  · rw [hrow r hr]

/-- A write of a new row. -/
theorem write_active (hs : row.status = .active) (hnew : ∀ x ∈ C, x.stamp < nanos row.updatedAt) :
    Current (some row) (copy row :: C) briefed := by
  have h : Current (if row.status = .active then some row else none) (copy row :: C) briefed :=
    write hnew
  rwa [if_pos hs] at h

/-- A write of another row, stamped before the `ACTIVE` one. -/
theorem write_other (h : Current active C briefed) (hs : row.status ≠ .active)
    (hold : ∀ r, active = some r → row.updatedAt < r.updatedAt) :
    Current active (copy row :: C) briefed := by
  have hm : ∀ n, (∀ r, active = some r → nanos r.updatedAt ≤ n) →
      Agree active (copy row).view ∨ (copy row).stamp < n := by
    intro n hn
    cases active with
    | none => exact Or.inl (agree_copy_none hs)
    | some r => exact Or.inr ((nanos_lt_nanos_iff.2 (hold r rfl)).trans_le (hn r rfl))
  refine ⟨fun r hr => (h.below r hr).cons (hm _ fun r' hr' => ?_), fun hbriefed => ?_⟩
  · obtain rfl := Option.some.inj (hr.symm.trans hr')
    exact le_rfl
  · obtain ⟨n, hn, hsettled⟩ := h.settled hbriefed
    exact ⟨n, hn, hsettled.cons (hm n hn)⟩

/-- A read of the `ACTIVE` row, which is going to be pushed. -/
theorem read (h : Current (some row) C briefed) (hs : row.status = .active) :
    Current (some row) (copy row :: C) briefed' := by
  have hsettled := (h.below row rfl).settled (agree_copy hs) (le_refl (copy row).stamp)
  refine ⟨fun r hr => ?_, fun _ => ⟨nanos row.updatedAt, fun r hr => ?_, hsettled⟩⟩
  · obtain rfl := Option.some.inj hr
    exact hsettled.below
  · obtain rfl := Option.some.inj hr
    exact le_rfl

/-- A push of there being no session, when there is none. -/
theorem absent {m : Held} (hview : m.view = none) (hnew : ∀ x ∈ C, x.stamp < m.stamp) :
    Current none (m :: C) briefed := by
  have hbelow : Copy.Below (Agree none) m.stamp C := fun x hx _ => hnew x hx
  have hagree : Agree none m.view := hview ▸ agree_none_none
  exact ⟨fun r hr => (by cases hr), fun _ => ⟨m.stamp, fun r hr => (by cases hr),
    hbelow.settled hagree le_rfl⟩⟩

/-- What the agent ends up with. -/
theorem agree {a : Held} (h : Current active (a :: C) briefed) (hb : briefed) :
    Agree active (a.latest C).view := by
  obtain ⟨n, -, hsettled⟩ := h.settled hb
  exact hsettled.latest

end Current

end Taymna.SessionSync
