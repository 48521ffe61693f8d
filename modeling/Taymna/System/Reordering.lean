import Mathlib.Data.Finset.Dedup
import Mathlib.Data.Finset.Insert
import Mathlib.Data.List.Induction
import Taymna.System.Copies

/-!
# Delivery order of session pushes

Pushes that carry different times may reach the agent in any order and any number of times, with
ticks of local enforcement in between. The agent ends up with the newest of them, up to the mark
that a tick leaves on a session which is over; and no tick that comes later can tell the difference.
-/

namespace Taymna.SessionSync

open Automata Agent

/-- What the run loop does to the session: it takes in a push, or advances it by a tick. -/
inductive Delivery
  | push (m : Held)
  | tick (trustedNow : ℤ)
deriving DecidableEq, Repr

namespace Delivery

def apply (a : Held) : Delivery → Held
  | .push m => receive a (.sessionState m.view m.stamp)
  | .tick trustedNow => { a with view := (advance a.view trustedNow).1 }

/-- The push in a delivery, and the tick. -/
def push? : Delivery → Option Held
  | .push m => some m
  | .tick _ => none

def tick? : Delivery → Option ℤ
  | .push _ => none
  | .tick trustedNow => some trustedNow

end Delivery

/-- The pushes of a sequence of deliveries, and its ticks. -/
def pushes (ds : List Delivery) : List Held := ds.filterMap Delivery.push?

def ticks (ds : List Delivery) : List ℤ := ds.filterMap Delivery.tick?

/-- What is held after all of them. -/
def deliver (a : Held) (ds : List Delivery) : Held := ds.foldl Delivery.apply a

/-- A tick of the run loop, as long as the agent is not decommissioned. -/
theorem held_onTick {r : RunLoop} (h : r.decommissioned = false) (osNow : ℤ) (instants : Instants) :
    held (r.onTick osNow instants).1.state =
      Delivery.apply (held r.state) (.tick (r.clock.trusted osNow instants.read)) := by
  unfold RunLoop.onTick
  rw [if_neg (by simp [h])]
  rfl

/-- `held` is `session`, or bears the mark that one of the ticks `T` has left on it. -/
inductive MarkedBy (T : List ℤ) : Option SessionSnapshot → Option SessionSnapshot → Prop
  | same (session : Option SessionSnapshot) : MarkedBy T session session
  | marked {s : SessionSnapshot} {t : ℤ} : s.status = .active → t ∈ T → s.expiresAt ≤ t →
      MarkedBy T (some s) (some { s with status := .expired })

namespace MarkedBy

variable {T T' : List ℤ} {session session' : Option SessionSnapshot}

theorem mono (h : MarkedBy T session session') (hT : T ⊆ T') : MarkedBy T' session session' := by
  cases h with
  | same => exact .same _
  | marked hs ht hle => exact .marked hs (hT ht) hle

/-- One more tick. -/
theorem advance (h : MarkedBy T session session') (t : ℤ) :
    MarkedBy (T ++ [t]) session (Agent.advance session' t).1 := by
  rw [advance_fst]
  cases h with
  | same =>
    cases session with
    | none => exact .same none
    | some s =>
      rw [Option.map_some]
      by_cases hover : s.status = .active ∧ s.expiresAt ≤ t
      · rw [show expire t s = { s with status := .expired } from if_pos hover]
        exact .marked hover.1 (List.mem_append_right T (List.mem_singleton_self t)) hover.2
      · rw [show expire t s = s from if_neg hover]
        exact .same _
  | marked hs ht hle =>
    rw [Option.map_some, expire_of_not_active (by simp)]
    exact .marked hs (List.mem_append_left _ ht) hle

/-- A tick that does not come before those that may have left the mark cannot see it. -/
theorem advance_eq (h : MarkedBy T session session') {now : ℤ} (hnow : ∀ t ∈ T, t ≤ now) :
    Agent.advance session' now = Agent.advance session now := by
  cases h with
  | same => rfl
  | @marked s t hs ht hle =>
    have hover : s.status = .active ∧ s.expiresAt ≤ now := ⟨hs, hle.trans (hnow t ht)⟩
    have hmark : expire now s = { s with status := .expired } := if_pos hover
    have hkeep : expire now { s with status := .expired } = { s with status := .expired } :=
      expire_of_not_active (by simp)
    unfold Agent.advance
    simp [hmark, hkeep]

end MarkedBy

/-- A sequence of deliveries leaves what the pushes alone would leave, up to the mark. -/
theorem deliver_latest (a : Held) (ds : List Delivery) :
    (deliver a ds).stamp = (a.latest (pushes ds)).stamp ∧
      MarkedBy (ticks ds) (a.latest (pushes ds)).view (deliver a ds).view := by
  induction ds using List.reverseRecOn with
  | nil => exact ⟨rfl, .same _⟩
  | append_singleton ds d ih =>
    obtain ⟨hstamp, hview⟩ := ih
    have hdeliver : deliver a (ds ++ [d]) = Delivery.apply (deliver a ds) d := by
      simp [deliver]
    rw [hdeliver]
    cases d with
    | push m =>
      have hpushes : pushes (ds ++ [.push m]) = pushes ds ++ [m] := by
        simp [pushes, Delivery.push?]
      have hticks : ticks (ds ++ [.push m]) = ticks ds := by simp [ticks, Delivery.tick?]
      rw [hpushes, hticks, Copy.latest_append, Copy.latest_cons, Copy.latest_nil]
      rw [Delivery.apply, receive_sessionState]
      rcases lt_or_ge (deliver a ds).stamp m.stamp with hlt | hge
      · rw [Copy.take_of_lt hlt, Copy.take_of_lt (hstamp ▸ hlt)]
        exact ⟨rfl, .same _⟩
      · rw [Copy.take_of_le hge, Copy.take_of_le (hstamp ▸ hge)]
        exact ⟨hstamp, hview⟩
    | tick t =>
      have hpushes : pushes (ds ++ [.tick t]) = pushes ds := by simp [pushes, Delivery.push?]
      have hticks : ticks (ds ++ [.tick t]) = ticks ds ++ [t] := by simp [ticks, Delivery.tick?]
      rw [hpushes, hticks]
      exact ⟨hstamp, hview.advance t⟩

/-- `f` is the newest of the messages `M`, if it is newer than what the agent holds, and otherwise
what the agent holds. -/
def Winner (a : Held) (M : Finset Held) (f : Held) : Prop :=
  (f = a ∧ ∀ m ∈ M, m.stamp ≤ a.stamp) ∨
    (f ∈ M ∧ a.stamp < f.stamp ∧ ∀ m ∈ M, m.stamp ≤ f.stamp)

/-- Two sequences that deliver the same messages, which all carry different times, leave the same
time and the same session, up to the mark; and a tick that does not come before any of theirs leaves
the same session without exception, and decides the same. -/
theorem delivery_order_immaterial (a : Held) {M : Finset Held}
    (hM : ∀ m ∈ M, ∀ m' ∈ M, m.stamp = m'.stamp → m = m') {ds ds' : List Delivery}
    (hds : (pushes ds).toFinset = M) (hds' : (pushes ds').toFinset = M) :
    (∃ f, Winner a M f ∧ (deliver a ds).stamp = f.stamp ∧ (deliver a ds').stamp = f.stamp ∧
        MarkedBy (ticks ds) f.view (deliver a ds).view ∧
        MarkedBy (ticks ds') f.view (deliver a ds').view) ∧
      ∀ now, (∀ t ∈ ticks ds ++ ticks ds', t ≤ now) →
        advance (deliver a ds).view now = advance (deliver a ds').view now := by
  have hmem : ∀ x, x ∈ pushes ds ↔ x ∈ M := fun x => by rw [← hds, List.mem_toFinset]
  have hmem' : ∀ x, x ∈ pushes ds' ↔ x ∈ M := fun x => by rw [← hds', List.mem_toFinset]
  have hsame : a.latest (pushes ds) = a.latest (pushes ds') :=
    Copy.latest_congr (fun x hx y hy => hM x ((hmem x).1 hx) y ((hmem y).1 hy))
      fun x => (hmem x).trans (hmem' x).symm
  obtain ⟨hstamp, hview⟩ := deliver_latest a ds
  obtain ⟨hstamp', hview'⟩ := deliver_latest a ds'
  rw [← hsame] at hstamp' hview'
  refine ⟨⟨a.latest (pushes ds), ?_, hstamp, hstamp', hview, hview'⟩, fun now hnow => ?_⟩
  · rcases Copy.latest_cases a (pushes ds) with ⟨he, hold⟩ | ⟨hin, hlt, hmax⟩
    · exact Or.inl ⟨he, fun m hm => hold m ((hmem m).2 hm)⟩
    · exact Or.inr ⟨(hmem _).1 hin, hlt, fun m hm => hmax m ((hmem m).2 hm)⟩
  · rw [hview.advance_eq fun t ht => hnow t (List.mem_append_left _ ht),
      hview'.advance_eq fun t ht => hnow t (List.mem_append_right _ ht)]

/-- A session until `50`, and the push that starts it. -/
def running : SessionSnapshot :=
  { id := "s1", startedAt := 10, expiresAt := 50, status := .active, updatedAt := 10 }

def startPush : Held := ⟨some running, 10⟩

/-- A push of there being no session, from before. -/
def nonePush : Held := ⟨none, 5⟩

/-- The pushes in order, and then out of order, the second one twice, with a tick that is overdue. -/
theorem delivery_order_immaterial_swapped :
    advance (deliver ⟨none, 0⟩ [.push nonePush, .tick 6, .push startPush]).view 60 =
      advance (deliver ⟨none, 0⟩ [.push startPush, .tick 55, .push nonePush, .push startPush]).view
        60 :=
  (delivery_order_immaterial ⟨none, 0⟩ (M := {nonePush, startPush}) (by decide) (by decide)
    (by decide)).2 60 (by decide)

end Taymna.SessionSync
