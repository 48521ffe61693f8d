import Mathlib.Data.List.Infix

/-!
# A mailbox

What is posted is taken in the order of posting. The history of both is part of a `Mailbox`, and with
it the proof that nothing is lost, repeated or overtaken on the way.
-/

namespace Automata

structure Mailbox (ο : Type*) where
  /-- Everything that has been posted, in order. -/
  posted : List ο
  /-- Everything that has been taken, in order. -/
  taken : List ο
  /-- What is still waiting. -/
  waiting : List ο
  taken_append : taken ++ waiting = posted

namespace Mailbox

variable {ο : Type*}

def empty : Mailbox ο := ⟨[], [], [], rfl⟩

def post (m : Mailbox ο) (os : List ο) : Mailbox ο where
  posted := m.posted ++ os
  taken := m.taken
  waiting := m.waiting ++ os
  taken_append := by rw [← List.append_assoc, m.taken_append]

/-- The first message that is waiting, and the mailbox without it. -/
def take? (m : Mailbox ο) : Option (ο × Mailbox ο) :=
  match h : m.waiting with
  | [] => none
  | o :: os => some (o, ⟨m.posted, m.taken ++ [o], os, by
      rw [← m.taken_append, h, List.append_assoc, List.singleton_append]⟩)

@[simp] theorem post_posted (m : Mailbox ο) (os : List ο) : (m.post os).posted = m.posted ++ os := rfl

@[simp] theorem post_taken (m : Mailbox ο) (os : List ο) : (m.post os).taken = m.taken := rfl

@[simp] theorem post_waiting (m : Mailbox ο) (os : List ο) :
    (m.post os).waiting = m.waiting ++ os := rfl

theorem taken_of_waiting {m : Mailbox ο} (h : m.waiting = []) : m.taken = m.posted := by
  rw [← m.taken_append, h, List.append_nil]

theorem take?_eq_some {m m' : Mailbox ο} {o : ο} (h : m.take? = some (o, m')) :
    m.waiting = o :: m'.waiting ∧ m'.taken = m.taken ++ [o] ∧ m'.posted = m.posted := by
  unfold take? at h
  split at h
  · cases h
  · rename_i o' os hw
    obtain ⟨rfl, rfl⟩ := Prod.mk.inj (Option.some.inj h)
    exact ⟨hw, rfl, rfl⟩

theorem take?_eq_none {m : Mailbox ο} (h : m.take? = none) : m.waiting = [] := by
  unfold take? at h
  split at h
  · rename_i hw
    exact hw
  · cases h

end Mailbox

end Automata
