import Taymna.Automata.Run

/-!
# Custody of handles

A handle that is acquired from outside is owned until it is released. `custody` is the monitor of
such events: it stops at the use or the release of a handle that is not owned, so that a run it
accepts has released every handle as often as it was acquired, up to what is owned at its end
(`run_custody_count`). A slot holds at most one handle, and takes it down before it takes another
one in.
-/

namespace Automata

inductive Custody (η : Type*)
  | acquire (handle : η)
  | use (handle : η)
  | release (handle : η)
deriving DecidableEq, Repr

section

variable {η : Type*} [DecidableEq η]

/-- The handles that are owned after an event. -/
def custody (owned : List η) : Custody η → Option (List η)
  | .acquire handle => some (handle :: owned)
  | .use handle => if handle ∈ owned then some owned else none
  | .release handle => if handle ∈ owned then some (owned.erase handle) else none

/-- One event moves the number of owned copies by what it acquires and releases. -/
theorem custody_count {owned owned' : List η} {e : Custody η} (h : custody owned e = some owned')
    (x : η) :
    [e].count (.acquire x) + owned.count x = [e].count (.release x) + owned'.count x := by
  cases e with
  | acquire handle =>
    obtain rfl := Option.some.inj h
    by_cases hx : handle = x
    · subst hx
      simp [Nat.add_comm]
    · simp [hx]
  | use handle =>
    simp only [custody] at h
    split_ifs at h
    obtain rfl := Option.some.inj h
    simp
  | release handle =>
    simp only [custody] at h
    split_ifs at h with hmem
    obtain rfl := Option.some.inj h
    by_cases hx : handle = x
    · subst hx
      have hpos := List.count_pos_iff.2 hmem
      simp only [List.count_singleton_self, List.count_erase_self]
      have hne : [Custody.release handle].count (.acquire handle) = 0 := by simp
      omega
    · rw [List.count_erase_of_ne (Ne.symm hx)]
      simp [hx]

/-- Over a run that is accepted, what was acquired is what was released and what is still owned. -/
theorem run_custody_count {owned owned' : List η} {es : List (Custody η)}
    (h : run custody owned es = some owned') (x : η) :
    es.count (.acquire x) + owned.count x = es.count (.release x) + owned'.count x := by
  induction es generalizing owned with
  | nil =>
    obtain rfl := Option.some.inj h
    rfl
  | cons e es ih =>
    obtain ⟨u, hu, ht⟩ := run_cons_eq_some.1 h
    have hstep := custody_count hu x
    have hrest := ih ht
    rw [← List.singleton_append, List.count_append, List.count_append]
    omega

end

/-! ## A slot for one handle -/

namespace Slot

variable {η κ : Type*}

/-- What is held is taken down, and the slot is empty. -/
def dismiss (takeDown : η → List κ) : Option η → Option η × List κ
  | some handle => (none, takeDown handle)
  | none => (none, [])

/-- What is held is taken down, and what has come instead is held. -/
def replace (takeDown : η → List κ) (call : κ) (started : Option η) (slot : Option η) :
    Option η × List κ :=
  (started, (dismiss takeDown slot).2 ++ [call])

/-- What has come is let go at once, and the slot stays as it is. -/
def flash (letGo : η → κ) (call : κ) (started : Option η) (slot : Option η) : Option η × List κ :=
  (slot, call :: (started.map letGo).toList)

section

variable [DecidableEq η] {takeDown : η → List κ} {letGo : η → κ} {call : κ} {started : Option η}
  {f : κ → Option (Custody η)}

theorem run_dismiss (h : ∀ x, (takeDown x).filterMap f = [.use x, .release x]) (slot : Option η) :
    run custody slot.toList ((dismiss takeDown slot).2.filterMap f) = some [] := by
  cases slot with
  | none => rfl
  | some x =>
    show run custody [x] ((takeDown x).filterMap f) = some []
    rw [h x]
    simp [run, custody]

theorem run_replace (h : ∀ x, (takeDown x).filterMap f = [.use x, .release x])
    (hcall : f call = started.map .acquire) (slot : Option η) :
    run custody slot.toList ((replace takeDown call started slot).2.filterMap f) =
      some (replace takeDown call started slot).1.toList := by
  show run custody slot.toList (((dismiss takeDown slot).2 ++ [call]).filterMap f) =
    some started.toList
  rw [List.filterMap_append, run_append, run_dismiss h slot]
  cases started with
  | none => simp [hcall]
  | some x => simp [hcall, run, custody]

theorem run_flash (hcall : f call = started.map .acquire) (hgo : ∀ x, f (letGo x) = some (.release x))
    (slot : Option η) :
    run custody slot.toList ((flash letGo call started slot).2.filterMap f) =
      some (flash letGo call started slot).1.toList := by
  show run custody slot.toList ((call :: (started.map letGo).toList).filterMap f) = some slot.toList
  cases started with
  | none =>
    rw [List.filterMap_cons_none hcall]
    rfl
  | some x =>
    rw [List.filterMap_cons_some hcall]
    simp [hgo, run, custody]

end

end Slot

end Automata
