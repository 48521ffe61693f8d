import Mathlib.Data.List.Forall2
import Taymna.Agent.Storage

/-!
# Setting the clock back while the agent runs

A process's calls of `ClockGuard::now` are a list of `Gap`s: how long the monotonic clock ran since
the call before, by how much the wall clock was set back meanwhile, in one jump or in several, and how
long the call itself takes. The guard extrapolates only when the wall clock shows less than the last
value it returned. So a set-back that the time since that value has already made up for is taken at its
word, and lost for good. A larger one costs what a call does not count: the time from its reading of
the OS clock to its new anchor, unless the reading of the next elapsed time is as late. `Covered` tells
which calls lose nothing on the whole.
-/

namespace Taymna.Agent

/-- One call of `now`, and what happens between the call before and it. -/
structure Gap where
  /-- From the last anchor to the reading of the OS clock. -/
  elapsed : ℕ
  setBack : ℕ
  /-- From the reading of the OS clock to that of the elapsed time. -/
  toElapsed : ℕ
  /-- From there to the new anchor. -/
  toAnchor : ℕ
deriving DecidableEq, Repr

namespace Gap

/-- How long the call takes. -/
def pause (g : Gap) : ℕ := g.toElapsed + g.toAnchor

/-- What the call counts of the time if it extrapolates. -/
def counted (g : Gap) : ℕ :=
  if g.elapsed + g.toElapsed ≤ TimeDelta.max then g.elapsed + g.toElapsed else 0

end Gap

/-- The guard of a process next to the two clocks it reads, after a call. -/
structure Clocks where
  guard : ClockGuard
  wall : ℤ
  instant : ℕ
deriving DecidableEq, Repr

namespace Clocks

/-- A process that starts when the wall clock shows `wall`. -/
def start (persistedHighWaterMark wall : ℤ) (instant : ℕ) : Clocks :=
  { guard := ClockGuard.new persistedHighWaterMark instant, wall := wall, instant := instant }

/-- The next call of `now`: the value it returns, and the clocks after it. -/
def call (c : Clocks) (g : Gap) : ℤ × Clocks :=
  let osNow := c.wall + g.elapsed - g.setBack
  let instants := Instants.after (c.instant + g.elapsed) g.toElapsed g.toAnchor
  let (trusted, guard) := c.guard.now osNow instants
  (trusted, { guard := guard, wall := osNow + g.pause, instant := instants.anchored })

/-- The values that the calls return. -/
def values (c : Clocks) : List Gap → List ℤ
  | [] => []
  | g :: gs => (c.call g).1 :: (c.call g).2.values gs

end Clocks

/-- The readings of a clock that is not touched and that showed `now` at the reading before, by a call
that took so long. -/
def untouched (now : ℤ) (pause : ℕ) : List Gap → List ℤ
  | [] => []
  | g :: gs => (now + pause + g.elapsed) :: untouched (now + pause + g.elapsed) g.pause gs

/-- Every value is at least the first one plus the monotonic time since. -/
def KeepsPace (c : Clocks) (first : Gap) (later : List Gap) : Prop :=
  List.Forall₂ (· ≤ ·) (untouched (c.call first).1 first.pause later) ((c.call first).2.values later)

/-- Whatever session is held, a call that blocks under an untouched clock blocks. -/
def BlocksNoLater (c : Clocks) (calls : List Gap) : Prop :=
  ∀ s, List.Forall₂
    (fun u v => (advance (some s) u).2 = .blocked → (advance (some s) v).2 = .blocked)
    (untouched c.wall 0 calls) (c.values calls)

/-- The wall clock has been set back by `setBack` in all, the calls since have counted `lead` more
than the time, and the last one took `pause`. Each call either finds the clock as it should be, or the
time since the last one is less than the clock is behind the last value, and what it counts, and `lead`
with it, makes up for that time. -/
def Covered (setBack lead pause : ℕ) : List Gap → Prop
  | [] => True
  | g :: gs =>
    setBack + g.setBack = 0 ∧ Covered 0 0 g.pause gs ∨
      (pause + g.elapsed < setBack + g.setBack + lead ∧ pause + g.elapsed ≤ lead + g.counted) ∧
        Covered (setBack + g.setBack) (lead + g.counted - (pause + g.elapsed)) g.pause gs

instance Covered.instDecidable :
    ∀ (setBack lead pause : ℕ) (gs : List Gap), Decidable (Covered setBack lead pause gs)
  | _, _, _, [] => instDecidableTrue
  | setBack, lead, pause, g :: gs =>
    have := Covered.instDecidable 0 0 g.pause gs
    have := Covered.instDecidable (setBack + g.setBack) (lead + g.counted - (pause + g.elapsed)) g.pause gs
    inferInstanceAs (Decidable (_ ∧ _ ∨ (_ ∧ _) ∧ _))

/-- How far the wall clock is behind after the first call of a process that starts with the clock
`ahead` of the mark: only a set-back below the mark is noticed. -/
def firstBehind (ahead : ℕ) (g : Gap) : ℕ :=
  if g.setBack ≤ ahead + g.elapsed then 0 else g.setBack - (ahead + g.elapsed) + g.counted

/-- The first call loses nothing to a set-back before it. -/
def StartIntact (ahead : ℕ) (g : Gap) : Prop :=
  g.setBack = 0 ∨ ahead + g.elapsed < g.setBack ∧ ahead + g.elapsed ≤ g.counted

/-- What the first call counts more than the time. -/
def firstLead (ahead : ℕ) (g : Gap) : ℕ := if g.setBack = 0 then 0 else g.counted - (ahead + g.elapsed)

/-! ## One call -/

namespace Clocks

theorem call_fst (c : Clocks) (g : Gap) :
    (c.call g).1 = c.guard.trusted (c.wall + g.elapsed - g.setBack)
      (c.instant + g.elapsed + g.toElapsed) := rfl

@[simp] theorem call_highWaterMark (c : Clocks) (g : Gap) :
    (c.call g).2.guard.highWaterMark = (c.call g).1 := rfl

@[simp] theorem call_anchor (c : Clocks) (g : Gap) :
    (c.call g).2.guard.anchor = (c.call g).2.instant := rfl

@[simp] theorem call_wall (c : Clocks) (g : Gap) :
    (c.call g).2.wall = c.wall + g.elapsed - g.setBack + g.pause := rfl

variable {c : Clocks} {g : Gap}

theorem call_of_ge (h : c.guard.highWaterMark ≤ c.wall + g.elapsed - g.setBack) :
    (c.call g).1 = c.wall + g.elapsed - g.setBack := by
  rw [call_fst, ClockGuard.trusted_of_ge h]

theorem call_of_lt (hanchor : c.guard.anchor = c.instant)
    (h : c.wall + g.elapsed - g.setBack < c.guard.highWaterMark) :
    (c.call g).1 = c.guard.highWaterMark + g.counted := by
  have hsince : c.instant + g.elapsed + g.toElapsed - c.guard.anchor = g.elapsed + g.toElapsed := by
    omega
  rw [call_fst, ClockGuard.trusted_of_lt h]
  unfold Gap.counted
  split_ifs with hmax
  · rw [ClockGuard.elapsed_of_le (by rwa [hsince]), hsince]
  · rw [ClockGuard.elapsed_of_gt (by rw [hsince]; exact not_le.1 hmax), Nat.cast_zero]

/-- After a call of `pause`, the wall clock has been set back by `setBack` in all, and the value
returned is `lead` ahead of the time. -/
structure Behind (c : Clocks) (setBack lead pause : ℕ) : Prop where
  anchor : c.guard.anchor = c.instant
  wall : c.wall + setBack + lead = c.guard.highWaterMark + pause
  lead_eq : setBack = 0 → lead = 0

variable {setBack lead pause : ℕ}

/-- A clock that was never set back is read. -/
theorem Behind.call_in_step (hb : c.Behind setBack lead pause) (h : setBack + g.setBack = 0) :
    (c.call g).1 = c.guard.highWaterMark - lead + pause + g.elapsed ∧
      (c.call g).2.Behind 0 0 g.pause := by
  have hwall := hb.wall
  have hlead := hb.lead_eq (by omega)
  have hvalue : (c.call g).1 = c.wall + g.elapsed - g.setBack := call_of_ge (by omega)
  refine ⟨by omega, rfl, ?_, fun _ => rfl⟩
  rw [call_highWaterMark, call_wall, hvalue]
  simp

/-- A clock that is behind the last value is not. -/
theorem Behind.call_extrapolates (hb : c.Behind setBack lead pause)
    (h : pause + g.elapsed < setBack + g.setBack + lead) :
    (c.call g).1 = c.guard.highWaterMark + g.counted ∧
      (pause + g.elapsed ≤ lead + g.counted → (c.call g).2.Behind (setBack + g.setBack)
        (lead + g.counted - (pause + g.elapsed)) g.pause) := by
  have hwall := hb.wall
  have hlead := hb.lead_eq
  have hvalue : (c.call g).1 = c.guard.highWaterMark + g.counted := call_of_lt hb.anchor (by omega)
  refine ⟨hvalue, fun hle => ⟨rfl, ?_, fun hzero => ?_⟩⟩
  · rw [call_highWaterMark, call_wall, hvalue]
    omega
  · omega

/-- Any other clock is taken at its word. -/
theorem Behind.call_late (hb : c.Behind setBack lead pause) (h : setBack + g.setBack ≠ 0)
    (hle : setBack + g.setBack + lead ≤ pause + g.elapsed) :
    (c.call g).1 < c.guard.highWaterMark - lead + pause + g.elapsed := by
  have hwall := hb.wall
  have hvalue : (c.call g).1 = c.wall + g.elapsed - g.setBack := call_of_ge (by omega)
  omega

/-! ## All the calls of a process -/

/-- From a call on, the values keep pace with the monotonic clock exactly if the calls are covered. -/
theorem Behind.values_iff (hb : c.Behind setBack lead pause) (gs : List Gap) :
    List.Forall₂ (· ≤ ·) (untouched (c.guard.highWaterMark - lead) pause gs) (c.values gs) ↔
      Covered setBack lead pause gs := by
  induction gs generalizing c setBack lead pause with
  | nil => exact iff_of_true .nil trivial
  | cons g gs ih =>
    have hlead := hb.lead_eq
    rw [untouched, values, List.forall₂_cons, Covered]
    by_cases hzero : setBack + g.setBack = 0
    · obtain ⟨hvalue, hb'⟩ := hb.call_in_step hzero
      have hrest := ih hb'
      rw [call_highWaterMark, hvalue, Nat.cast_zero, sub_zero] at hrest
      rw [hvalue, hrest]
      constructor
      · exact fun h => .inl ⟨hzero, h.2⟩
      · rintro (h | h)
        · exact ⟨le_rfl, h.2⟩
        · omega
    · rcases lt_or_ge (pause + g.elapsed) (setBack + g.setBack + lead) with hlt | hge
      · obtain ⟨hvalue, hb'⟩ := hb.call_extrapolates hlt
        by_cases hle : pause + g.elapsed ≤ lead + g.counted
        · have hrest := ih (hb' hle)
          have htime : c.guard.highWaterMark + g.counted -
              ((lead + g.counted - (pause + g.elapsed) : ℕ) : ℤ) =
              c.guard.highWaterMark - lead + pause + g.elapsed := by omega
          rw [call_highWaterMark, hvalue, htime] at hrest
          rw [hvalue, hrest]
          constructor
          · exact fun h => .inr ⟨⟨hlt, hle⟩, h.2⟩
          · rintro (h | h)
            · exact absurd h.1 hzero
            · exact ⟨by omega, h.2⟩
        · refine iff_of_false (fun h => hle ?_) ?_
          · have hpace := h.1
            omega
          · rintro (h | h)
            · exact hzero h.1
            · exact hle h.1.2
      · refine iff_of_false (fun h => absurd h.1 (not_le.2 (hb.call_late hzero hge))) ?_
        rintro (h | h)
        · exact hzero h.1
        · omega

/-- The first call of a process. -/
theorem behind_call_start (mark : ℤ) (instant ahead : ℕ) (g : Gap) :
    ((start mark (mark + ahead) instant).call g).2.Behind (firstBehind ahead g) 0 g.pause := by
  refine ⟨rfl, ?_, fun _ => rfl⟩
  rw [call_highWaterMark, call_wall]
  unfold firstBehind
  split_ifs with hle
  · rw [call_of_ge (by simp [start]; omega)]
    simp
  · rw [call_of_lt rfl (by simp [start]; omega)]
    simp [start]
    omega

/-- The first call returns at least what an untouched clock would if it is intact. -/
theorem call_start (mark : ℤ) (instant ahead : ℕ) (g : Gap) :
    (mark + ahead + g.elapsed ≤ ((start mark (mark + ahead) instant).call g).1 ↔
        StartIntact ahead g) ∧
      (StartIntact ahead g →
        ((start mark (mark + ahead) instant).call g).1 - firstLead ahead g = mark + ahead + g.elapsed ∧
        ((start mark (mark + ahead) instant).call g).2.Behind g.setBack (firstLead ahead g) g.pause) := by
  have hbehind := behind_call_start mark instant ahead g
  generalize hc : start mark (mark + ahead) instant = c at hbehind ⊢
  have hwall : c.wall = mark + ahead := hc ▸ rfl
  have hmark : c.guard.highWaterMark = mark := hc ▸ rfl
  have hanchor : c.guard.anchor = c.instant := hc ▸ rfl
  unfold StartIntact firstLead
  rcases Nat.eq_zero_or_pos g.setBack with hzero | hpos
  · have hvalue : (c.call g).1 = c.wall + g.elapsed - g.setBack := call_of_ge (by omega)
    rw [if_pos hzero]
    refine ⟨iff_of_true (by omega) (.inl hzero), fun _ => ⟨by omega, rfl, ?_, fun _ => rfl⟩⟩
    rw [call_highWaterMark, call_wall, hvalue]
    simp [hzero]
  · rw [if_neg hpos.ne']
    rcases lt_or_ge (ahead + g.elapsed) g.setBack with hlt | hge
    · have hvalue : (c.call g).1 = c.guard.highWaterMark + g.counted := call_of_lt hanchor (by omega)
      refine ⟨by omega, fun h => ⟨by omega, rfl, ?_, by omega⟩⟩
      rw [call_highWaterMark, call_wall, hvalue]
      omega
    · have hvalue : (c.call g).1 = c.wall + g.elapsed - g.setBack := call_of_ge (by omega)
      exact ⟨by omega, by omega⟩

end Clocks

/-- An untouched clock is what the guard returns when nobody sets the clock back. -/
theorem values_of_untouched {c : Clocks} {pause : ℕ} {now : ℤ} (hwall : c.wall = now + pause)
    (hmark : c.guard.highWaterMark ≤ c.wall) {gs : List Gap} (hgs : ∀ g ∈ gs, g.setBack = 0) :
    c.values gs = untouched now pause gs := by
  induction gs generalizing c pause now with
  | nil => rfl
  | cons g gs ih =>
    have hzero : g.setBack = 0 := hgs g List.mem_cons_self
    have hvalue : (c.call g).1 = c.wall + g.elapsed - g.setBack := Clocks.call_of_ge (by omega)
    have hnow : (c.call g).1 = now + pause + g.elapsed := by omega
    have hnext : (c.call g).2.wall = (c.call g).1 + g.pause := by rw [Clocks.call_wall, hvalue]
    rw [Clocks.values, untouched, ← hnow,
      ih hnext (by rw [Clocks.call_highWaterMark]; omega) fun g hg => hgs g (List.mem_cons_of_mem _ hg)]

theorem forall₂_le_of_blocks {us vs : List ℤ}
    (h : ∀ s, List.Forall₂
      (fun u v => (advance (some s) u).2 = .blocked → (advance (some s) v).2 = .blocked) us vs) :
    List.Forall₂ (· ≤ ·) us vs := by
  induction us generalizing vs with
  | nil =>
    cases h ⟨"", 0, 0, .active, 0⟩
    exact .nil
  | cons u us ih =>
    cases vs with
    | nil => cases h ⟨"", 0, 0, .active, 0⟩
    | cons v vs =>
      simp only [List.forall₂_cons] at h ⊢
      refine ⟨?_, ih fun s => (h s).2⟩
      -- The session that ends at `u`.
      have hu := (h ⟨"", 0, u, .active, 0⟩).1
      simpa [advance_blocked_iff] using hu

theorem blocks_of_forall₂_le {us vs : List ℤ} (h : List.Forall₂ (· ≤ ·) us vs) (s : SessionSnapshot) :
    List.Forall₂
      (fun u v => (advance (some s) u).2 = .blocked → (advance (some s) v).2 = .blocked) us vs := by
  refine h.imp fun u v huv hu => ?_
  rw [advance_blocked_iff] at hu ⊢
  exact fun s' hs' hact => (hu s' hs' hact).trans huv

/-- Blocking no later is being no less than the untouched clock, call by call. -/
theorem blocksNoLater_iff (c : Clocks) (calls : List Gap) :
    BlocksNoLater c calls ↔ List.Forall₂ (· ≤ ·) (untouched c.wall 0 calls) (c.values calls) :=
  ⟨forall₂_le_of_blocks, fun h s => blocks_of_forall₂_le h s⟩

/-- In a process that starts with the wall clock at or above the mark, set-backs cost no time after
the first call exactly if the later calls are covered, and delay no block exactly if, besides, nothing
was lost before the first call. -/
theorem set_back_costs_nothing_iff (mark : ℤ) (instant ahead : ℕ) (first : Gap) (later : List Gap) :
    (KeepsPace (Clocks.start mark (mark + ahead) instant) first later ↔
        Covered (firstBehind ahead first) 0 first.pause later) ∧
      (BlocksNoLater (Clocks.start mark (mark + ahead) instant) (first :: later) ↔
        StartIntact ahead first ∧
          Covered first.setBack (firstLead ahead first) first.pause later) := by
  have hlater := (Clocks.behind_call_start mark instant ahead first).values_iff later
  rw [Clocks.call_highWaterMark, Nat.cast_zero, sub_zero] at hlater
  refine ⟨hlater, ?_⟩
  obtain ⟨hfirst, hintact⟩ := Clocks.call_start mark instant ahead first
  have htime : (Clocks.start mark (mark + ahead) instant).wall + (0 : ℕ) + first.elapsed =
      mark + ahead + first.elapsed := by simp [Clocks.start]
  rw [blocksNoLater_iff, untouched, Clocks.values, List.forall₂_cons, htime, hfirst]
  refine and_congr_right fun hstart => ?_
  obtain ⟨hvalue, hbehind⟩ := hintact hstart
  rw [← hvalue, ← hbehind.values_iff, Clocks.call_highWaterMark]

/-- Two seconds a tick, and 1.9 seconds taken back in each: trusted time runs at a twentieth of its
speed. An hour taken back once is noticed, but then each call loses the microsecond that it takes. -/
theorem short_set_backs_slow_expiry :
    ¬ KeepsPace (Clocks.start 0 (0 + (0 : ℕ)) 0) ⟨0, 0, 0, 0⟩
        [⟨2000000000, 1900000000, 0, 0⟩, ⟨2000000000, 1900000000, 0, 0⟩] ∧
      ¬ KeepsPace (Clocks.start 0 (0 + (0 : ℕ)) 0) ⟨0, 0, 0, 0⟩
        [⟨2000000000, 3600000000000, 0, 1000⟩, ⟨2000000000, 0, 0, 1000⟩] := by
  constructor
  · intro h
    exact absurd (List.forall₂_cons.1 h).1 (by decide)
  · intro h
    exact absurd (List.forall₂_cons.1 (List.forall₂_cons.1 h).2).1 (by decide)

end Taymna.Agent
