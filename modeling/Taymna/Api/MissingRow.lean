import Taymna.Automata.Turns
import Taymna.Api.Operations

/-!
# Operations on a row that is gone

Each operation but `revokeCredential` looks its row up first, and answers 404 when there is none. The
write comes at a later turn, and by then the row may be gone: `update` and `delete` by id throw P2025
and an insert that refers to the row throws P2003, neither of which is an `HttpException`, so that
`AllExceptionsFilter` answers 500. `Stranded` is such a turn. An operation has one just when it ends
that way, and until it answers 404 it touches nothing (`turn_spec`).
-/

namespace Taymna.Api

open Automata SessionsService

variable {Hash : Type*}

/-- How an operation ends: it returns, it throws an exception with a status of its own, or it rejects
with Prisma's error. -/
inductive Answer
  | done
  | notFound
  | conflict
  | rejected
deriving DecidableEq, Repr

namespace ServiceCall

/-- How the operation has ended, once it has. -/
def answer : ServiceCall Hash → Option Answer
  | .get (.done _) | .rename (.done _) | .call (.issueEnrollmentToken (.done _ _ _))
  | .call (.revokeCredential (.done _)) | .call (.requestDecommission .removed)
  | .call (.requestDecommission (.decommissioning _)) | .call (.start (.done _))
  | .call (.edit (.done _)) => some .done
  | .get .notFound | .rename .notFound | .call (.issueEnrollmentToken .notFound)
  | .call (.requestDecommission .notFound) | .call (.start .notFound)
  | .call (.edit .notFound) => some .notFound
  | .call (.start .conflict) | .call (.edit .conflict) => some .conflict
  | .rename .failed | .call (.issueEnrollmentToken .failed) | .call (.revokeCredential .failed)
  | .call (.requestDecommission .failed) | .call (.start .failed)
  | .call (.edit .failed) => some .rejected
  | _ => none

/-- The operation has just been asked for. -/
inductive Asked : ServiceCall Hash → Prop
  | get : Asked (.get .find)
  | rename {name} : Asked (.rename (.find name))
  | issueEnrollmentToken : Asked (.call (.issueEnrollmentToken .find))
  | revokeCredential {now} : Asked (.call (.revokeCredential (.update now)))
  | requestDecommission : Asked (.call (.requestDecommission .find))
  | start {durationMinutes} : Asked (.call (.start (.find durationMinutes)))
  | edit {sessionId change} : Asked (.call (.edit (.find sessionId change)))

/-- Its write has been rejected. -/
def failing : ServiceCall Hash → Bool
  | .rename (.updated none) | .rename .failed
  | .call (.issueEnrollmentToken (.created none _ _)) | .call (.issueEnrollmentToken .failed)
  | .call (.revokeCredential (.updated none)) | .call (.revokeCredential .failed)
  | .call (.requestDecommission (.deleted false)) | .call (.requestDecommission (.marked none))
  | .call (.requestDecommission .failed) | .call (.start .failed)
  | .call (.edit (.updated none)) | .call (.edit .failed) => true
  | _ => false

/-- It has not touched anything yet. -/
def fresh : ServiceCall Hash → Bool
  | .get .find | .get (.found _) | .get .notFound
  | .rename (.find _) | .rename (.found _ _) | .rename (.update _) | .rename .notFound
  | .call (.issueEnrollmentToken .find) | .call (.issueEnrollmentToken (.found _))
  | .call (.issueEnrollmentToken (.hashing _ _)) | .call (.issueEnrollmentToken (.create _ _ _))
  | .call (.issueEnrollmentToken .notFound) | .call (.revokeCredential (.update _))
  | .call (.requestDecommission .find) | .call (.requestDecommission (.found _))
  | .call (.requestDecommission (.mark _)) | .call (.requestDecommission .notFound)
  | .call (.start (.find _)) | .call (.start (.found _ _)) | .call (.start .notFound)
  | .call (.edit (.find _ _)) | .call (.edit (.found _ _)) | .call (.edit (.update _ _))
  | .call (.edit (.stamped _ _ _)) | .call (.edit .notFound) => true
  | _ => false

theorem Asked.fresh {c : ServiceCall Hash} (h : c.Asked) : c.fresh = true := by
  cases h <;> rfl

theorem Asked.failing {c : ServiceCall Hash} (h : c.Asked) : c.failing = false := by
  cases h <;> rfl

end ServiceCall

/-- No row is changed, no socket is closed or written to, and nothing is broadcast. -/
def Untouched (n n' : NamedWorld Hash) : Prop :=
  ∃ clock secrets, n' = { n with world := { n.world with clock := clock, secrets := secrets } }

theorem Untouched.refl (n : NamedWorld Hash) : Untouched n n := ⟨_, _, rfl⟩

theorem Untouched.read (n : NamedWorld Hash) (wait : ℤ) :
    Untouched n { n with world := n.world.read wait } := ⟨_, _, rfl⟩

/-- The operation writes by the id of a row that is not there. -/
def Stranded (t : Pool.Turn (NamedWorld Hash) (ServiceCall Hash)) : Prop :=
  match t.call with
  | .rename (.update _) | .call (.issueEnrollmentToken (.create _ _ _))
  | .call (.revokeCredential (.update _)) | .call (.requestDecommission .delete)
  | .call (.requestDecommission (.mark _)) | .call (.start (.stamped _ _ _)) =>
    t.before.world.machine = none
  | .call (.edit (.stamped id _ _)) => findUnique t.before.world.sessions id = none
  | _ => False

/-- A conflict that the rows have earned: `start` found an active session of a machine that is there,
and `extend` or `end` found the session, which was not running. -/
def Earned (ts : List (Pool.Turn (NamedWorld Hash) (ServiceCall Hash))) : Prop :=
  (∃ t ∈ ts, ∃ startedAt expiresAt updatedAt,
      t.call = .call (.start (.stamped startedAt expiresAt updatedAt)) ∧
        t.before.world.machine.isSome = true ∧ (findActive t.before.world.sessions).isSome = true) ∨
    ∃ t ∈ ts, ∃ t' ∈ ts, ∃ id change session, t.call = .call (.edit (.find id change)) ∧
      findUnique t.before.world.sessions id = some session ∧
        t'.call = .call (.edit (.found change (some session))) ∧
          ¬ Running t'.after.world.clock session

/-- What is asked of an operation on a row that may be missing. -/
def Clean (answer : Answer) (ts : List (Pool.Turn (NamedWorld Hash) (ServiceCall Hash))) : Prop :=
  match answer with
  | .done => True
  | .notFound => ∀ t ∈ ts, Untouched t.before t.after
  | .conflict => Earned ts
  | .rejected => False

/-! ## One turn -/

section

attribute [local simp] ServiceCall.failing Stranded

theorem findUnique_of_update_eq_none {rows : List Session} {id : String} {edit : Edit} {updatedAt : ℤ}
    (h : update rows id edit updatedAt = none) : findUnique rows id = none := by
  unfold update at h
  split at h
  · assumption
  · cases h

/-- What a turn says about the operation before and after it. -/
structure TurnSpec (n : NamedWorld Hash) (c : ServiceCall Hash) (n' : NamedWorld Hash)
    (c' : ServiceCall Hash) : Prop where
  failing_iff : c'.failing = true ↔ c.failing = true ∨ Stranded ⟨n, c, n'⟩
  fresh : c'.fresh = true → c.fresh = true ∧ Untouched n n'

theorem turnSpec_get {n n' : NamedWorld Hash} {input : Input} {pc pc' : GetMachine Hash}
    (h : GetMachine.Step n input pc n' pc') : TurnSpec n (.get pc) n' (.get pc') := by
  cases h with
  | find | unknown => exact ⟨by simp, fun _ => ⟨rfl, .refl n⟩⟩
  | found | query | done => exact ⟨by simp, fun h => by cases h⟩

theorem turnSpec_rename {n n' : NamedWorld Hash} {input : Input} {pc pc' : RenameMachine Hash}
    (h : RenameMachine.Step n input pc n' pc') : TurnSpec n (.rename pc) n' (.rename pc') := by
  cases h with
  | find | unknown | found => exact ⟨by simp, fun _ => ⟨rfl, .refl n⟩⟩
  | update =>
    refine ⟨?_, fun h => by cases h⟩
    unfold NamedWorld.updateName
    rcases hm : n.world.machine with _ | m
    · simp [hm]
    · simp [hm]
  | rejected | updated | query | done =>
    exact ⟨by simp, fun h => by cases h⟩

theorem turnSpec_issueEnrollmentToken [Argon2 Hash] {n : NamedWorld Hash} {w : World Hash}
    {input : Input} {pc pc' : IssueEnrollmentToken Hash}
    (h : pc.step n.world input = some (w, pc')) :
    TurnSpec n (.call (.issueEnrollmentToken pc)) { n with world := w }
      (.call (.issueEnrollmentToken pc')) := by
  cases pc with
  | find | hashing =>
    obtain ⟨rfl, rfl⟩ := Prod.mk.inj (Option.some.inj h)
    exact ⟨by simp, fun _ => ⟨rfl, .refl n⟩⟩
  | found machine =>
    cases machine with
    | false =>
      obtain ⟨rfl, rfl⟩ := Prod.mk.inj (Option.some.inj h)
      exact ⟨by simp, fun _ => ⟨rfl, .refl n⟩⟩
    | true =>
      obtain ⟨w', hw, he⟩ := Option.map_eq_some_iff.1 h
      obtain ⟨rfl, rfl⟩ := Prod.mk.inj he
      unfold World.generateSecret at hw
      split_ifs at hw
      obtain rfl := Option.some.inj hw
      exact ⟨by simp, fun _ => ⟨rfl, _, _, rfl⟩⟩
  | create secret hash expiresAt =>
    simp only [IssueEnrollmentToken.step] at h
    split at h
    · rename_i hm
      obtain ⟨rfl, rfl⟩ := Prod.mk.inj (Option.some.inj h)
      exact ⟨by simp [hm], fun h => by cases h⟩
    · rename_i hm
      split_ifs at h
      obtain ⟨rfl, rfl⟩ := Prod.mk.inj (Option.some.inj h)
      exact ⟨by simp [hm], fun h => by cases h⟩
  | created id =>
    cases id <;> obtain ⟨rfl, rfl⟩ := Prod.mk.inj (Option.some.inj h) <;>
      exact ⟨by simp, fun h => by cases h⟩
  | done | notFound | failed => cases h

theorem turnSpec_revokeCredential {n : NamedWorld Hash} {w : World Hash} {input : Input}
    {pc pc' : RevokeCredential Hash} (h : RevokeCredential.Step n.world input pc w pc') :
    TurnSpec n (.call (.revokeCredential pc)) { n with world := w }
      (.call (.revokeCredential pc')) := by
  cases h with
  | update =>
    refine ⟨?_, fun h => by cases h⟩
    rcases hm : n.world.machine with _ | m
    · simp [hm]
    · simp [hm]
  | rejected | updated | query | done =>
    exact ⟨by simp, fun h => by cases h⟩

theorem turnSpec_requestDecommission {n : NamedWorld Hash} {w : World Hash} {input : Input}
    {pc pc' : RequestDecommission Hash} (h : RequestDecommission.Step n.world input pc w pc') :
    TurnSpec n (.call (.requestDecommission pc)) { n with world := w }
      (.call (.requestDecommission pc')) := by
  cases h with
  | find | notFound => exact ⟨by simp, fun _ => ⟨rfl, .refl n⟩⟩
  | request => exact ⟨by simp, fun _ => ⟨rfl, .read n _⟩⟩
  | mark =>
    refine ⟨?_, fun h => by cases h⟩
    rcases hm : n.world.machine with _ | m
    · simp [hm]
    · simp [hm]
  | delete hm | deleteFailed hm =>
    exact ⟨by simp [hm], fun h => by cases h⟩
  | remove | redeliver | removed | deleteRejected | markRejected | marked | query | done =>
    exact ⟨by simp [RequestDecommission.deliver], fun h => by cases h⟩

theorem turnSpec_start {n : NamedWorld Hash} {w : World Hash} {input : Input}
    {pc pc' : StartSession} (h : pc.step n.world input = some (w, pc')) :
    TurnSpec n (.call (.start pc)) { n with world := w } (.call (.start pc')) := by
  by_cases hs : ∃ startedAt expiresAt updatedAt, pc = .stamped startedAt expiresAt updatedAt
  · obtain ⟨startedAt, expiresAt, updatedAt, rfl⟩ := hs
    simp only [StartSession.step] at h
    split at h
    · rename_i hm
      obtain ⟨rfl, rfl⟩ := Prod.mk.inj (Option.some.inj h)
      exact ⟨by simp [hm], fun h => by cases h⟩
    · rename_i hm
      split_ifs at h
      split at h <;> obtain ⟨rfl, rfl⟩ := Prod.mk.inj (Option.some.inj h) <;>
        exact ⟨by simp [hm], fun h => by cases h⟩
  · cases StartSession.step_cases h with
    | find | unknown => exact ⟨by simp, fun _ => ⟨rfl, .refl n⟩⟩
    | found | expire | expired | create | push | conflict =>
      exact ⟨by simp, fun h => by cases h⟩
    | orphan | created | taken => exact absurd ⟨_, _, _, rfl⟩ hs

theorem turnSpec_edit {n : NamedWorld Hash} {w : World Hash} {input : Input} {pc pc' : EditSession}
    (h : pc.step n.world input = some (w, pc')) :
    TurnSpec n (.call (.edit pc)) { n with world := w } (.call (.edit pc')) := by
  cases EditSession.step_cases h with
  | find | unknown => exact ⟨by simp, fun _ => ⟨rfl, .refl n⟩⟩
  | allowed | stamp => exact ⟨by simp, fun _ => ⟨rfl, _, _, rfl⟩⟩
  | update hu =>
    obtain ⟨row, hrow, -⟩ := update_eq_some hu
    exact ⟨by simp [hrow], fun h => by cases h⟩
  | missing hu =>
    exact ⟨by simp [findUnique_of_update_eq_none hu],
      fun h => by cases h⟩
  | inactive | expired | push | failed =>
    exact ⟨by simp, fun h => by cases h⟩

/-- One turn of an operation, whatever the world has become. -/
theorem turn_spec [Argon2 Hash] {n n' : NamedWorld Hash} {input : Input} {c c' : ServiceCall Hash}
    (h : Service.step n c input = some (n', c')) : TurnSpec n c n' c' := by
  cases Service.step_cases h with
  | get hs => exact turnSpec_get hs
  | rename hs => exact turnSpec_rename hs
  | call hs =>
    cases hs with
    | issueEnrollmentToken hs => exact turnSpec_issueEnrollmentToken hs
    | revokeCredential hs => exact turnSpec_revokeCredential hs
    | requestDecommission hs => exact turnSpec_requestDecommission hs
    | start hs => exact turnSpec_start hs
    | edit hs => exact turnSpec_edit hs
    | authenticate | message | enroll =>
      exact ⟨by simp, fun h => by cases h⟩

end

/-! ## All the turns of an operation -/

/-- What an operation that may end in a conflict has seen. -/
def Seen (ts : List (Pool.Turn (NamedWorld Hash) (ServiceCall Hash))) : ServiceCall Hash → Prop
  | .call (.start (.created none)) => Earned ts
  | .call (.start .conflict) | .call (.edit .conflict) => Earned ts
  | .call (.edit (.found change (some session))) =>
    ∃ t ∈ ts, ∃ id, t.call = .call (.edit (.find id change)) ∧
      findUnique t.before.world.sessions id = some session
  | _ => True

theorem Earned.append {ts : List (Pool.Turn (NamedWorld Hash) (ServiceCall Hash))} (h : Earned ts)
    (t : Pool.Turn (NamedWorld Hash) (ServiceCall Hash)) : Earned (ts ++ [t]) := by
  rcases h with ⟨u, hu, h⟩ | ⟨u, hu, v, hv, h⟩
  · exact Or.inl ⟨u, List.mem_append_left _ hu, h⟩
  · exact Or.inr ⟨u, List.mem_append_left _ hu, v, List.mem_append_left _ hv, h⟩

theorem seen_start {ts : List (Pool.Turn (NamedWorld Hash) (ServiceCall Hash))}
    {n : NamedWorld Hash} {w : World Hash} {input : Input} {pc pc' : StartSession}
    (hseen : Seen ts (.call (.start pc))) (h : pc.step n.world input = some (w, pc')) :
    Seen (ts ++ [⟨n, .call (.start pc), { n with world := w }⟩]) (.call (.start pc')) := by
  by_cases hs : ∃ startedAt expiresAt updatedAt, pc = .stamped startedAt expiresAt updatedAt
  · obtain ⟨startedAt, expiresAt, updatedAt, rfl⟩ := hs
    simp only [StartSession.step] at h
    split at h
    · obtain ⟨rfl, rfl⟩ := Prod.mk.inj (Option.some.inj h)
      trivial
    · rename_i hm
      split_ifs at h
      split at h
      · obtain ⟨rfl, rfl⟩ := Prod.mk.inj (Option.some.inj h)
        trivial
      · rename_i hcreate
        obtain ⟨rfl, rfl⟩ := Prod.mk.inj (Option.some.inj h)
        have hactive : (findActive n.world.sessions).isSome = true := by
          unfold create at hcreate
          split at hcreate
          · rename_i hfound
            rw [hfound]
            rfl
          · cases hcreate
        exact Or.inl ⟨_, List.mem_append_right _ List.mem_cons_self, _, _, _, rfl, by simp [hm], hactive⟩
  · cases StartSession.step_cases h with
    | conflict => exact Earned.append hseen _
    | orphan | created | taken => exact absurd ⟨_, _, _, rfl⟩ hs
    | find | unknown | found | expire | expired | create | push => trivial

theorem seen_edit {ts : List (Pool.Turn (NamedWorld Hash) (ServiceCall Hash))}
    {n : NamedWorld Hash} {w : World Hash} {input : Input} {pc pc' : EditSession}
    (hseen : Seen ts (.call (.edit pc))) (h : pc.step n.world input = some (w, pc')) :
    Seen (ts ++ [⟨n, .call (.edit pc), { n with world := w }⟩]) (.call (.edit pc')) := by
  cases EditSession.step_cases h with
  | @find id change =>
    rcases hfound : findUnique n.world.sessions id with _ | session
    · trivial
    · exact ⟨_, List.mem_append_right _ List.mem_cons_self, id, rfl, hfound⟩
  | @inactive change session hs =>
    obtain ⟨t, ht, id, hcall, hfound⟩ := hseen
    exact Or.inr ⟨t, List.mem_append_left _ ht, _, List.mem_append_right _ List.mem_cons_self, id,
      change, session, hcall, hfound, rfl, fun hrun => hs hrun.1⟩
  | @expired change session hs =>
    obtain ⟨t, ht, id, hcall, hfound⟩ := hseen
    exact Or.inr ⟨t, List.mem_append_left _ ht, _, List.mem_append_right _ List.mem_cons_self, id,
      change, session, hcall, hfound, rfl, fun hrun => not_le.2 hrun.2 hs⟩
  | unknown | allowed | stamp | update | missing | push | failed => trivial

theorem seen_step [Argon2 Hash] {ts : List (Pool.Turn (NamedWorld Hash) (ServiceCall Hash))}
    {n n' : NamedWorld Hash} {input : Input} {c c' : ServiceCall Hash} (hseen : Seen ts c)
    (h : Service.step n c input = some (n', c')) : Seen (ts ++ [⟨n, c, n'⟩]) c' := by
  cases Service.step_cases h with
  | get | rename => trivial
  | call hs =>
    cases hs with
    | start hs => exact seen_start hseen hs
    | edit hs => exact seen_edit hseen hs
    | authenticate | message | enroll | issueEnrollmentToken | revokeCredential
    | requestDecommission => trivial

/-- What holds of an operation after each of its turns. -/
structure Traced (ts : List (Pool.Turn (NamedWorld Hash) (ServiceCall Hash))) (c : ServiceCall Hash) :
    Prop where
  failing_iff : c.failing = true ↔ ∃ t ∈ ts, Stranded t
  fresh : c.fresh = true → ∀ t ∈ ts, Untouched t.before t.after
  seen : Seen ts c

theorem Traced.of_asked {c : ServiceCall Hash} (h : c.Asked) : Traced [] c where
  failing_iff := by simp [h.failing]
  fresh := by simp
  seen := by cases h <;> trivial

theorem Traced.step [Argon2 Hash] {ts : List (Pool.Turn (NamedWorld Hash) (ServiceCall Hash))}
    {n n' : NamedWorld Hash} {input : Input} {c c' : ServiceCall Hash} (ht : Traced ts c)
    (h : Service.step n c input = some (n', c')) : Traced (ts ++ [⟨n, c, n'⟩]) c' where
  failing_iff := by
    rw [(turn_spec h).failing_iff, ht.failing_iff]
    simp only [List.mem_append, List.mem_singleton, or_and_right, exists_or, exists_eq_left]
  fresh hf := by
    obtain ⟨hfresh, huntouched⟩ := (turn_spec h).fresh hf
    intro t hmem
    rcases List.mem_append.1 hmem with hmem | hmem
    · exact ht.fresh hfresh t hmem
    · obtain rfl := List.mem_singleton.1 hmem
      exact huntouched
  seen := seen_step ht.seen h

theorem failing_iff_of_answer {c : ServiceCall Hash} {answer : Answer} (h : c.answer = some answer) :
    c.failing = true ↔ answer = .rejected := by
  unfold ServiceCall.answer at h
  split at h <;> cases h <;> simp [ServiceCall.failing]

theorem fresh_of_notFound {c : ServiceCall Hash} (h : c.answer = some .notFound) : c.fresh = true := by
  unfold ServiceCall.answer at h
  split at h <;> cases h <;> rfl

theorem Seen.earned {ts : List (Pool.Turn (NamedWorld Hash) (ServiceCall Hash))} {c : ServiceCall Hash}
    (hseen : Seen ts c) (h : c.answer = some .conflict) : Earned ts := by
  unfold ServiceCall.answer at h
  split at h <;> cases h <;> exact hseen

/-- The ways to end, by what the turns were. -/
theorem Traced.clean_iff {ts : List (Pool.Turn (NamedWorld Hash) (ServiceCall Hash))}
    {c : ServiceCall Hash} (ht : Traced ts c) {answer : Answer} (ha : c.answer = some answer) :
    Clean answer ts ↔ ∀ t ∈ ts, ¬ Stranded t := by
  have hstranded : (∀ t ∈ ts, ¬ Stranded t) ↔ answer ≠ .rejected := by
    rw [ne_eq, ← failing_iff_of_answer ha, ht.failing_iff]
    push Not
    rfl
  rw [hstranded]
  cases answer with
  | done => simp [Clean]
  | notFound => simpa [Clean] using ht.fresh (fresh_of_notFound ha)
  | conflict => simpa [Clean] using ht.seen.earned ha
  | rejected => simp [Clean]

/-- Whatever else goes on, and whatever the rows and the registry are: an operation that has ended
has ended cleanly exactly when none of its writes by id found its row gone. -/
theorem missingRow_clean_iff [Argon2 Hash] {p q : Pool (NamedWorld Hash) (ServiceCall Hash)}
    {es : List (Pool.Label ServiceEvent Input)} (hrun : run Service.next p es = some q) {i : ℕ}
    {asked c : ServiceCall Hash} (hi : p.calls[i]? = some asked) (hasked : asked.Asked)
    (hc : q.calls[i]? = some c) {answer : Answer} (ha : c.answer = some answer) :
    Clean answer (Pool.turns Service.event Service.step i p es) ↔
      ∀ t ∈ Pool.turns Service.event Service.step i p es, ¬ Stranded t := by
  obtain ⟨c', hc', htakes⟩ := Pool.takes_turns hrun hi
  obtain rfl := Option.some.inj (hc.symm.trans hc')
  have htraced : Traced (Pool.turns Service.event Service.step i p es) c :=
    htakes.invariant (fun _ _ _ _ _ _ ht hs => ht.step hs) (Traced.of_asked hasked)
  exact htraced.clean_iff ha

/-- A turn, at the clock's last reading. -/
def goOn (i : ℕ) : Pool.Label ServiceEvent Input := .call i ⟨0, 0, "", "", 0⟩

/-- A machine that was never enrolled, and an operator who removes it. -/
def removal : List (Pool.Label ServiceEvent Input) :=
  [.env (.server (.request .requestDecommission 0)), goOn 0, goOn 0, goOn 0, goOn 0]

/-- Removing it again is a clean 404. -/
theorem missingRow_clean_iff_removal : ∃ p q : Pool (NamedWorld PlainHash) (ServiceCall PlainHash),
    run Service.next ⟨⟨World.created 0, "lab"⟩, []⟩
      (removal ++ [.env (.server (.request .requestDecommission 0))]) = some p ∧
    run Service.next p [goOn 1, goOn 1] = some q ∧
    q.calls[1]? = some (.call (.requestDecommission .notFound)) ∧
    Clean .notFound (Pool.turns Service.event Service.step 1 p [goOn 1, goOn 1]) := by
  refine ⟨_, _, rfl, rfl, rfl, ?_⟩
  refine (missingRow_clean_iff rfl rfl .requestDecommission rfl rfl).2 fun t ht => ?_
  rcases List.mem_cons.1 ht with rfl | ht
  · exact id
  · obtain rfl := List.mem_singleton.1 ht
    exact id

/-- Revoking its credential is a 500. -/
theorem revokeRemoved_not_clean : ∃ p q : Pool (NamedWorld PlainHash) (ServiceCall PlainHash),
    run Service.next ⟨⟨World.created 0, "lab"⟩, []⟩
      (removal ++ [.env (.server (.request .revokeCredential 0))]) = some p ∧
    run Service.next p [goOn 1, goOn 1] = some q ∧
    q.calls[1]? = some (.call (.revokeCredential .failed)) ∧
    ∀ answer,
      ServiceCall.answer (.call (.revokeCredential .failed) : ServiceCall PlainHash) = some answer →
      ¬ Clean answer (Pool.turns Service.event Service.step 1 p [goOn 1, goOn 1]) := by
  refine ⟨_, _, rfl, rfl, rfl, fun answer ha => ?_⟩
  obtain rfl := Option.some.inj ha
  exact id

end Taymna.Api
