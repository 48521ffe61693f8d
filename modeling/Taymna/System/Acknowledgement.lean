import Taymna.Api.Pending
import Taymna.System.Fleet

/-!
# No acknowledgement is lost

An agent that has accepted the decommission acknowledges it once on every socket. Whether the server
hears that depends on its listener, which it attaches only after it has verified the credential. A
frame that comes earlier is dropped, nothing sends it again on that socket, and the run loop ignores
the repeated instruction. As long as the one acknowledgement finds the listener, it is not lost.
-/

namespace Taymna

open Automata Agent Api

namespace Fleet

variable {Hash : Type*}

/-- Somebody knows of the removal, or is about to say so, or to act on it. -/
inductive Known (s : Fleet Hash) : Prop
  | computer (i : ℕ) : (s.computers i).Knows → Known s
  | sent (k : ℕ) (serverTime : ℤ) :
      .message (.decommission serverTime) ∈ (s.server.world.sockets k).sent → Known s
  | acked (k : ℕ) : .decommissionAck ∈ s.toServer k → Known s
  | saw (c : Call Hash) : c ∈ s.server.calls → c.sawPending = true → Known s
  | acknowledges (c : Call Hash) (k : ℕ) : c ∈ s.server.calls → c.acknowledges k = true → Known s

/-- The step deletes no pending row by force. -/
def Unforced (s : Fleet Hash) : Label → Prop
  | .call j _ => Server.Unforced s.server j
  | _ => True

/-- An acknowledgement that reaches the server on socket `k` finds its listener attached. -/
def Heard (k : ℕ) (s : Fleet Hash) : Label → Prop
  | .deliver k' _ => k' = k → (s.toServer k).head? = some .decommissionAck →
      (s.server.world.sockets k).listening = true
  | _ => True

/-- The server finds socket `k` gone only when no acknowledgement is on its way there. -/
def Kept (k : ℕ) (s : Fleet Hash) : Label → Prop
  | .disconnect k' => k' = k → .decommissionAck ∉ s.toServer k
  | _ => True

instance [DecidableEq Hash] (s : Fleet Hash) (label : Label) : Decidable (Unforced s label) := by
  cases label <;> unfold Unforced <;> infer_instance

instance (k : ℕ) (s : Fleet Hash) (label : Label) : Decidable (Heard k s label) := by
  cases label <;> unfold Heard <;> infer_instance

instance (k : ℕ) (s : Fleet Hash) (label : Label) : Decidable (Kept k s label) := by
  cases label <;> unfold Kept <;> infer_instance

/-! ## What is known is so -/

theorem Known.mono {s t : Fleet Hash} (hk : t.Known) (hserver : t.server = s.server)
    (hwire : t.toServer = s.toServer) (hcomputers : ∀ i, (t.computers i).Knows → (s.computers i).Knows) :
    s.Known := by
  cases hk with
  | computer i hi => exact .computer i (hcomputers i hi)
  | sent k serverTime hk => exact .sent k serverTime (hserver ▸ hk)
  | acked k hk => exact .acked k (hwire ▸ hk)
  | saw c hc hsaw => exact .saw c (hserver ▸ hc) hsaw
  | acknowledges c k hc ha => exact .acknowledges c k (hserver ▸ hc) ha

/-- A computer learns of a removal from a frame on a socket, and acknowledges what it knows. -/
theorem Known.of_moved {s : Fleet Hash} (hs : s.Sound) {i : ℕ} {c : Computer} {outs : List Output}
    {l : Computer.Label ServerToAgentMessage}
    (htext : ∀ m atMs, l = .link (.text m atMs) → ∃ k, .message m ∈ (s.server.world.sockets k).sent)
    (h : Computer.step parse (s.computers i) l = some (c, outs)) (hk : (s.moved i c outs).Known) :
    s.Known := by
  cases hk with
  | computer j hj =>
    rcases eq_or_ne j i with rfl | hne
    · replace hj : c.Knows := by simpa [moved] using hj
      rcases ((hs j).knows_of_step h hj).2 with hj | ⟨m, atMs, rfl, hm⟩
      · exact .computer j hj
      · obtain ⟨k, hk⟩ := htext m atMs rfl
        cases m with
        | decommission serverTime => exact .sent k serverTime hk
        | sessionState | heartbeatAck | error => simp [parse, ServerToAgentMessage.read] at hm
    · exact .computer j (by simpa [moved, Function.update_of_ne hne] using hj)
  | sent k serverTime hk => exact .sent k serverTime hk
  | acked k hk =>
    rcases mem_put_iff.1 hk with hk | ⟨hk, -⟩
    · exact .acked k hk
    · exact .computer i (Or.inl (Or.inl ((hs i).durable_of_send_ack h (mem_frames.1 hk))))
  | saw c hc hsaw => exact .saw c hc hsaw
  | acknowledges c k hc hack => exact .acknowledges c k hc hack

/-- An event of the server tells nobody anything, unless it delivers an acknowledgement. -/
theorem Known.of_event {s t : Fleet Hash} {e : Event} {w : World Hash} {cs : List (Call Hash)}
    (hk : t.Known) (he : Server.EventStep s.server.world e w cs)
    (hserver : t.server = ⟨w, s.server.calls ++ cs⟩) (hcomputers : t.computers = s.computers)
    (hwire : ∀ k, .decommissionAck ∈ t.toServer k → .decommissionAck ∈ s.toServer k)
    (hack : ∀ k wait, e = .receive k .decommissionAck wait → s.Known) : s.Known := by
  cases hk with
  | computer i hi => exact .computer i (hcomputers ▸ hi)
  | sent k serverTime hk =>
    rw [hserver] at hk
    rcases (evolves_of_event (P := fun _ => False) he k).sent _ hk with hk | hk
    · exact .sent k serverTime hk
    · exact hk.elim
  | acked k hk => exact .acked k (hwire k hk)
  | saw c hc hsaw =>
    rw [hserver] at hc
    rcases List.mem_append.1 hc with hc | hc
    · exact .saw c hc hsaw
    · exact absurd hsaw (by simp [(Server.made_of_event he c hc).sawPending])
  | acknowledges c k hc ha =>
    rw [hserver] at hc
    rcases List.mem_append.1 hc with hc | hc
    · exact .acknowledges c k hc ha
    · obtain ⟨wait, rfl⟩ := Server.acknowledges_of_event he hc ha
      exact hack k wait rfl

/-- A call tells of a removal that it has seen requested. -/
theorem Known.of_call [Argon2 Hash] {s : Fleet Hash} {j : ℕ} {input : Input} {c c' : Call Hash}
    {w : World Hash} (hc : s.server.calls[j]? = some c) (h : Server.Step s.server.world input c w c')
    (hk : Known { s with server := ⟨w, s.server.calls.set j c'⟩ }) : s.Known ∨ w.Pending := by
  have hmem := List.mem_of_getElem? hc
  cases hk with
  | computer i hi => exact Or.inl (.computer i hi)
  | sent k serverTime hk =>
    rcases (evolves_of_step h k).sent _ hk with hk | hk
    · exact Or.inl (.sent k serverTime hk)
    · exact Or.inl (.saw c hmem (hk serverTime rfl))
  | acked k hk => exact Or.inl (.acked k hk)
  | saw d hd hsaw =>
    rcases Pool.mem_set_cases hd with rfl | hd
    · exact Or.inr (Server.sawPending_of_step h hsaw)
    · exact Or.inl (.saw d hd hsaw)
  | acknowledges d k hd ha =>
    rcases Pool.mem_set_cases hd with rfl | hd
    · exact Or.inl (.acknowledges c k hmem ((Server.acknowledges_of_step h k).symm.trans ha))
    · exact Or.inl (.acknowledges d k hd ha)

/-- A step tells nobody of a removal that has not been requested. -/
theorem Known.of_step [Argon2 Hash] {s t : Fleet Hash} {label : Label} (hs : s.Sound)
    (h : Step s label t) (hk : t.Known) : s.Known ∨ t.server.world.Pending := by
  cases h with
  | computer _ _ _ htext hstep =>
    exact Or.inl (Known.of_moved hs htext hstep (hk.mono rfl rfl fun _ => id))
  | @connect i k _ _ _ _ w cs _ _ _ he hstep =>
    have hmid : Known { s with server := ⟨w, s.server.calls ++ cs⟩ } :=
      Known.of_moved hs (fun m atMs hl => by cases hl) hstep hk
    exact Or.inl (hmid.of_event he rfl rfl (fun _ => id) (by simp))
  | @deliver k _ frame rest _ _ hwire he =>
    refine Or.inl (hk.of_event he rfl rfl (fun k' hk' => ?_) fun k' wait hl => ?_)
    · rcases eq_or_ne k' k with rfl | hne
      · rw [hwire]
        exact List.mem_cons_of_mem _ (by simpa using hk')
      · simpa [Function.update_of_ne hne] using hk'
    · refine .acked k ?_
      cases frame with
      | heartbeat => simp [AgentToServerMessage.ofAgent] at hl
      | decommissionAck => simp [hwire]
  | @disconnect k _ _ he =>
    refine Or.inl (hk.of_event he rfl rfl (fun k' hk' => ?_) (by simp))
    rcases eq_or_ne k' k with rfl | hne
    · simp at hk'
    · simpa [Function.update_of_ne hne] using hk'
  | event hapart he =>
    refine Or.inl (hk.of_event he rfl rfl (fun _ => id) fun k wait hl => ?_)
    subst hl
    cases hapart
  | call hc hstep => exact hk.of_call hc hstep
  | enroll he => exact Or.inl (hk.of_event he rfl rfl (fun _ => id) (by simp))
  | @enrolled j i =>
    refine Or.inl (hk.mono rfl rfl fun i' hi' => ?_)
    rcases eq_or_ne i' i with rfl | hne
    · exfalso
      simp [Computer.Knows, Computer.Flagged, Host.Durable, Computer.off, Link.new, Host.enrolled,
        Host.enrolledState, StateFile.decommissioned] at hi'
    · simpa [Function.update_of_ne hne] using hi'

theorem pended_step [Argon2 Hash] {s t : Fleet Hash} {label : Label} (hp : Server.Pended s.server)
    (hu : Unforced s label) (h : Step s label t) : Server.Pended t.server := by
  cases h with
  | computer => exact hp
  | connect _ _ _ he => exact hp.event he
  | deliver _ he => exact hp.event he
  | disconnect he => exact hp.event he
  | event _ he => exact hp.event he
  | call hc hstep => exact hp.call hc hu hstep
  | enroll he => exact hp.event he
  | enrolled => exact hp

/-- Whatever is known is so, and what an acknowledgement has been processed for is done. -/
structure Informed (s : Fleet Hash) : Prop where
  sound : s.Sound
  pended : s.Known → Server.Pended s.server
  acknowledged : ∀ c ∈ s.server.calls, c.acknowledged = true → s.server.world.machine = none

theorem acknowledged_append {s : Fleet Hash} (hi : s.Informed) {e : Event} {w : World Hash}
    {cs : List (Call Hash)} (he : Server.EventStep s.server.world e w cs) :
    ∀ c ∈ s.server.calls ++ cs, c.acknowledged = true → w.machine = none := by
  intro c hc ha
  rw [event_machine he]
  rcases List.mem_append.1 hc with hc | hc
  · exact hi.acknowledged c hc ha
  · exact absurd ha (by simp [Server.acknowledged_of_event he c hc])

theorem Informed.step [Argon2 Hash] {s t : Fleet Hash} {label : Label} (hi : s.Informed)
    (hu : Unforced s label) (h : Step s label t) : t.Informed where
  sound := hi.sound.step h
  pended hk := by
    rcases Known.of_step hi.sound h hk with hk | hpend
    · exact pended_step (hi.pended hk) hu h
    · exact Or.inl hpend
  acknowledged := by
    cases h with
    | computer | enrolled => exact hi.acknowledged
    | connect _ _ _ he | deliver _ he | disconnect he | event _ he | enroll he =>
      exact acknowledged_append hi he
    | call hc hstep =>
      exact Server.machine_eq_none_of_acknowledged
        (fun c hc k ha => hi.pended (.acknowledges c k hc ha)) hi.acknowledged hc hstep

theorem informed_init {clock : ℤ} {disks : ℕ → Disk} (hd : ∀ i, Blank (disks i)) :
    (init clock disks : Fleet Hash).Informed where
  sound := sound_init clock disks
  pended hk := by
    cases hk with
    | computer i hi =>
      have hflag : (disks i).stateJson.decommissioned = false := by
        rcases hf : (disks i).stateJson with _ | _ | state
        · rfl
        · rfl
        · exact (hd i state hf).2
      simp [init, Computer.Knows, Computer.Flagged, Host.Durable, Computer.off, Link.new, hflag] at hi
    | sent k serverTime hk => simp [init, World.created, Socket.unused] at hk
    | acked k hk => simp [init] at hk
    | saw c hc | acknowledges c k hc => simp [init] at hc
  acknowledged := by simp [init]

/-! ## What is acknowledged reaches the server -/

/-- An acknowledgement is on its way on socket `k`, or has been received there. -/
def Sent (k : ℕ) (s : Fleet Hash) : Prop :=
  .decommissionAck ∈ s.toServer k ∨ ∃ c ∈ s.server.calls, c.acknowledges k = true

theorem Sent.append {k : ℕ} {s : Fleet Hash} (hs : s.Sent k) (w : World Hash) (cs : List (Call Hash)) :
    Sent k { s with server := ⟨w, s.server.calls ++ cs⟩ } :=
  hs.imp_right fun ⟨c, hc, hk⟩ => ⟨c, List.mem_append_left _ hc, hk⟩

theorem Sent.moved {k : ℕ} {s : Fleet Hash} (hs : s.Sent k) (i : ℕ) (c : Computer)
    (outs : List Output) : (s.moved i c outs).Sent k :=
  hs.imp_left fun hk => mem_put_iff.2 (Or.inl hk)

/-- An acknowledgement that finds its listener is lost only with its socket. -/
theorem Sent.step [Argon2 Hash] {k : ℕ} {s t : Fleet Hash} {label : Label} (hs : s.Sent k)
    (hh : Heard k s label) (h : Step s label t) :
    t.Sent k ∨ label = .disconnect k ∧ .decommissionAck ∈ s.toServer k := by
  cases h with
  | computer => exact Or.inl (hs.imp_left fun hk => mem_put_iff.2 (Or.inl hk))
  | connect => exact Or.inl ((hs.append _ _).moved _ _ _)
  | event => exact Or.inl (hs.append _ _)
  | enroll => exact Or.inl (hs.append _ _)
  | enrolled => exact Or.inl hs
  | @deliver k' wait frame rest _ _ hwire he =>
    refine Or.inl ?_
    rcases eq_or_ne k k' with rfl | hne
    · rcases hs.append _ _ with hk | hk
      · rw [show s.toServer k = _ from hwire] at hk
        rcases List.mem_cons.1 hk with rfl | hk
        · cases he with
          | receive =>
            refine Or.inr ⟨.message k .finalize, List.mem_append_right _ ?_, ?_⟩
            · exact List.mem_singleton_self _
            · simp [Call.acknowledges, HandleMessage.acknowledges]
          | drop _ hdeaf => exact absurd (hh rfl (by simp [hwire])) (by simp [hdeaf])
        · exact Or.inl (by simpa using hk)
      · exact Or.inr hk
    · exact (hs.append _ _).imp_left fun hk => by simpa [Function.update_of_ne hne] using hk
  | @disconnect k' =>
    rcases eq_or_ne k k' with rfl | hne
    · exact (hs.append _ _).symm.imp Or.inr fun hk => ⟨rfl, hk⟩
    · exact Or.inl ((hs.append _ _).imp_left fun hk => by simpa [Function.update_of_ne hne] using hk)
  | call hc hstep =>
    refine Or.inl (hs.imp_right fun hk => Pool.exists_mem_set hc (fun hk => ?_) hk)
    rwa [Server.acknowledges_of_step hstep]

/-- The agent on socket `k` has sent its acknowledgement there, unless the socket is gone. -/
def Acked (k : ℕ) (s : Fleet Hash) : Prop :=
  ∀ i greeted, (s.computers i).link.connection = .up k greeted →
    (s.computers i).link.ackDecommission = true →
    s.Sent k ∨ (s.server.world.sockets k).readyState = .closed

theorem Acked.of_moved {k : ℕ} {s : Fleet Hash} (ha : s.Acked k) {i : ℕ} {c : Computer}
    {outs : List Output} {l : Computer.Label ServerToAgentMessage}
    (h : Computer.step parse (s.computers i) l = some (c, outs)) : (s.moved i c outs).Acked k := by
  intro j greeted hup hack
  rcases eq_or_ne j i with rfl | hne
  · replace hup : c.link.connection = .up k greeted := by simpa [Fleet.moved] using hup
    replace hack : c.link.ackDecommission = true := by simpa [Fleet.moved] using hack
    rcases Computer.ack_of_step h hup hack with hsent | ⟨hold, greeted', hup'⟩
    · exact Or.inl (Or.inl (mem_put_iff.2 (Or.inr ⟨mem_frames.2 hsent, greeted, hup⟩)))
    · exact (ha j greeted' hup' hold).imp_left fun hk => hk.moved j c outs
  · replace hup : (s.computers j).link.connection = .up k greeted := by
      simpa [Fleet.moved, Function.update_of_ne hne] using hup
    replace hack : (s.computers j).link.ackDecommission = true := by
      simpa [Fleet.moved, Function.update_of_ne hne] using hack
    exact (ha j greeted hup hack).imp_left fun hk => hk.moved i c outs

theorem Acked.step [Argon2 Hash] {k : ℕ} {s t : Fleet Hash} {label : Label} (ha : s.Acked k)
    (hh : Heard k s label) (h : Step s label t) : t.Acked k := by
  -- When no computer moves, only the server can lose the acknowledgement, and with it the socket.
  have still : t.computers = s.computers → t.Acked k := by
    intro hc i greeted hup hack
    rw [hc] at hup hack
    rcases ha i greeted hup hack with hs | hk
    · rcases hs.step hh h with hs | ⟨rfl, -⟩
      · exact Or.inl hs
      · cases h with
        | computer hmover => cases hmover
        | disconnect he =>
          cases he with
          | disconnect => exact Or.inr (Server.disconnect_readyState _ _)
    · exact Or.inr ((evolves_step h k).closed hk)
  cases h with
  | computer _ _ _ _ hstep => exact ha.of_moved hstep
  | connect _ _ _ he hstep =>
    refine Acked.of_moved (fun i greeted hup hack => ?_) hstep
    exact (ha i greeted hup hack).imp (fun hs => hs.append _ _)
      (evolves_of_event (P := fun _ => True) he k).closed
  | deliver | disconnect | event | call | enroll => exact still rfl
  | @enrolled j i =>
    intro i' greeted hup hack
    rcases eq_or_ne i' i with rfl | hne
    · simp [Computer.off, Link.new] at hup
    · exact ha i' greeted (by simpa [Function.update_of_ne hne] using hup)
        (by simpa [Function.update_of_ne hne] using hack)

/-- Computer `i` is connected on socket `k` with the decommission on disk, and has processed
everything that it has received. -/
structure Accepted (i k : ℕ) (s : Fleet Hash) : Prop where
  up : ∃ greeted, (s.computers i).link.connection = .up k greeted
  opened : (s.server.world.sockets k).readyState = .opened
  durable : (s.computers i).host.Durable
  loop : ∀ r, (s.computers i).host.process = .running r → r.pc = .select
  events : (s.computers i).link.events = []
  commands : (s.computers i).link.commands = []

/-- Such an agent has nothing left to say. -/
theorem Accepted.ackDecommission {i k : ℕ} {s : Fleet Hash} (ha : s.Accepted i k) (hs : s.Sound) :
    (s.computers i).link.ackDecommission = true := by
  obtain ⟨r, hr⟩ : ∃ r, (s.computers i).host.process = .running r := by
    by_contra hidle
    obtain ⟨greeted, hup⟩ := ha.up
    simp [(hs i).idle fun r hr => hidle ⟨r, hr⟩, Link.new] at hup
  have haccepted : r.decommissioned = true := by
    have hdisk := ((hs i).host r hr).durable.symm.trans ha.durable
    simpa [ha.loop r hr, Pc.accepted] using hdisk
  simpa [haccepted, ha.commands] using ((hs i).link r hr).symm

/-- Nothing is in flight on socket `k`, and no handler is running. -/
structure Quiescent (k : ℕ) (s : Fleet Hash) : Prop where
  calls : ∀ c ∈ s.server.calls, c.returned = true
  wire : s.toServer k = []

/-- The step neither drops an acknowledgement on socket `k`, nor deletes a pending row by force. -/
def Good (k : ℕ) (s : Fleet Hash) (label : Label) : Prop := Heard k s label ∧ Unforced s label

instance [DecidableEq Hash] (k : ℕ) (s : Fleet Hash) (label : Label) : Decidable (Good k s label) :=
  inferInstanceAs (Decidable (_ ∧ _))

/-- When an agent is connected with the decommission on disk, and the connection holds until nothing
is in flight and no handler is running, then the server has processed an acknowledgement of it, and
an acknowledgement has deleted the row: in every run that deletes no pending row by force, and in
which the acknowledgement finds the listener of that agent's socket. -/
theorem acknowledgement_processed [Argon2 Hash] {clock : ℤ} {disks : ℕ → Disk}
    (hd : ∀ i, Blank (disks i)) {i k : ℕ} {es fs : List Label} {s t : Fleet Hash}
    (h : run step (init clock disks) es = some s)
    (hgood : Along step (Good k) (init clock disks : Fleet Hash) es)
    (ha : s.Accepted i k) (h' : run step s fs = some t) (hgood' : Along step (Good k) s fs)
    (hkept : Along step (Kept k) s fs) (hq : t.Quiescent k) :
    t.server.world.machine = none ∧ (∃ count, .message k (.finalized count) ∈ t.server.calls) ∧
      ∃ k', .message k' (.finalized 1) ∈ t.server.calls := by
  obtain ⟨hi, hacked⟩ : s.Informed ∧ s.Acked k := by
    refine run_invariant_along (I := fun s : Fleet Hash => s.Informed ∧ s.Acked k)
      (fun s label t hs hg ht => ?_) ⟨informed_init hd, ?_⟩ hgood h
    · exact ⟨hs.1.step hg.2 (step_cases ht), hs.2.step hg.1 (step_cases ht)⟩
    · exact fun i greeted hup => by simp [init, Computer.off, Link.new] at hup
  have hsent : s.Sent k := by
    obtain ⟨greeted, hup⟩ := ha.up
    exact (hacked i greeted hup (ha.ackDecommission hi.sound)).resolve_right (by simp [ha.opened])
  obtain ⟨hi, hsent⟩ : t.Informed ∧ t.Sent k := by
    refine run_invariant_along (I := fun s : Fleet Hash => s.Informed ∧ s.Sent k)
      (fun s label t hs hg ht => ?_) ⟨hi, hsent⟩ (hgood'.and hkept) h'
    refine ⟨hs.1.step hg.1.2 (step_cases ht), (hs.2.step hg.1.1 (step_cases ht)).resolve_right ?_⟩
    rintro ⟨rfl, hlost⟩
    exact hg.2 rfl hlost
  obtain ⟨c, hc, hck⟩ := hsent.resolve_left (by simp [hq.wire])
  obtain ⟨count, rfl⟩ := Call.eq_finalized_of_returned (hq.calls c hc) hck
  have hnone := hi.acknowledged _ hc rfl
  refine ⟨hnone, ⟨count, hc⟩, ?_⟩
  rcases hi.pended (.acknowledges _ k hc hck) with ⟨m, hm, -⟩ | ⟨-, d, hd, hremoved⟩
  · exact absurd hm (by simp [hnone])
  · obtain ⟨k', rfl⟩ := Call.eq_finalized_of_removedRow (hq.calls d hd) hremoved
    exact ⟨k', hd⟩

/-! ## Two removals -/

section

/-- The next `n` steps of call `j`, which draws `secret` if it draws one, and stores it under that
id. -/
def steps (j n : ℕ) (secret : String) : List Label := List.replicate n (.call j ⟨0, 0, secret, secret, 0⟩)

/-- A machine that has just been created, and computers on which nothing is installed. -/
def start : Fleet PlainHash := init 0 fun _ => ⟨.absent, .absent⟩

/-- Computer `0` enrols, its removal is requested, and it hears of it and saves it. -/
def removal : List Label :=
  [.event (.request .issueEnrollmentToken 0)] ++ steps 0 5 "token" ++
    [.enroll 0 "token" "token" 0] ++ steps 1 7 "secret" ++
    [.enrolled 1 "https://taymna.example.com" 0, .event (.request .requestDecommission 0)] ++
    steps 2 8 "" ++ [.computer 0 (.host (.start 0 0)), .connect 0 0] ++ steps 3 8 "" ++
    [.read 0 0, .deliver 0 0] ++ steps 4 2 "" ++
    [.computer 0 (.host (.event (some .decommission) 1)), .computer 0 (.host .proceed),
      .computer 0 (.host .proceed), .computer 0 (.host .proceed)]

/-- It goes on to acknowledge. -/
def acknowledged : List Label :=
  removal ++ [.computer 0 (.host .proceed), .computer 0 (.link .command), .read 0 0,
    .computer 0 (.host (.event (some (.serverTime 0)) 1))]

def accepted : Fleet PlainHash := (run step start acknowledged).getD start

/-- The server hears it, and deletes the machine. -/
def finalized : Fleet PlainHash := (run step accepted (.deliver 0 0 :: steps 5 2 "")).getD accepted

theorem acknowledgement_processed_removal :
    finalized.server.world.machine = none ∧
      (∃ count, .message 0 (.finalized count) ∈ finalized.server.calls) ∧
      ∃ k, .message k (.finalized 1) ∈ finalized.server.calls := by
  have hrun : run step (init 0 fun _ => ⟨.absent, .absent⟩) acknowledged = some accepted := rfl
  have hgood : Along step (Good 0) start acknowledged := by decide
  have haccepted : accepted.Accepted 0 0 := by
    refine ⟨⟨true, rfl⟩, rfl, rfl, fun r hr => ?_, rfl, rfl⟩
    obtain rfl := Process.running.inj hr
    rfl
  have hrun' : run step accepted (.deliver 0 0 :: steps 5 2 "") = some finalized := rfl
  exact acknowledgement_processed (fun _ _ hd => by cases hd) hrun hgood haccepted hrun' (by decide)
    (by decide) ⟨by decide, rfl⟩

/-- It dies before it acknowledges, and starts again; what it then sends first comes too early. -/
def lost : List Label :=
  removal ++ [.computer 0 (.host (.crash false)), .disconnect 0, .computer 0 (.host (.start 0 2)),
    .connect 0 1, .deliver 1 0] ++ steps 5 8 "" ++ [.read 0 0, .deliver 1 0] ++ steps 6 2 "" ++
    [.read 0 0, .computer 0 (.host (.event (some .decommission) 3)),
      .computer 0 (.host (.event (some (.serverTime 0)) 3))]

def stuck : Fleet PlainHash := (run step start lost).getD start

theorem acknowledgement_lost :
    run step start lost = some stuck ∧ stuck.Accepted 0 1 ∧ stuck.Quiescent 1 ∧
      (∃ serverTime, .message (.decommission serverTime) ∈ (stuck.server.world.sockets 1).sent) ∧
      stuck.taken 1 = (stuck.server.world.sockets 1).sent.length ∧ stuck.server.world.Pending := by
  refine ⟨rfl, ?_, ?_, ?_, ?_, ?_⟩
  · refine ⟨⟨true, rfl⟩, rfl, rfl, ?_, rfl, rfl⟩
    intro r hr
    obtain rfl := Process.running.inj hr
    rfl
  · exact ⟨by decide, rfl⟩
  · exact ⟨0, by decide⟩
  · rfl
  · exact ⟨_, rfl, rfl⟩

end

end Fleet

end Taymna
