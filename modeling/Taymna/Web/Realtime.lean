import Taymna.Api.Hub
import Taymna.Automata.Backoff
import Taymna.Web.Machines

/-!
# The dashboard's connection (`web/src/lib/use-realtime.ts`)

React runs the effect of `useRealtime` for a token, and cleans it up before it runs it for another one.
Each run has variables of its own, which the handlers of its sockets and its timer close over. `Page`
has all runs and all sockets there have ever been, and a run of `Page.step` is any order in which React,
the browser and the API make the callbacks happen.
-/

namespace Taymna.Web

open Automata
open Api (ReadyState ServerToOperatorMessage)

/-- `MIN_BACKOFF_MS` and `MAX_BACKOFF_MS`. -/
def backoffMs : Backoff := { least := 1000, most := 15000, least_le_most := by decide }

/-- `toWsUrl`: the scheme is replaced, and the path is added. -/
def toWsUrl (apiUrl : List Char) : List Char :=
  match apiUrl.dropPrefix? "https://".toList with
  | some rest => "wss://".toList ++ rest ++ "/ws".toList
  | none =>
    match apiUrl.dropPrefix? "http://".toList with
    | some rest => "ws://".toList ++ rest ++ "/ws".toList
    | none => "wss://".toList ++ apiUrl ++ "/ws".toList

/-- What `encodeURIComponent` leaves as it is. -/
def unescaped (c : Char) : Bool := c.isAlphanum || c ∈ "-_.!~*'()".toList

/-- `encodeURIComponent`. -/
def encodeURIComponent (text : List Char) : List Char := Percent.encode unescaped text

/-- The URL that `connect` opens. -/
def operatorUrl (apiUrl authToken : List Char) : List Char :=
  toWsUrl apiUrl ++ "?token=".toList ++ encodeURIComponent authToken

/-- A `WebSocket` of the page. -/
structure BrowserSocket where
  /-- The run of the effect that has opened it. -/
  effect : ℕ
  url : List Char
  readyState : ReadyState
deriving DecidableEq, Repr

/-- The variables of one run of the effect. -/
structure Effect where
  authToken : List Char
  socket : Option ℕ
  backoff : ℕ
  closedByEffect : Bool
  /-- How long the armed timer takes, in milliseconds. -/
  reconnectTimer : Option ℕ
  /-- What its handlers have done with `backoff`. -/
  seen : List Backoff.Op
deriving DecidableEq, Repr

/-- The page: every run of the effect, every socket and the cache. -/
structure Page where
  /-- The run whose cleanup is still to come. -/
  running : Option ℕ
  effects : List Effect
  sockets : List BrowserSocket
  current : Cache
deriving DecidableEq, Repr

namespace Page

/-- Nobody has signed in yet. -/
def loaded (current : Cache) : Page := { running := none, effects := [], sockets := [], current := current }

def onEffect (p : Page) (e : ℕ) (f : Effect → Effect) : Page := { p with effects := p.effects.modify e f }

/-- The page after a change of one socket. -/
def onSocket (p : Page) (k : ℕ) (f : BrowserSocket → BrowserSocket) : Page :=
  { p with sockets := p.sockets.modify k f }

variable (apiUrl : List Char)

/-- `connect` of the run `e` of the effect. -/
def connect (p : Page) (e : ℕ) (authToken : List Char) : Page :=
  let p := p.onEffect e fun v => { v with socket := some p.sockets.length }
  { p with sockets := p.sockets ++
      [{ effect := e, url := operatorUrl apiUrl authToken, readyState := .connecting }] }

/-- `socket?.close()`. -/
def closeSocket (p : Page) : Option ℕ → Page
  | some k => p.onSocket k fun s => if s.readyState = .closed then s else { s with readyState := .closing }
  | none => p

/-- What the effect returns for React to call. -/
def cleanup (p : Page) : Page :=
  match p.running with
  | some e =>
    let p := { p with running := none }
    let socket := (p.effects[e]?).bind Effect.socket
    let p := p.onEffect e fun v => { v with closedByEffect := true, reconnectTimer := none }
    p.closeSocket socket
  | none => p

/-- The effect, for a token. -/
def runEffect (p : Page) : Option (List Char) → Page
  | none | some [] => p
  | some authToken =>
    let e := p.effects.length
    let effect := { authToken := authToken, socket := none, backoff := backoffMs.least,
                    closedByEffect := false, reconnectTimer := none, seen := [] }
    { p with running := some e, effects := p.effects ++ [effect] }.connect apiUrl e authToken

/-- `onopen`: the backoff starts again. -/
def onopen (v : Effect) : Effect := { v with backoff := backoffMs.least, seen := v.seen ++ [.reset] }

/-- `onclose`: a timer is armed, unless the effect has closed the socket itself. -/
def onclose (v : Effect) : Effect :=
  if v.closedByEffect then v
  else { v with
    reconnectTimer := some v.backoff, backoff := backoffMs.next v.backoff, seen := v.seen ++ [.wait] }

/-- What React, the browser and the sockets call. -/
inductive Callback
  /-- React runs the effect again, for the token that is there now. -/
  | rerun (token : Option (List Char))
  /-- The page goes away. -/
  | unmount
  | opened (socket : ℕ)
  /-- A message that parses, or one that does not. -/
  | message (socket : ℕ) (data : Option (String × ServerToOperatorMessage))
  /-- The API's side begins to close. -/
  | closing (socket : ℕ)
  | closed (socket : ℕ)
  | timeout (effect : ℕ)
deriving DecidableEq, Repr

/-- The callbacks that can happen; a timer that has been cleared does not fire, and a socket that is not
open has no messages. -/
def step (p : Page) : Callback → Option Page
  | .rerun token => some (p.cleanup.runEffect apiUrl token)
  | .unmount => some p.cleanup
  | .opened k =>
    match p.sockets[k]? with
    | some ⟨e, _, .connecting⟩ =>
      some ((p.onSocket k fun s => { s with readyState := .opened }).onEffect e onopen)
    | _ => none
  | .message k data =>
    match p.sockets[k]? with
    | some ⟨_, _, .opened⟩ =>
      match data with
      | some (machineId, message) => some { p with current := onmessage machineId message p.current }
      | none => some p
    | _ => none
  | .closing k =>
    match p.sockets[k]? with
    | some ⟨_, _, .opened⟩ => some (p.onSocket k fun s => { s with readyState := .closing })
    | _ => none
  | .closed k =>
    match p.sockets[k]? with
    | some s =>
      if s.readyState = .closed then none
      else some ((p.onSocket k fun s => { s with readyState := .closed }).onEffect s.effect onclose)
    | none => none
  | .timeout e =>
    match p.effects[e]? with
    | some v =>
      match v.reconnectTimer with
      | some _ =>
        some ((p.onEffect e fun v => { v with reconnectTimer := none }).connect apiUrl e v.authToken)
      | none => none
    | none => none

/-! ## The invariant -/

/-- The next wait, and the one the timer is armed with, follow from what the handlers have seen. -/
structure Paced (v : Effect) : Prop where
  backoff : v.backoff = backoffMs.after v.seen
  timer : ∀ d, v.reconnectTimer = some d → ∃ seen, v.seen = seen ++ [.wait] ∧ d = backoffMs.after seen

/-- A run of the effect that has not been cleaned up has a socket that is not closed or an armed timer,
and never both; one that has been cleaned up has neither a timer nor a way to get one. -/
structure Owns (running : Option ℕ) (e : ℕ) (v : Effect) (s : BrowserSocket) : Prop where
  effect : s.effect = e
  url : s.url = operatorUrl apiUrl v.authToken
  live : running = some e → v.authToken ≠ [] ∧ v.closedByEffect = false ∧
    (v.reconnectTimer.isSome ↔ s.readyState = .closed)
  stopped : running ≠ some e → v.closedByEffect = true ∧ v.reconnectTimer = none ∧
    (s.readyState = .closing ∨ s.readyState = .closed)

structure Sound (p : Page) : Prop where
  running : ∀ e, p.running = some e → e < p.effects.length
  effects : ∀ (e : ℕ) (v : Effect), p.effects[e]? = some v → Paced v ∧
    ∃ k s, v.socket = some k ∧ p.sockets[k]? = some s ∧ Owns apiUrl p.running e v s
  /-- All but the last socket of a run are closed. -/
  sockets : ∀ (k : ℕ) (s : BrowserSocket), p.sockets[k]? = some s →
    ∃ v, p.effects[s.effect]? = some v ∧ (v.socket = some k ∨ s.readyState = .closed)

variable {apiUrl} {p p' : Page}

theorem sound_loaded (current : Cache) : Sound apiUrl (loaded current) where
  running := fun _ h => by cases h
  effects := fun _ _ h => by simp [loaded] at h
  sockets := fun _ _ h => by simp [loaded] at h

theorem getElem?_modify_eq_some {α : Type*} {l : List α} {i j : ℕ} {f : α → α} {b : α} :
    (l.modify i f)[j]? = some b ↔ ∃ a, l[j]? = some a ∧ b = if i = j then f a else a := by
  rw [List.getElem?_modify, Option.map_eq_map, Option.map_eq_some_iff]
  exact exists_congr fun a => and_congr_right fun _ => eq_comm

/-- The last socket of a run changes, and with it the variables of the run. -/
theorem Sound.change (hp : Sound apiUrl p) {e k : ℕ} {v : Effect} {s : BrowserSocket} {running : Option ℕ}
    {f : Effect → Effect} {g : BrowserSocket → BrowserSocket}
    (hv : p.effects[e]? = some v) (hk : v.socket = some k) (hs : p.sockets[k]? = some s)
    (hrunning : running = p.running ∨ running = none ∧ p.running = some e)
    (hsocket : (f v).socket = some k) (hpaced : Paced (f v))
    (howns : Owns apiUrl running e (f v) (g s)) :
    Sound apiUrl { p with
      running := running, effects := p.effects.modify e f, sockets := p.sockets.modify k g } := by
  have hother : ∀ e', e' ≠ e → (running = some e' ↔ p.running = some e') := by
    intro e' hne
    rcases hrunning with h | ⟨h, h'⟩
    · rw [h]
    · rw [h, h']
      simp [Ne.symm hne]
  refine ⟨fun e' he' => ?_, fun e' v' hv' => ?_, fun k' s' hs' => ?_⟩
  · change e' < (p.effects.modify e f).length
    rw [List.length_modify]
    rcases hrunning with h | ⟨h, -⟩
    · exact hp.running e' (h ▸ he')
    · cases h.symm.trans he'
  · obtain ⟨a, ha, rfl⟩ := getElem?_modify_eq_some.1 hv'
    by_cases he : e = e'
    · subst he
      obtain rfl := Option.some.inj (hv.symm.trans ha)
      rw [if_pos rfl]
      exact ⟨hpaced, k, g s, hsocket, getElem?_modify_eq_some.2 ⟨s, hs, by rw [if_pos rfl]⟩, howns⟩
    · rw [if_neg he]
      obtain ⟨hpaced', k', s', hk', hs', howns'⟩ := hp.effects e' a ha
      have hkk : k ≠ k' := by
        rintro rfl
        obtain rfl := Option.some.inj (hs.symm.trans hs')
        obtain ⟨-, k₀, s₀, hk₀, hs₀, howns₀⟩ := hp.effects e v hv
        obtain rfl := Option.some.inj (hk.symm.trans hk₀)
        obtain rfl := Option.some.inj (hs.symm.trans hs₀)
        exact he (howns₀.effect.symm.trans howns'.effect)
      refine ⟨hpaced', k', s', hk', getElem?_modify_eq_some.2 ⟨s', hs', by rw [if_neg hkk]⟩, ?_⟩
      have hiff := hother e' (Ne.symm he)
      exact ⟨howns'.effect, howns'.url, fun h => howns'.live (hiff.1 h),
        fun h => howns'.stopped fun h' => h (hiff.2 h')⟩
  · obtain ⟨a, ha, rfl⟩ := getElem?_modify_eq_some.1 hs'
    by_cases hkk : k = k'
    · subst hkk
      obtain rfl := Option.some.inj (hs.symm.trans ha)
      rw [if_pos rfl]
      refine ⟨f v, getElem?_modify_eq_some.2 ⟨v, ?_, ?_⟩, Or.inl hsocket⟩
      · rw [howns.effect]
        exact hv
      · rw [howns.effect, if_pos rfl]
    · rw [if_neg hkk]
      obtain ⟨v', hv', hlast⟩ := hp.sockets k' a ha
      refine ⟨if e = a.effect then f v' else v', getElem?_modify_eq_some.2 ⟨v', hv', rfl⟩, ?_⟩
      split_ifs with he
      · subst he
        obtain rfl := Option.some.inj (hv.symm.trans hv')
        exact Or.inr (hlast.resolve_left fun h => hkk (Option.some.inj (hk.symm.trans h)))
      · exact hlast

/-- A socket that is not closed is the last one of its run. -/
theorem Sound.last (hp : Sound apiUrl p) {k : ℕ} {s : BrowserSocket} (hs : p.sockets[k]? = some s)
    (hne : s.readyState ≠ .closed) :
    ∃ v, p.effects[s.effect]? = some v ∧ v.socket = some k ∧ Paced v ∧
      Owns apiUrl p.running s.effect v s := by
  obtain ⟨v, hv, hlast⟩ := hp.sockets k s hs
  have hk := hlast.resolve_right hne
  obtain ⟨hpaced, k', s', hk', hs', howns⟩ := hp.effects s.effect v hv
  obtain rfl := Option.some.inj (hk.symm.trans hk')
  obtain rfl := Option.some.inj (hs.symm.trans hs')
  exact ⟨v, hv, hk, hpaced, howns⟩

/-! ## The callbacks -/

/-- A run with a socket that is not closed has no timer. -/
theorem Owns.timer {running : Option ℕ} {e : ℕ} {v : Effect} {s : BrowserSocket}
    (howns : Owns apiUrl running e v s) (hne : s.readyState ≠ .closed) : v.reconnectTimer = none := by
  by_cases hr : running = some e
  · have hiff := (howns.live hr).2.2
    cases ht : v.reconnectTimer with
    | none => rfl
    | some d => exact absurd (hiff.1 (by rw [ht]; rfl)) hne
  · exact (howns.stopped hr).2.1

theorem Sound.opened (hp : Sound apiUrl p) {k e : ℕ} {url : List Char}
    (hs : p.sockets[k]? = some ⟨e, url, .connecting⟩) :
    Sound apiUrl ((p.onSocket k fun s => { s with readyState := .opened }).onEffect e onopen) := by
  obtain ⟨v, hv, hk, hpaced, howns⟩ := hp.last hs (by simp)
  have htimer := howns.timer (by simp)
  refine hp.change hv hk hs (Or.inl rfl) hk ⟨?_, fun d hd => ?_⟩ ⟨howns.effect, howns.url, ?_, ?_⟩
  · rw [onopen, Backoff.after_concat]
    rfl
  · cases htimer.symm.trans hd
  · intro hr
    refine ⟨(howns.live hr).1, (howns.live hr).2.1, ?_⟩
    simp [onopen, htimer]
  · intro hr
    exact absurd (howns.stopped hr).2.2 (by simp)

theorem Sound.closing (hp : Sound apiUrl p) {k e : ℕ} {url : List Char}
    (hs : p.sockets[k]? = some ⟨e, url, .opened⟩) :
    Sound apiUrl (p.onSocket k fun s => { s with readyState := .closing }) := by
  obtain ⟨v, hv, hk, hpaced, howns⟩ := hp.last hs (by simp)
  have htimer := howns.timer (by simp)
  have hchange := hp.change (f := id) (g := fun s => { s with readyState := .closing }) hv hk hs (Or.inl rfl)
    hk hpaced ⟨howns.effect, howns.url, fun hr => ⟨(howns.live hr).1, (howns.live hr).2.1, ?_⟩,
      fun hr => ⟨(howns.stopped hr).1, htimer, Or.inl rfl⟩⟩
  · rwa [List.modify_id] at hchange
  · simp [htimer]

theorem Sound.closed (hp : Sound apiUrl p) {k : ℕ} {s : BrowserSocket} (hs : p.sockets[k]? = some s)
    (hne : s.readyState ≠ .closed) :
    Sound apiUrl ((p.onSocket k fun s => { s with readyState := .closed }).onEffect s.effect onclose) := by
  obtain ⟨v, hv, hk, hpaced, howns⟩ := hp.last hs hne
  have htimer := howns.timer hne
  by_cases hr : p.running = some s.effect
  · obtain ⟨htoken, hopen, -⟩ := howns.live hr
    have hclose : onclose v = { v with
        reconnectTimer := some v.backoff, backoff := backoffMs.next v.backoff, seen := v.seen ++ [.wait] } :=
      if_neg (by simp [hopen])
    refine hp.change hv hk hs (Or.inl rfl) ?_ ⟨?_, fun d hd => ⟨v.seen, ?_, ?_⟩⟩
      ⟨howns.effect, ?_, fun _ => ⟨?_, ?_, ?_⟩, fun h => absurd hr h⟩
    · rwa [hclose]
    · rw [hclose, Backoff.after_concat, ← hpaced.backoff]
      rfl
    · rw [hclose]
    · rw [hclose] at hd
      rw [← hpaced.backoff]
      exact (Option.some.inj hd).symm
    · rw [hclose]
      exact howns.url
    · rwa [hclose]
    · rwa [hclose]
    · simp [hclose]
  · have hclosed := (howns.stopped hr).1
    have hclose : onclose v = v := if_pos hclosed
    refine hp.change hv hk hs (Or.inl rfl) ?_ ?_
      ⟨howns.effect, ?_, fun h => absurd h hr, fun _ => ⟨?_, ?_, ?_⟩⟩
    · rwa [hclose]
    · rwa [hclose]
    · rw [hclose]
      exact howns.url
    · rwa [hclose]
    · rwa [hclose]
    · exact Or.inr rfl

theorem Sound.cleanup (hp : Sound apiUrl p) : Sound apiUrl p.cleanup ∧ p.cleanup.running = none := by
  unfold Page.cleanup
  cases hr : p.running with
  | none => exact ⟨hp, hr⟩
  | some e =>
    obtain ⟨v, hv⟩ : ∃ v, p.effects[e]? = some v := ⟨_, List.getElem?_eq_getElem (hp.running e hr)⟩
    obtain ⟨hpaced, k, s, hk, hs, howns⟩ := hp.effects e v hv
    have hsocket : (p.effects[e]?).bind Effect.socket = some k := by
      rw [hv]
      exact hk
    refine ⟨?_, ?_⟩
    · simp only [hsocket]
      refine hp.change hv hk hs (Or.inr ⟨rfl, hr⟩) hk ⟨hpaced.backoff, fun d hd => by cases hd⟩
        ⟨?_, ?_, fun h => (by cases h), fun _ => ⟨rfl, rfl, ?_⟩⟩
      · split_ifs <;> exact howns.effect
      · split_ifs <;> exact howns.url
      · split_ifs with hclosed
        · exact Or.inr hclosed
        · exact Or.inl rfl
    · simp only [hsocket]
      rfl

theorem getElem?_concat_eq_some {α : Type*} {l : List α} {a b : α} {j : ℕ} :
    (l ++ [a])[j]? = some b ↔ l[j]? = some b ∨ j = l.length ∧ b = a := by
  rcases lt_trichotomy j l.length with hj | rfl | hj
  · rw [List.getElem?_append_left hj]
    exact ⟨Or.inl, fun h => h.resolve_right fun h => hj.ne h.1⟩
  · simp [eq_comm]
  · rw [List.getElem?_eq_none (by simp; omega), List.getElem?_eq_none hj.le]
    simp [hj.ne']

theorem lt_length_of_getElem? {α : Type*} {l : List α} {a : α} {j : ℕ} (h : l[j]? = some a) :
    j < l.length := (List.getElem?_eq_some_iff.1 h).1

/-- The timer fires: the run opens its next socket. -/
theorem Sound.timeout (hp : Sound apiUrl p) {e d : ℕ} {v : Effect} (hv : p.effects[e]? = some v)
    (hd : v.reconnectTimer = some d) :
    Sound apiUrl
      ((p.onEffect e fun v => { v with reconnectTimer := none }).connect apiUrl e v.authToken) := by
  obtain ⟨hpaced, k, s, hk, hs, howns⟩ := hp.effects e v hv
  have hr : p.running = some e := by
    by_contra hr
    cases hd.symm.trans (howns.stopped hr).2.1
  have hclosed : s.readyState = .closed := (howns.live hr).2.2.1 (by rw [hd]; rfl)
  have heffects : ∀ e' v', ((p.effects.modify e fun v => { v with reconnectTimer := none }).modify e
      fun v => { v with socket := some p.sockets.length })[e']? = some v' ↔
      ∃ a, p.effects[e']? = some a ∧ v' = if e = e' then
        { a with reconnectTimer := none, socket := some p.sockets.length } else a := by
    intro e' v'
    rw [getElem?_modify_eq_some]
    simp only [getElem?_modify_eq_some]
    constructor
    · rintro ⟨_, ⟨a, ha, rfl⟩, rfl⟩
      refine ⟨a, ha, ?_⟩
      split_ifs <;> rfl
    · rintro ⟨a, ha, rfl⟩
      refine ⟨_, ⟨a, ha, rfl⟩, ?_⟩
      split_ifs <;> rfl
  refine ⟨fun e' he' => ?_, fun e' v' hv' => ?_, fun k' s' hs' => ?_⟩
  · change e' < ((p.effects.modify e _).modify e _).length
    rw [List.length_modify, List.length_modify]
    exact hp.running e' he'
  · obtain ⟨a, ha, rfl⟩ := (heffects e' v').1 hv'
    by_cases he : e = e'
    · subst he
      obtain rfl := Option.some.inj (hv.symm.trans ha)
      rw [if_pos rfl]
      refine ⟨⟨hpaced.backoff, fun d hd => by cases hd⟩, p.sockets.length, _, rfl,
        getElem?_concat_eq_some.2 (Or.inr ⟨rfl, rfl⟩), rfl, rfl, fun _ => ?_, fun h => absurd hr h⟩
      exact ⟨(howns.live hr).1, (howns.live hr).2.1, by simp⟩
    · rw [if_neg he]
      obtain ⟨hpaced', k', s', hk', hs', howns'⟩ := hp.effects e' a ha
      exact ⟨hpaced', k', s', hk', getElem?_concat_eq_some.2 (Or.inl hs'), howns'⟩
  · rcases getElem?_concat_eq_some.1 hs' with hold | ⟨rfl, rfl⟩
    · obtain ⟨v', hv', hlast⟩ := hp.sockets k' s' hold
      refine ⟨_, (heffects s'.effect _).2 ⟨v', hv', rfl⟩, ?_⟩
      split_ifs with he
      · refine Or.inr (hlast.elim (fun hk' => ?_) id)
        subst he
        obtain rfl := Option.some.inj (hv.symm.trans hv')
        obtain rfl := Option.some.inj (hk.symm.trans hk')
        obtain rfl := Option.some.inj (hs.symm.trans hold)
        exact hclosed
      · exact hlast
    · exact ⟨_, (heffects e _).2 ⟨v, hv, rfl⟩, Or.inl (by rw [if_pos rfl]; rfl)⟩

/-- The effect starts when no run is left. -/
theorem Sound.runEffect (hp : Sound apiUrl p) (hr : p.running = none) (token : Option (List Char)) :
    Sound apiUrl (p.runEffect apiUrl token) := by
  match token with
  | none => exact hp
  | some [] => exact hp
  | some (c :: rest) =>
    have heffects : ∀ e' v', ((p.effects ++ [Effect.mk (c :: rest) none backoffMs.least false none []]).modify
        p.effects.length fun v => { v with socket := some p.sockets.length })[e']? = some v' ↔
        p.effects[e']? = some v' ∨ e' = p.effects.length ∧
          v' = Effect.mk (c :: rest) (some p.sockets.length) backoffMs.least false none [] := by
      intro e' v'
      rw [getElem?_modify_eq_some]
      simp only [getElem?_concat_eq_some]
      constructor
      · rintro ⟨a, ha | ⟨rfl, rfl⟩, rfl⟩
        · rw [if_neg (lt_length_of_getElem? ha).ne']
          exact Or.inl ha
        · rw [if_pos rfl]
          exact Or.inr ⟨rfl, rfl⟩
      · rintro (hv | ⟨rfl, rfl⟩)
        · exact ⟨v', Or.inl hv, by rw [if_neg (lt_length_of_getElem? hv).ne']⟩
        · exact ⟨_, Or.inr ⟨rfl, rfl⟩, by rw [if_pos rfl]⟩
    refine ⟨fun e' he' => ?_, fun e' v' hv' => ?_, fun k' s' hs' => ?_⟩
    · obtain rfl := Option.some.inj he'
      change _ < ((p.effects ++ [_]).modify _ _).length
      simp
    · rcases (heffects e' v').1 hv' with hold | ⟨rfl, rfl⟩
      · obtain ⟨hpaced, k, s, hk, hs, howns⟩ := hp.effects e' v' hold
        have hstopped := howns.stopped (by rw [hr]; simp)
        refine ⟨hpaced, k, s, hk, getElem?_concat_eq_some.2 (Or.inl hs), howns.effect, howns.url, ?_,
          fun _ => hstopped⟩
        intro he
        exact absurd (Option.some.inj he).symm (lt_length_of_getElem? hold).ne
      · refine ⟨⟨rfl, fun d hd => by cases hd⟩, p.sockets.length, _, rfl,
          getElem?_concat_eq_some.2 (Or.inr ⟨rfl, rfl⟩), rfl, rfl, fun _ => ?_, fun h => absurd rfl h⟩
        exact ⟨by simp, rfl, by simp⟩
    · rcases getElem?_concat_eq_some.1 hs' with hold | ⟨rfl, rfl⟩
      · obtain ⟨v, hv, hlast⟩ := hp.sockets k' s' hold
        exact ⟨v, (heffects s'.effect v).2 (Or.inl hv), hlast⟩
      · exact ⟨_, (heffects _ _).2 (Or.inr ⟨rfl, rfl⟩), Or.inl rfl⟩

theorem Sound.step (hp : Sound apiUrl p) {c : Callback} (hs : p.step apiUrl c = some p') :
    Sound apiUrl p' := by
  cases c with
  | rerun token =>
    obtain rfl := Option.some.inj hs
    exact hp.cleanup.1.runEffect hp.cleanup.2 token
  | unmount =>
    obtain rfl := Option.some.inj hs
    exact hp.cleanup.1
  | opened k =>
    simp only [Page.step] at hs
    split at hs
    · rename_i hk
      obtain rfl := Option.some.inj hs
      exact hp.opened hk
    · cases hs
  | message k data =>
    simp only [Page.step] at hs
    split at hs
    · split at hs
      · obtain rfl := Option.some.inj hs
        exact ⟨hp.running, hp.effects, hp.sockets⟩
      · obtain rfl := Option.some.inj hs
        exact hp
    · cases hs
  | closing k =>
    simp only [Page.step] at hs
    split at hs
    · rename_i hk
      obtain rfl := Option.some.inj hs
      exact hp.closing hk
    · cases hs
  | closed k =>
    simp only [Page.step] at hs
    split at hs
    · rename_i s hk
      split_ifs at hs with hne
      obtain rfl := Option.some.inj hs
      exact hp.closed hk hne
    · cases hs
  | timeout e =>
    simp only [Page.step] at hs
    split at hs
    · rename_i v hv
      split at hs
      · rename_i d hd
        obtain rfl := Option.some.inj hs
        exact hp.timeout hv hd
      · cases hs
    · cases hs

/-! ## Every run -/

/-- The socket is connecting or open. -/
def Alive (s : BrowserSocket) : Prop := s.readyState = .connecting ∨ s.readyState = .opened

instance (s : BrowserSocket) : Decidable (Alive s) := inferInstanceAs (Decidable (_ ∨ _))

/-- A socket that is connecting or open is the last one of the run that is going on. -/
theorem Sound.alive (hp : Sound apiUrl p) {k : ℕ} {s : BrowserSocket} (hs : p.sockets[k]? = some s)
    (ha : Alive s) :
    p.running = some s.effect ∧ ∃ v, p.effects[s.effect]? = some v ∧ v.socket = some k ∧
      s.url = operatorUrl apiUrl v.authToken ∧ v.authToken ≠ [] := by
  have hne : s.readyState ≠ .closed := by
    rcases ha with ha | ha <;> simp [ha]
  obtain ⟨v, hv, hk, -, howns⟩ := hp.last hs hne
  have hr : p.running = some s.effect := by
    by_contra hr
    rcases ha with ha | ha <;> rcases (howns.stopped hr).2.2 with h | h <;> cases ha.symm.trans h
  exact ⟨hr, v, hv, hk, howns.url, (howns.live hr).1⟩

theorem sound_run {current : Cache} {cs : List Callback}
    (hrun : run (Page.step apiUrl) (loaded current) cs = some p) : Sound apiUrl p :=
  run_invariant (fun _ _ _ hp hs => hp.step hs) (sound_loaded current) hrun

/-- Whatever order the callbacks come in: at most one socket is connecting or open, and it was opened
with the token that the page is signed in with. As long as it is signed in, the page has a socket that
is not closed or a timer that will open the next one, and not both; otherwise it has no timer and every
socket is closing. A timer is armed for one second after a connection, twice as long after each attempt
that follows without one, and never for more than fifteen seconds. -/
theorem one_connection {current : Cache} {cs : List Callback}
    (hrun : run (Page.step apiUrl) (loaded current) cs = some p) :
    (∀ (k k' : ℕ) (s s' : BrowserSocket), p.sockets[k]? = some s → p.sockets[k']? = some s' →
        Alive s → Alive s' → k = k') ∧
      (∀ (k : ℕ) (s : BrowserSocket), p.sockets[k]? = some s → Alive s → ∃ e v, p.running = some e ∧
        p.effects[e]? = some v ∧ s.url = operatorUrl apiUrl v.authToken) ∧
      (∀ e, p.running = some e → ∃ v k s, p.effects[e]? = some v ∧ v.socket = some k ∧
        p.sockets[k]? = some s ∧ (v.reconnectTimer.isSome ↔ s.readyState = .closed)) ∧
      ∀ (e : ℕ) (v : Effect), p.effects[e]? = some v → ∀ d, v.reconnectTimer = some d →
        p.running = some e ∧ ∃ seen, v.seen = seen ++ [.wait] ∧
          d = min (1000 * 2 ^ Backoff.streak seen) 15000 := by
  have hp := sound_run hrun
  refine ⟨?_, ?_, ?_, ?_⟩
  · intro k k' s s' hs hs' ha ha'
    obtain ⟨hr, v, hv, hk, -⟩ := hp.alive hs ha
    obtain ⟨hr', v', hv', hk', -⟩ := hp.alive hs' ha'
    have he : s.effect = s'.effect := Option.some.inj (hr.symm.trans hr')
    rw [he] at hv
    obtain rfl := Option.some.inj (hv.symm.trans hv')
    exact Option.some.inj (hk.symm.trans hk')
  · intro k s hs ha
    obtain ⟨hr, v, hv, -, hurl, -⟩ := hp.alive hs ha
    exact ⟨s.effect, v, hr, hv, hurl⟩
  · intro e he
    obtain ⟨v, hv⟩ : ∃ v, p.effects[e]? = some v := ⟨_, List.getElem?_eq_getElem (hp.running e he)⟩
    obtain ⟨-, k, s, hk, hs, howns⟩ := hp.effects e v hv
    exact ⟨v, k, s, hv, hk, hs, (howns.live he).2.2⟩
  · intro e v hv d hd
    obtain ⟨hpaced, k, s, -, -, howns⟩ := hp.effects e v hv
    refine ⟨?_, ?_⟩
    · by_contra hr
      cases hd.symm.trans (howns.stopped hr).2.1
    · obtain ⟨seen, hseen, hwait⟩ := hpaced.timer d hd
      exact ⟨seen, hseen, hwait.trans (Backoff.after_eq_wait _ seen)⟩

theorem one_connection_reconnecting :
    ∃ seen, [.reset, .wait, .wait] = seen ++ [.wait] ∧ 2000 = min (1000 * 2 ^ Backoff.streak seen) 15000 := by
  have hrun : run (Page.step "http://localhost:3000".toList) (loaded none)
      [.rerun (some "jwt".toList), .opened 0, .message 0 (some ("m1", .machineRemoved)), .closed 0,
        .timeout 0, .closed 1] = some _ := (Option.some_get (by decide)).symm
  have htimers := (one_connection hrun).2.2.2 0 _ (List.getElem?_eq_getElem (by decide)) 2000 (by decide)
  exact htimers.2

end Page

end Taymna.Web
