import Taymna.Web.Realtime

/-!
# From the dashboard's URL to the gateway's token

The dashboard puts the operator's token into the URL of its socket, percent-encoded, and the gateway
takes it out of the request again. Whatever is in the token, what is verified is what was stored
(`operator_token`).
-/

namespace Taymna.System

open Automata
open Api.Hub (extractOperatorToken queryOf Route route)
open Web (operatorUrl toWsUrl encodeURIComponent unescaped Page)

/-- What a browser requests of the host in a URL: all that follows the authority. -/
def requestTarget (url : List Char) : List Char := ((url.dropWhile (· ≠ ':')).drop 3).dropWhile (· ≠ '/')

/-- A WebSocket URL is made of the host, and of a path that has no query. -/
theorem exists_toWsUrl {apiUrl : List Char} (hquery : '?' ∉ apiUrl) (hfragment : '#' ∉ apiUrl) :
    ∃ scheme rest, toWsUrl apiUrl = scheme ++ "://".toList ++ rest ++ "/ws".toList ∧ ':' ∉ scheme ∧
      '?' ∉ rest ∧ '#' ∉ rest := by
  unfold toWsUrl
  split
  · rename_i rest hprefix
    obtain ⟨p, rfl, -⟩ := List.dropPrefix?_eq_some_iff.1 hprefix
    rw [List.mem_append, not_or] at hquery hfragment
    exact ⟨"wss".toList, rest, by simp, by decide, hquery.2, hfragment.2⟩
  · split
    · rename_i rest hprefix
      obtain ⟨p, rfl, -⟩ := List.dropPrefix?_eq_some_iff.1 hprefix
      rw [List.mem_append, not_or] at hquery hfragment
      exact ⟨"ws".toList, rest, by simp, by decide, hquery.2, hfragment.2⟩
    · exact ⟨"wss".toList, apiUrl, by simp, by decide, hquery, hfragment⟩

/-- The request for the URL of a socket: a path, and the token under its name. -/
theorem requestTarget_operatorUrl {apiUrl : List Char} (hquery : '?' ∉ apiUrl) (hfragment : '#' ∉ apiUrl)
    (authToken : List Char) :
    ∃ path, requestTarget (operatorUrl apiUrl authToken) =
        path ++ '?' :: ("token".toList ++ '=' :: encodeURIComponent authToken) ∧
      path ≠ [] ∧ '?' ∉ path ∧ '#' ∉ path := by
  obtain ⟨scheme, rest, hws, hscheme, hquery', hfragment'⟩ := exists_toWsUrl hquery hfragment
  -- The first colon ends the scheme, and the first slash behind the authority begins the path.
  have hurl : operatorUrl apiUrl authToken = scheme ++ ':' :: '/' :: '/' ::
      (rest ++ '/' :: 'w' :: 's' :: '?' :: ("token".toList ++ '=' :: encodeURIComponent authToken)) := by
    unfold operatorUrl
    rw [hws]
    simp
  have hscheme' : ∀ c ∈ scheme, decide (c ≠ ':') = true :=
    fun c hc => decide_eq_true fun h => hscheme (h ▸ hc)
  have hsub : ∀ c, c ∈ rest.dropWhile (· ≠ '/') → c ∈ rest :=
    fun c hc => (List.dropWhile_sublist _).subset hc
  refine ⟨rest.dropWhile (· ≠ '/') ++ "/ws".toList, ?_, by simp, ?_, ?_⟩
  · unfold requestTarget
    rw [hurl, List.dropWhile_append_of_pos hscheme']
    change (rest ++ '/' :: 'w' :: 's' :: '?' ::
      ("token".toList ++ '=' :: encodeURIComponent authToken)).dropWhile (· ≠ '/') = _
    rw [List.dropWhile_append]
    split_ifs with hempty
    · rw [List.isEmpty_iff.1 hempty]
      rfl
    · simp
  · rw [List.mem_append]
    rintro (h | h)
    · exact hquery' (hsub _ h)
    · exact absurd h (by decide)
  · rw [List.mem_append]
    rintro (h | h)
    · exact hfragment' (hsub _ h)
    · exact absurd h (by decide)

/-- What the gateway verifies for a socket of the dashboard is the token that its URL was made for. -/
theorem extractOperatorToken_operatorUrl (replace : List UInt8 → List Char) {apiUrl : List Char}
    (hquery : '?' ∉ apiUrl) (hfragment : '#' ∉ apiUrl) (authToken : List Char) :
    extractOperatorToken replace (some (requestTarget (operatorUrl apiUrl authToken))) = some authToken := by
  obtain ⟨path, htarget, hne, hpath, hhash⟩ := requestTarget_operatorUrl hquery hfragment authToken
  have hencoded : '#' ∉ "token".toList ++ '=' :: encodeURIComponent authToken := by
    rw [List.mem_append, List.mem_cons]
    rintro (h | h | h)
    · exact absurd h (by decide)
    · cases h
    · exact Percent.notMem_encode (by decide) (by decide) (by decide) authToken h
  have hquery : queryOf (path ++ '?' :: ("token".toList ++ '=' :: encodeURIComponent authToken)) =
      "token".toList ++ '=' :: encodeURIComponent authToken := by
    have hall : ∀ c ∈ path ++ '?' :: ("token".toList ++ '=' :: encodeURIComponent authToken),
        decide (c ≠ '#') = true := by
      intro c hc
      refine decide_eq_true ?_
      rintro rfl
      rcases List.mem_append.1 hc with h | h
      · exact hhash h
      · rcases List.mem_cons.1 h with h | h
        · cases h
        · exact hencoded h
    have hpath' : ∀ c ∈ path, decide (c ≠ '?') = true :=
      fun c hc => decide_eq_true fun h => hpath (h ▸ hc)
    unfold queryOf
    rw [List.takeWhile_eq_self_iff.2 hall, List.dropWhile_append_of_pos hpath']
    rfl
  have hself : Percent.encode unescaped "token".toList = "token".toList := by decide
  have hname : Percent.component replace "token".toList = "token".toList := by
    have hencode := @Percent.component_encode unescaped replace (by decide) (by decide) "token".toList
    rwa [hself] at hencode
  have hfields : ∀ field ∈ [("token".toList, authToken)],
      Percent.component replace field.1 = field.1 ∧ '=' ∉ field.1 ∧ '&' ∉ field.1 := by
    intro field hfield
    rw [List.mem_singleton.1 hfield]
    refine ⟨hname, ?_, ?_⟩
    · show '=' ∉ "token".toList
      decide
    · show '&' ∉ "token".toList
      decide
  rw [htarget]
  cases path with
  | nil => exact absurd rfl hne
  | cons c path =>
    change Percent.get replace "token".toList (queryOf (c :: path ++ '?' :: _)) = _
    rw [hquery]
    have hget : Percent.get replace "token".toList (Percent.write unescaped [("token".toList, authToken)]) =
        [("token".toList, authToken)].lookup "token".toList :=
      Percent.get_write replace (by decide) (by decide) (by decide) hfields "token".toList
    simpa [Percent.write, encodeURIComponent] using hget

/-- Whatever order the callbacks come in, the gateway takes every socket that a page has connecting or
open for that of an operator, and verifies the token that the page is signed in with. -/
theorem operator_token (replace : List UInt8 → List Char) {apiUrl : List Char} (hquery : '?' ∉ apiUrl)
    (hfragment : '#' ∉ apiUrl) {current : Web.Cache} {cs : List Page.Callback} {p : Page}
    (hrun : run (Page.step apiUrl) (Page.loaded current) cs = some p) (k : ℕ) (s : Web.BrowserSocket)
    (hs : p.sockets[k]? = some s) (ha : Page.Alive s) :
    ∃ e v, p.running = some e ∧ p.effects[e]? = some v ∧
      route none (extractOperatorToken replace (some (requestTarget s.url))) = .operator v.authToken := by
  obtain ⟨hr, v, hv, -, hurl, hne⟩ := (Page.sound_run hrun).alive hs ha
  refine ⟨s.effect, v, hr, hv, ?_⟩
  rw [hurl, extractOperatorToken_operatorUrl replace hquery hfragment]
  cases h : v.authToken with
  | nil => exact absurd h hne
  | cons c token => rfl

theorem operator_token_slash :
    route none (extractOperatorToken (fun _ => []) (some (requestTarget
      (operatorUrl "http://localhost:3000".toList "a+/=%&é".toList)))) = .operator "a+/=%&é".toList := by
  have hrun : run (Page.step "http://localhost:3000".toList) (Page.loaded none)
      [.rerun (some "a+/=%&é".toList)] = some _ := (Option.some_get (by decide)).symm
  obtain ⟨e, v, hr, hv, hroute⟩ := operator_token (fun _ => []) (by decide) (by decide) hrun 0 _
    (List.getElem?_eq_getElem (by decide)) (by decide)
  obtain rfl := Option.some.inj hr
  obtain rfl := Option.some.inj hv
  exact hroute

end Taymna.System
