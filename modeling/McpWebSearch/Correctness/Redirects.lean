import Mathlib.Data.List.Chain
import McpWebSearch.Correctness.Verdict

/-!
# `Correctness.Redirects` — the two redirect walks agree

`fetch_page` and `web_fetch_headers` follow redirects by hand, in loops of their own: the GET loop gives up at the last
redirect it sees, the HEAD loop validates its target first and then falls out. Against a server that answers both methods
alike, with verdicts that do not change, both do what one abstract walk does (`walk`): `fetchLoop_run` and
`headLoop_run` are the two simulations, by induction on the redirects left. What the walk itself does is stated on redirect
chains (`Leads`).
-/

namespace McpWebSearch

open Utf8 Prog

/-! ## The server and the verdicts -/

/-- A server that answers GET and HEAD alike, with bodies that can be read. -/
structure Site (maxBytes : Nat) where
  answer : Url → HttpResponse
  readable : ∀ url, ∃ body, readCapped (answer url) maxBytes = .ok body

/-- The network answers every request as the site does. -/
def Net.Serves (net : Net) {maxBytes : Nat} (site : Site maxBytes) : Prop :=
  ∀ n client method url, net.send n client method url = .received (site.answer url)

/-- Verdicts of `validate_url` and `client_for` that are the same whenever they are asked for. -/
structure Verdicts (net : Net) (config : Config) where
  validate : Text → Result Url
  client : Url → Result ClientOrPinned
  validate_eq : ∀ raw w, (validateUrl net raw config.allowPrivateHosts w).1 = validate raw
  client_eq : ∀ url w, (clientFor net config url w).1 = client url

/-- The URL of a request. -/
def NetEvent.requestUrl : NetEvent → Option Url
  | .request _ url => some url
  | _ => none

/-- The URLs requested so far, in order. -/
def requested (w : World) : List Url := w.trace.filterMap NetEvent.requestUrl

/-! ## Redirect chains -/

section Chains

variable {net : Net} {config : Config} (v : Verdicts net config) (site : Site config.maxResponseBytes)

/-- Where the answer of a URL redirects to: its `Location`, joined to the URL. -/
def locationTarget (urls : UrlParser) (current : Url) (resp : HttpResponse) : Option Url :=
  ((resp.headers.get "location").bind HeaderMap.toStr).bind fun location => (urls.join current location).toOption

/-- The next URL of a chain: the target of the redirect, if it is accepted. -/
def Verdicts.next (current : Url) : Option Url :=
  (locationTarget net.urls current (site.answer current)).bind fun next => (v.validate next.asStr).toOption

/-- The site redirects the URL. -/
abbrev Redirects (current : Url) : Prop := (site.answer current).isRedirection = true

/-- `n` redirects lead from one URL to the other. -/
inductive Leads : Nat → Url → Url → Prop
  | here (url : Url) : Leads 0 url url
  | redirect {n : Nat} {current next url : Url} (hclient : (v.client current).isOk = true)
      (hredirects : Redirects site current) (hnext : v.next site current = some next) (h : Leads n next url) :
      Leads (n + 1) current url

/-- The chain breaks within `max` redirects: at a URL that gets no client, at one whose redirect has no `Location` or no
    accepted target, or because there is one redirect more. -/
def Breaks (max : Nat) (start : Url) : Prop :=
  ∃ n url, n ≤ max ∧ Leads v site n start url ∧
    ((v.client url).isOk = false ∨ Redirects site url ∧ (n = max ∨ v.next site url = none))

/-- The chain stops within `max` redirects, at a URL that is not redirected. -/
def StopsAt (max : Nat) (start url : Url) : Prop :=
  ∃ n ≤ max, Leads v site n start url ∧ (v.client url).isOk = true ∧ ¬ Redirects site url

/-- A walk with `left` redirects to go: the URLs it requests, and the one it stops at. -/
inductive Walks : Nat → Url → List Url → Option Url → Prop
  | refused {left : Nat} {current : Url} (hclient : (v.client current).isOk = false) : Walks left current [] none
  | stops {left : Nat} {current : Url} (hclient : (v.client current).isOk = true) (h : ¬ Redirects site current) :
      Walks left current [current] (some current)
  | tooMany {current : Url} (hclient : (v.client current).isOk = true) (h : Redirects site current) :
      Walks 0 current [current] none
  | lost {left : Nat} {current : Url} (hclient : (v.client current).isOk = true) (h : Redirects site current)
      (hnext : v.next site current = none) : Walks left current [current] none
  | redirect {left : Nat} {current next : Url} {us : List Url} {final : Option Url}
      (hclient : (v.client current).isOk = true) (h : Redirects site current) (hnext : v.next site current = some next)
      (hwalk : Walks left next us final) : Walks (left + 1) current (current :: us) final

variable {v site}

/-- There is a walk from every URL. -/
theorem exists_walk (v : Verdicts net config) (site : Site config.maxResponseBytes) (left : Nat) (current : Url) :
    ∃ us final, Walks v site left current us final := by
  induction left generalizing current with
  | zero =>
      cases hclient : (v.client current).isOk with
      | false => exact ⟨[], none, .refused hclient⟩
      | true =>
          by_cases h : Redirects site current
          · exact ⟨[current], none, .tooMany hclient h⟩
          · exact ⟨[current], some current, .stops hclient h⟩
  | succ left ih =>
      cases hclient : (v.client current).isOk with
      | false => exact ⟨[], none, .refused hclient⟩
      | true =>
          by_cases h : Redirects site current
          · cases hnext : v.next site current with
            | none => exact ⟨[current], none, .lost hclient h hnext⟩
            | some next =>
                obtain ⟨us, final, hwalk⟩ := ih next
                exact ⟨current :: us, final, .redirect hclient h hnext hwalk⟩
          · exact ⟨[current], some current, .stops hclient h⟩

namespace Walks

variable {left : Nat} {current : Url} {us : List Url} {final : Option Url}

/-- A walk requests one URL more than it may follow redirects, at most. -/
theorem length_le (h : Walks v site left current us final) : us.length ≤ left + 1 := by
  induction h with
  | refused => exact Nat.zero_le _
  | stops => exact Nat.le_add_left 1 _
  | tooMany => exact Nat.le_refl 1
  | lost => exact Nat.le_add_left 1 _
  | redirect hclient h hnext hwalk ih => exact Nat.succ_le_succ ih

/-- It begins at the URL it is given. -/
theorem head_eq (h : Walks v site left current us final) : ∀ u ∈ us.head?, u = current := by
  intro u hu
  cases h with
  | refused => cases hu
  | stops => exact (Option.some.inj hu).symm
  | tooMany => exact (Option.some.inj hu).symm
  | lost => exact (Option.some.inj hu).symm
  | redirect => exact (Option.some.inj hu).symm

/-- Each URL it requests is the accepted target of the one before. -/
theorem isChain (h : Walks v site left current us final) : us.IsChain fun u u' => v.next site u = some u' := by
  induction h with
  | refused => exact .nil
  | stops => exact .singleton _
  | tooMany => exact .singleton _
  | lost => exact .singleton _
  | redirect hclient h hnext hwalk ih =>
      refine List.isChain_cons.mpr ⟨?_, ih⟩
      intro u hu
      rw [hwalk.head_eq u hu]
      exact hnext

/-- It stops at the last URL it requests, where the chain stops. -/
theorem stopsAt {url : Url} (h : Walks v site left current us final) (hfinal : final = some url) :
    StopsAt v site left current url ∧ us.getLast? = some url := by
  induction h with
  | refused => cases hfinal
  | tooMany => cases hfinal
  | lost => cases hfinal
  | stops hclient h =>
      obtain rfl := Option.some.inj hfinal
      exact ⟨⟨0, Nat.zero_le _, .here _, hclient, h⟩, rfl⟩
  | redirect hclient h hnext hwalk ih =>
      obtain ⟨⟨n, hn, hleads, hstops⟩, hlast⟩ := ih hfinal
      refine ⟨⟨n + 1, Nat.succ_le_succ hn, .redirect hclient h hnext hleads, hstops⟩, ?_⟩
      rw [List.getLast?_cons, hlast]
      rfl

/-- If it stops nowhere the chain breaks. -/
theorem breaks (h : Walks v site left current us final) (hfinal : final = none) : Breaks v site left current := by
  induction h with
  | stops => cases hfinal
  | refused hclient => exact ⟨0, _, Nat.zero_le _, .here _, .inl hclient⟩
  | tooMany hclient h => exact ⟨0, _, Nat.le_refl 0, .here _, .inr ⟨h, .inl rfl⟩⟩
  | lost hclient h hnext => exact ⟨0, _, Nat.zero_le _, .here _, .inr ⟨h, .inr hnext⟩⟩
  | redirect hclient h hnext hwalk ih =>
      obtain ⟨n, url, hn, hleads, hbreak⟩ := ih hfinal
      refine ⟨n + 1, url, Nat.succ_le_succ hn, .redirect hclient h hnext hleads, ?_⟩
      exact hbreak.imp_right fun hend => ⟨hend.1, hend.2.imp_left (congrArg Nat.succ)⟩

/-- If the chain breaks it stops nowhere. -/
theorem final_eq_none (h : Walks v site left current us final) (hbreaks : Breaks v site left current) :
    final = none := by
  induction h with
  | refused => rfl
  | tooMany => rfl
  | lost => rfl
  | stops hclient h =>
      obtain ⟨n, url, -, hleads, hbreak⟩ := hbreaks
      cases hleads with
      | redirect hclient' h' => exact absurd h' h
      | here =>
          rcases hbreak with hrefused | ⟨h', -⟩
          · rw [hclient] at hrefused
            cases hrefused
          · exact absurd h' h
  | redirect hclient h hnext hwalk ih =>
      apply ih
      obtain ⟨n, url, hn, hleads, hbreak⟩ := hbreaks
      cases hleads with
      | here =>
          rcases hbreak with hrefused | ⟨-, hzero | hnone⟩
          · rw [hclient] at hrefused
            cases hrefused
          · cases hzero
          · rw [hnext] at hnone
            cases hnone
      | redirect hclient' h' hnext' hleads =>
          obtain rfl := Option.some.inj (hnext.symm.trans hnext')
          refine ⟨_, url, Nat.le_of_succ_le_succ hn, hleads, ?_⟩
          exact hbreak.imp_right fun hend => ⟨hend.1, hend.2.imp_left Nat.succ.inj⟩

end Walks

end Chains

/-! ## One round of a walk -/

/-- A program that requests nothing. -/
def Quiet {α : Type} (m : NetM α) : Prop :=
  ∀ us, Triple (fun w => requested w = us) m (fun _ w => requested w = us) (fun _ w => requested w = us)

namespace Quiet

variable {α β : Type} {net : Net} {config : Config}

theorem bind {m : NetM α} {f : α → NetM β} (hm : Quiet m) (hf : ∀ a, Quiet (f a)) : Quiet (m >>= f) :=
  fun us => Triple.bind (hm us) fun a => hf a us

theorem pure (a : α) : Quiet (Pure.pure a) := fun _ => Triple.pure fun _ h => h

theorem fail (e : WebSearchError) : Quiet (Prog.fail e : NetM α) := fun _ => Triple.fail fun _ h => h

theorem ofExcept (r : Result α) : Quiet (Prog.ofExcept r) :=
  fun _ => Triple.ofExcept (fun _ _ _ h => h) fun _ _ _ h => h

theorem attempt {m : NetM α} (hm : Quiet m) : Quiet (Prog.attempt m) := by
  intro us w hw
  exact (hm us).final hw

/-- An event that is not a request. -/
theorem record {e : NetEvent} (h : e.requestUrl = none) : Quiet (McpWebSearch.record e) := by
  intro us
  apply Triple.change
  intro w hw
  show (w.trace ++ [e]).filterMap NetEvent.requestUrl = us
  rw [List.filterMap_append, List.filterMap_cons_none h]
  exact (List.append_nil _).trans hw

theorem lookupHost (domain : Text) (port : UInt16) : Quiet (McpWebSearch.lookupHost net domain port) := by
  intro us w hw
  show (w.trace ++ [NetEvent.lookup domain port]).filterMap NetEvent.requestUrl = us
  rw [List.filterMap_append]
  exact (List.append_nil _).trans hw

theorem checkHostAsync (url : Url) : Quiet (McpWebSearch.checkHostAsync net url) := by
  unfold McpWebSearch.checkHostAsync
  cases url.host with
  | none => exact pure ()
  | some host =>
      cases host with
      | ipv4 ip => exact ofExcept _
      | ipv6 ip => exact ofExcept _
      | domain domain =>
          apply bind (lookupHost domain 0)
          intro r
          cases r with
          | error e => exact fail _
          | ok addrs => exact ofExcept _

theorem checkUrl (raw : Text) (allowPrivate : Bool) : Quiet (McpWebSearch.checkUrl net raw allowPrivate) := by
  apply bind (ofExcept _)
  intro url
  cases allowPrivate with
  | true => exact pure url
  | false => exact bind (checkHostAsync url) fun _ => pure url

theorem validateUrl (raw : Text) (allowPrivate : Bool) : Quiet (McpWebSearch.validateUrl net raw allowPrivate) := by
  apply bind (attempt (checkUrl raw allowPrivate))
  intro r
  cases r with
  | ok url => exact bind (record rfl) fun _ => pure url
  | error e => exact bind (record rfl) fun _ => fail e

theorem clientFor (url : Url) : Quiet (McpWebSearch.clientFor net config url) := by
  unfold McpWebSearch.clientFor buildPinnedClient
  cases url.host with
  | none => exact pure _
  | some host =>
      cases host with
      | ipv4 ip => exact pure _
      | ipv6 ip => exact pure _
      | domain domain =>
          dsimp only
          split
          · refine bind (bind (lookupHost domain _) fun r => ?_) fun c => pure _
            cases r with
            | error e => exact fail _
            | ok addrs => exact bind (ofExcept _) fun _ => ofExcept _
          · exact pure _

/-- What a quiet program does to the state. -/
theorem run {m : NetM α} (hm : Quiet m) (w : World) : ∃ w', m w = ((m w).1, w') ∧ requested w' = requested w :=
  ⟨(m w).2, rfl, (hm (requested w)).final rfl⟩

end Quiet

section Rounds

variable {α : Type} {net : Net} {config : Config} {site : Site config.maxResponseBytes} (v : Verdicts net config)

theorem validateUrl_run (raw : Text) (w : World) :
    ∃ w', validateUrl net raw config.allowPrivateHosts w = (v.validate raw, w') ∧ requested w' = requested w := by
  have hquiet : Quiet (validateUrl net raw config.allowPrivateHosts) := Quiet.validateUrl raw config.allowPrivateHosts
  obtain ⟨w', hrun, hw'⟩ := hquiet.run w
  exact ⟨w', by rw [hrun, v.validate_eq], hw'⟩

theorem clientFor_run (url : Url) (w : World) :
    ∃ w', clientFor net config url w = (v.client url, w') ∧ requested w' = requested w := by
  have hquiet : Quiet (clientFor net config url) := Quiet.clientFor url
  obtain ⟨w', hrun, hw'⟩ := hquiet.run w
  exact ⟨w', by rw [hrun, v.client_eq], hw'⟩

theorem sendRequest_run (hserves : net.Serves site) (client : Client) (method : Method) (url : Url) (w : World) :
    ∃ w', sendRequest net client method url w = (.ok (.received (site.answer url)), w') ∧
      requested w' = requested w ++ [url] := by
  refine ⟨(sendRequest net client method url w).2, ?_, ?_⟩
  · rw [← hserves w.requests client method url]
    rfl
  · have hrequest (ips : List IpAddr) :
        (NetEvent.request method url :: ips.map (.connect url)).filterMap NetEvent.requestUrl = [url] := by
      have hconnects : (ips.map (NetEvent.connect url)).filterMap NetEvent.requestUrl = [] := by
        rw [List.filterMap_map]
        exact List.filterMap_eq_nil_iff.mpr fun _ _ => rfl
      exact congrArg (url :: ·) hconnects
    show (w.trace ++ NetEvent.request method url :: _).filterMap NetEvent.requestUrl = _
    rw [List.filterMap_append, hrequest]
    rfl

/-- Without a client nothing is requested. -/
theorem hop_refused {url : Url} (h : (v.client url).isOk = false) (method : Method) (f : Sent → NetM α) (w : World) :
    ∃ e w', (clientFor net config url >>= fun client => sendRequest net client.asRef method url >>= f) w =
        (.error e, w') ∧ requested w' = requested w := by
  obtain ⟨w', hclient, hw'⟩ := clientFor_run v url w
  cases hv : v.client url with
  | ok client =>
      rw [hv] at h
      cases h
  | error e =>
      rw [hv] at hclient
      exact ⟨e, w', Prog.bind_error hclient, hw'⟩

/-- With a client the URL is requested, and the site answers. -/
theorem hop_answered (hserves : net.Serves site) {url : Url} (h : (v.client url).isOk = true) (method : Method)
    (f : Sent → NetM α) (w : World) :
    ∃ w', (clientFor net config url >>= fun client => sendRequest net client.asRef method url >>= f) w =
        f (.received (site.answer url)) w' ∧ requested w' = requested w ++ [url] := by
  obtain ⟨w', hclient, hw'⟩ := clientFor_run v url w
  cases hv : v.client url with
  | error e =>
      rw [hv] at h
      cases h
  | ok client =>
      rw [hv] at hclient
      obtain ⟨w'', hsend, hw''⟩ := sendRequest_run hserves client.asRef method url w'
      refine ⟨w'', ?_, hw''.trans (congrArg (· ++ [url]) hw')⟩
      rw [Prog.bind_ok hclient, Prog.bind_ok hsend]

theorem redirectTarget_eq_ok_iff {urls : UrlParser} {hop : Nat} {current next : Url} {resp : HttpResponse} :
    redirectTarget urls hop current resp = .ok next ↔ locationTarget urls current resp = some next := by
  unfold redirectTarget locationTarget
  cases (resp.headers.get "location").bind HeaderMap.toStr with
  | none => simp
  | some location =>
      cases hjoin : urls.join current location with
      | error e => simp [hjoin, Except.toOption]
      | ok target => simp [hjoin, Except.toOption]

/-- A redirect without an accepted target ends the walk. -/
theorem redirect_lost {current : Url} (h : v.next site current = none) (hop : Nat) (f : Url → NetM α) (w : World) :
    ∃ e w', (ofExcept (redirectTarget net.urls hop current (site.answer current)) >>= fun next =>
        validateUrl net next.asStr config.allowPrivateHosts >>= f) w = (.error e, w') ∧ requested w' = requested w := by
  cases htarget : redirectTarget net.urls hop current (site.answer current) with
  | error e => exact ⟨e, w, Prog.bind_error (Prog.ofExcept_error e w), rfl⟩
  | ok next =>
      obtain ⟨w', hvalidate, hw'⟩ := validateUrl_run v next.asStr w
      rw [Verdicts.next, redirectTarget_eq_ok_iff.mp htarget, Option.bind_some] at h
      cases hv : v.validate next.asStr with
      | ok url =>
          rw [hv] at h
          cases h
      | error e =>
          rw [hv] at hvalidate
          refine ⟨e, w', ?_, hw'⟩
          rw [Prog.bind_ok (Prog.ofExcept_ok next w), Prog.bind_error hvalidate]

/-- A redirect with an accepted target goes on there. -/
theorem redirect_followed {current next : Url} (h : v.next site current = some next) (hop : Nat) (f : Url → NetM α)
    (w : World) :
    ∃ w', (ofExcept (redirectTarget net.urls hop current (site.answer current)) >>= fun next =>
        validateUrl net next.asStr config.allowPrivateHosts >>= f) w = f next w' ∧ requested w' = requested w := by
  obtain ⟨target, htarget, hvalid⟩ := Option.bind_eq_some_iff.mp h
  obtain ⟨w', hvalidate, hw'⟩ := validateUrl_run v target.asStr w
  have hv : v.validate target.asStr = .ok next := by
    cases hv : v.validate target.asStr with
    | error e =>
        rw [hv] at hvalid
        cases hvalid
    | ok url =>
        rw [hv] at hvalid
        exact congrArg Except.ok (Option.some.inj hvalid)
  rw [hv] at hvalidate
  refine ⟨w', ?_, hw'⟩
  rw [redirectTarget_eq_ok_iff.mpr htarget, Prog.bind_ok (Prog.ofExcept_ok target w), Prog.bind_ok hvalidate]

end Rounds

/-! ## The two walks -/

section Simulation

variable {net : Net} {config : Config} {site : Site config.maxResponseBytes} {v : Verdicts net config}

def Fails {α : Type} (r : Result α) : Prop := ∃ e, r = .error e

/-- How a GET walk ends: at a page, if the status is a success. -/
def GetEnds (site : Site config.maxResponseBytes) : Option Url → Result FetchedPage → Prop
  | none, r => Fails r
  | some url, r => if (site.answer url).isSuccess then ∃ body, r = .ok ⟨url, body⟩ else Fails r

theorem GetEnds.fails_iff {last : Url} {r : Result FetchedPage} (h : GetEnds site (some last) r) :
    Fails r ↔ (site.answer last).isSuccess = false := by
  rw [GetEnds] at h
  cases hsuccess : (site.answer last).isSuccess with
  | true =>
      rw [if_pos hsuccess] at h
      obtain ⟨body, rfl⟩ := h
      exact iff_of_false (fun ⟨e, he⟩ => nomatch he) (by simp)
  | false =>
      rw [if_neg (by simp [hsuccess])] at h
      exact iff_of_true h rfl

theorem GetEnds.finalUrl {last : Url} {page : FetchedPage} (h : GetEnds site (some last) (.ok page)) :
    page.finalUrl = last := by
  rw [GetEnds] at h
  split at h
  · obtain ⟨body, hbody⟩ := h
    exact congrArg FetchedPage.finalUrl (Except.ok.inj hbody)
  · obtain ⟨e, he⟩ := h
    cases he

/-- How a HEAD walk ends: at the headers, whatever the status. -/
def HeadEnds (net : Net) (site : Site config.maxResponseBytes) : Option Url → Result Value → Prop
  | none, r => Fails r
  | some url, r => r = .ok (textContent (Actions.headerLines net url (site.answer url)))

/-- What a round of `fetch_page` does with its response. -/
def fetchReply (net : Net) (config : Config) (start : Text) (left hop : Nat) (current : Url) (resp : HttpResponse) :
    NetM FetchedPage :=
  if resp.isRedirection then
    if hop = config.maxRedirects then
      Prog.fail (.httpError ("exceeded " ++ decimal config.maxRedirects ++ " redirects from " ++ start))
    else ofExcept (redirectTarget net.urls hop current resp) >>= fun next =>
      validateUrl net next.asStr config.allowPrivateHosts >>= fetchLoop net config start left (hop + 1)
  else if !resp.isSuccess then
    Prog.fail (.httpError (current.asStr ++ " returned HTTP " ++ decimal resp.status))
  else ofExcept (readCapped resp config.maxResponseBytes) >>= fun body => pure { finalUrl := current, body := body }

/-- What a round of `web_fetch_headers` does with its response. -/
def headReply (net : Net) (config : Config) (start : Text) (left hop : Nat) (current : Url) (resp : HttpResponse) :
    NetM Value :=
  if resp.isRedirection then
    ofExcept (redirectTarget net.urls hop current resp) >>= fun next =>
      validateUrl net next.asStr config.allowPrivateHosts >>= Actions.headLoop net config start left (hop + 1)
  else pure (textContent (Actions.headerLines net current resp))

theorem fetchLoop_answered (hserves : net.Serves site) {current : Url} (h : (v.client current).isOk = true)
    (start : Text) (left hop : Nat) (w : World) :
    ∃ w', fetchLoop net config start (left + 1) hop current w =
        fetchReply net config start left hop current (site.answer current) w' ∧
      requested w' = requested w ++ [current] :=
  hop_answered v hserves h .get
    (fun sent => ofExcept (fetchResponse current sent) >>= fetchReply net config start left hop current) w

theorem headLoop_answered (hserves : net.Serves site) {current : Url} (h : (v.client current).isOk = true)
    (start : Text) (left hop : Nat) (w : World) :
    ∃ w', Actions.headLoop net config start (left + 1) hop current w =
        headReply net config start left hop current (site.answer current) w' ∧
      requested w' = requested w ++ [current] :=
  hop_answered v hserves h .head
    (fun sent => ofExcept (Actions.headResponse current sent) >>= headReply net config start left hop current) w

/-- **`fetch_page` walks**: the round with no redirect left is the one at hop `max_redirects`. -/
theorem fetchLoop_run (hserves : net.Serves site) (start : Text) {left hop : Nat} {current : Url} {us : List Url}
    {final : Option Url} (hwalk : Walks v site left current us final) (hhop : hop + left = config.maxRedirects)
    (w : World) :
    ∃ r w', fetchLoop net config start (left + 1) hop current w = (r, w') ∧ requested w' = requested w ++ us ∧
      GetEnds site final r := by
  induction hwalk generalizing hop w with
  | refused hclient =>
      obtain ⟨e, w', hrun, hw'⟩ := hop_refused v hclient .get _ w
      exact ⟨.error e, w', hrun, by rw [hw', List.append_nil], e, rfl⟩
  | @stops left current hclient h =>
      obtain ⟨w', hrun, hw'⟩ := fetchLoop_answered hserves hclient start left hop w
      rw [fetchReply, if_neg h] at hrun
      cases hsuccess : (site.answer current).isSuccess with
      | true =>
          obtain ⟨body, hbody⟩ := site.readable current
          simp only [hsuccess, Bool.not_true, Bool.false_eq_true, if_false, hbody] at hrun
          refine ⟨.ok ⟨current, body⟩, w', hrun, hw', ?_⟩
          rw [GetEnds, if_pos hsuccess]
          exact ⟨body, rfl⟩
      | false =>
          simp only [hsuccess, Bool.not_false, if_true] at hrun
          refine ⟨_, w', hrun, hw', ?_⟩
          rw [GetEnds, if_neg (by simp [hsuccess])]
          exact ⟨_, rfl⟩
  | @tooMany current hclient h =>
      obtain ⟨w', hrun, hw'⟩ := fetchLoop_answered hserves hclient start 0 hop w
      rw [fetchReply, if_pos h, if_pos (by omega)] at hrun
      exact ⟨_, w', hrun, hw', _, rfl⟩
  | @lost left current hclient h hnext =>
      obtain ⟨w', hrun, hw'⟩ := fetchLoop_answered hserves hclient start left hop w
      rw [fetchReply, if_pos h] at hrun
      by_cases hlast : hop = config.maxRedirects
      · rw [if_pos hlast] at hrun
        exact ⟨_, w', hrun, hw', _, rfl⟩
      · obtain ⟨e, w'', hlost, hw''⟩ := redirect_lost v hnext hop _ w'
        rw [if_neg hlast, hlost] at hrun
        exact ⟨_, w'', hrun, hw''.trans hw', e, rfl⟩
  | @redirect left current next us final hclient h hnext hwalk ih =>
      obtain ⟨w', hrun, hw'⟩ := fetchLoop_answered hserves hclient start (left + 1) hop w
      have hmore : hop ≠ config.maxRedirects := by omega
      obtain ⟨w'', hfollowed, hw''⟩ := redirect_followed v hnext hop _ w'
      rw [fetchReply, if_pos h, if_neg hmore, hfollowed] at hrun
      have hhop' : hop + 1 + left = config.maxRedirects := by omega
      obtain ⟨r, w₃, hrest, hw₃, hends⟩ := ih hhop' w''
      refine ⟨r, w₃, hrun.trans hrest, ?_, hends⟩
      rw [hw₃, hw'', hw', List.append_assoc, List.singleton_append]

/-- **`web_fetch_headers` walks**: after the last redirect it validates the target, and requests nothing more. -/
theorem headLoop_run (hserves : net.Serves site) (start : Text) {left : Nat} {current : Url} {us : List Url}
    {final : Option Url} (hwalk : Walks v site left current us final) (hop : Nat) (w : World) :
    ∃ r w', Actions.headLoop net config start (left + 1) hop current w = (r, w') ∧
      requested w' = requested w ++ us ∧ HeadEnds net site final r := by
  induction hwalk generalizing hop w with
  | refused hclient =>
      obtain ⟨e, w', hrun, hw'⟩ := hop_refused v hclient .head _ w
      exact ⟨.error e, w', hrun, by rw [hw', List.append_nil], e, rfl⟩
  | @stops left current hclient h =>
      obtain ⟨w', hrun, hw'⟩ := headLoop_answered hserves hclient start left hop w
      rw [headReply, if_neg h] at hrun
      exact ⟨_, w', hrun, hw', rfl⟩
  | @tooMany current hclient h =>
      obtain ⟨w', hrun, hw'⟩ := headLoop_answered hserves hclient start 0 hop w
      rw [headReply, if_pos h] at hrun
      cases hnext : v.next site current with
      | none =>
          obtain ⟨e, w'', hlost, hw''⟩ := redirect_lost v hnext hop _ w'
          rw [hlost] at hrun
          exact ⟨_, w'', hrun, hw''.trans hw', e, rfl⟩
      | some next =>
          obtain ⟨w'', hfollowed, hw''⟩ := redirect_followed v hnext hop _ w'
          rw [hfollowed] at hrun
          exact ⟨_, w'', hrun, hw''.trans hw', _, rfl⟩
  | @lost left current hclient h hnext =>
      obtain ⟨w', hrun, hw'⟩ := headLoop_answered hserves hclient start left hop w
      obtain ⟨e, w'', hlost, hw''⟩ := redirect_lost v hnext hop _ w'
      rw [headReply, if_pos h, hlost] at hrun
      exact ⟨_, w'', hrun, hw''.trans hw', e, rfl⟩
  | @redirect left current next us final hclient h hnext hwalk ih =>
      obtain ⟨w', hrun, hw'⟩ := headLoop_answered hserves hclient start (left + 1) hop w
      obtain ⟨w'', hfollowed, hw''⟩ := redirect_followed v hnext hop _ w'
      rw [headReply, if_pos h, hfollowed] at hrun
      obtain ⟨r, w₃, hrest, hw₃, hends⟩ := ih (hop + 1) w''
      refine ⟨r, w₃, hrun.trans hrest, ?_, hends⟩
      rw [hw₃, hw'', hw', List.append_assoc, List.singleton_append]

/-- The chain of a start URL breaks: it is rejected, or the chain from it breaks within the allowed redirects. -/
def ChainBreaks (v : Verdicts net config) (site : Site config.maxResponseBytes) (start : Text) : Prop :=
  ∀ url, v.validate start = .ok url → Breaks v site config.maxRedirects url

/-- **The GET and HEAD redirect walks agree and are bounded.** From any states, both request the same URLs, at most
    `max_redirects + 1`, each the accepted target of the one before. If the chain breaks both fail; otherwise both stop at
    its end, where HEAD returns the headers and GET fails exactly if the status is not a success. -/
theorem redirect_walks_agree (net : Net) (config : Config) (site : Site config.maxResponseBytes)
    (hserves : net.Serves site) (v : Verdicts net config) (args : Option Value) (start : Text)
    (hargs : getStrArg args "url" = .ok start) (w w' : World) :
    ∃ us, requested (fetchPage net config start w).2 = requested w ++ us ∧
      requested (Actions.webFetchHeaders net config args w').2 = requested w' ++ us ∧
      us.length ≤ config.maxRedirects + 1 ∧
      (∀ url ∈ us.head?, v.validate start = .ok url) ∧ us.IsChain (fun u u' => v.next site u = some u') ∧
      (ChainBreaks v site start →
        Fails (fetchPage net config start w).1 ∧ Fails (Actions.webFetchHeaders net config args w').1) ∧
      (¬ ChainBreaks v site start →
        ∃ first last, v.validate start = .ok first ∧ StopsAt v site config.maxRedirects first last ∧
          us.getLast? = some last ∧
          (Actions.webFetchHeaders net config args w').1 =
            .ok (textContent (Actions.headerLines net last (site.answer last))) ∧
          (Fails (fetchPage net config start w).1 ↔ (site.answer last).isSuccess = false) ∧
          ∀ page, (fetchPage net config start w).1 = .ok page → page.finalUrl = last) := by
  obtain ⟨w₁, hget, hw₁⟩ := validateUrl_run v start w
  obtain ⟨w₂, hhead, hw₂⟩ := validateUrl_run v start w'
  have hheaders : Actions.webFetchHeaders net config args w' =
      (validateUrl net start config.allowPrivateHosts >>=
        Actions.headLoop net config start (config.maxRedirects + 1) 0) w' := by
    unfold Actions.webFetchHeaders
    rw [hargs, Prog.bind_ok (Prog.ofExcept_ok start w')]
  cases hv : v.validate start with
  | error e =>
      -- the start URL is rejected, and nothing is requested
      rw [hv] at hget hhead
      have hfetch : fetchPage net config start w = (.error e, w₁) := Prog.bind_error hget
      rw [Prog.bind_error hhead] at hheaders
      have hbreaks : ChainBreaks v site start := by
        intro url hurl
        rw [hv] at hurl
        cases hurl
      rw [hfetch, hheaders]
      refine ⟨[], ?_, ?_, Nat.zero_le _, by simp, .nil, fun _ => ⟨⟨e, rfl⟩, e, rfl⟩, fun h => absurd hbreaks h⟩
      · rw [hw₁, List.append_nil]
      · rw [hw₂, List.append_nil]
  | ok first =>
      rw [hv] at hget hhead
      obtain ⟨us, final, hwalk⟩ := exists_walk v site config.maxRedirects first
      obtain ⟨rget, w₃, hfetch, hw₃, hgetEnds⟩ := fetchLoop_run hserves start hwalk (Nat.zero_add _) w₁
      obtain ⟨rhead, w₄, hloop, hw₄, hheadEnds⟩ := headLoop_run hserves start hwalk 0 w₂
      have hfetch : fetchPage net config start w = (rget, w₃) := (Prog.bind_ok hget).trans hfetch
      rw [Prog.bind_ok hhead, hloop] at hheaders
      have hbreaks : ChainBreaks v site start ↔ final = none := by
        constructor
        · intro h
          exact hwalk.final_eq_none (h first hv)
        · intro hnone url hurl
          obtain rfl := Except.ok.inj (hv.symm.trans hurl)
          exact hwalk.breaks hnone
      rw [hfetch, hheaders, hbreaks]
      refine ⟨us, ?_, ?_, hwalk.length_le, ?_, hwalk.isChain, ?_, ?_⟩
      · rw [hw₃, hw₁]
      · rw [hw₄, hw₂]
      · intro url hurl
        rw [hwalk.head_eq url hurl]
      · rintro rfl
        exact ⟨hgetEnds, hheadEnds⟩
      · intro hsome
        obtain ⟨last, rfl⟩ := Option.ne_none_iff_exists'.mp hsome
        obtain ⟨hstops, hlast⟩ := hwalk.stopsAt rfl
        refine ⟨first, last, rfl, hstops, hlast, hheadEnds, hgetEnds.fails_iff, ?_⟩
        rintro page rfl
        exact hgetEnds.finalUrl

end Simulation

/-! ## A steady network -/

/-- A program that ends the same way from every state. -/
def Fixed {α : Type} (m : NetM α) : Prop := ∀ w w', (m w).1 = (m w').1

namespace Fixed

variable {α β : Type}

theorem pure (a : α) : Fixed (Pure.pure a) := fun _ _ => rfl

theorem fail (e : WebSearchError) : Fixed (Prog.fail e : NetM α) := fun _ _ => rfl

theorem ofExcept (r : Result α) : Fixed (Prog.ofExcept r) := fun _ _ => rfl

theorem bind {m : NetM α} {f : α → NetM β} (hm : Fixed m) (hf : ∀ a, Fixed (f a)) : Fixed (m >>= f) := by
  intro w w'
  have hsame := hm w w'
  rcases h : m w with ⟨r, w₁⟩
  rcases h' : m w' with ⟨r', w₂⟩
  rw [h, h'] at hsame
  obtain rfl : r = r' := hsame
  cases r with
  | error e => rw [Prog.bind_error h, Prog.bind_error h']
  | ok a =>
      rw [Prog.bind_ok h, Prog.bind_ok h']
      exact hf a w₁ w₂

theorem lookupHost {net : Net} (hsteady : net.Steady) (domain : Text) (port : UInt16) :
    Fixed (McpWebSearch.lookupHost net domain port) :=
  fun w w' => congrArg Except.ok (hsteady w.lookups w'.lookups domain port)

theorem checkUrl {net : Net} (hsteady : net.Steady) (raw : Text) (allowPrivate : Bool) :
    Fixed (McpWebSearch.checkUrl net raw allowPrivate) := by
  apply bind (ofExcept _)
  intro url
  cases allowPrivate with
  | true => exact pure url
  | false => exact bind (checkHostAsync_steady hsteady rfl) fun _ => pure url

theorem clientFor {net : Net} (hsteady : net.Steady) (config : Config) (url : Url) :
    Fixed (McpWebSearch.clientFor net config url) := by
  unfold McpWebSearch.clientFor buildPinnedClient
  cases url.host with
  | none => exact pure _
  | some host =>
      cases host with
      | ipv4 ip => exact pure _
      | ipv6 ip => exact pure _
      | domain domain =>
          dsimp only
          split
          · refine bind (bind (lookupHost hsteady domain _) fun r => ?_) fun c => pure _
            cases r with
            | error e => exact fail _
            | ok addrs => exact bind (ofExcept _) fun _ => ofExcept _
          · exact pure _

end Fixed

/-- With a steady DNS the verdicts do not change. -/
def Net.Steady.verdicts {net : Net} (hsteady : net.Steady) (config : Config) : Verdicts net config where
  validate raw := (validateUrl net raw config.allowPrivateHosts World.initial).1
  client url := (clientFor net config url World.initial).1
  validate_eq raw w := by
    rw [validateUrl_fst, validateUrl_fst]
    exact Fixed.checkUrl hsteady raw _ w World.initial
  client_eq url w := Fixed.clientFor hsteady config url w World.initial

/-- A site of two URLs, of which the first redirects to the second. -/
def relayNet : Net where
  urls :=
    let first : Url := ⟨"http://1.1.1.1/a", "http", some (.ipv4 ⟨1, 1, 1, 1⟩), some 80⟩
    let second : Url := ⟨"http://1.1.1.1/b", "http", some (.ipv4 ⟨1, 1, 1, 1⟩), some 80⟩
    let parse (raw : Text) : Except Text Url :=
      if raw = first.asStr then .ok first
      else if raw = second.asStr then .ok second
      else .error "relative URL without a base"
    ⟨parse, fun _ _ => .ok second⟩
  lookupHost _ _ port := .ok [⟨.v4 ⟨93, 184, 216, 34⟩, port⟩]
  build _ := .ok ()
  connects _ := documentedConnects
  send _ _ _ url :=
    if url.asStr = "http://1.1.1.1/a".toList then .received ⟨302, [("location", bytes "/b")], []⟩ else .received ⟨404, [], []⟩
  canonicalReason _ := none

/-- Its answers. -/
def relaySite (maxBytes : Nat) : Site maxBytes where
  answer url := if url.asStr = "http://1.1.1.1/a".toList then ⟨302, [("location", bytes "/b")], []⟩ else ⟨404, [], []⟩
  readable url := by
    split
    · exact ⟨_, rfl⟩
    · exact ⟨_, rfl⟩

theorem relayNet_serves (maxBytes : Nat) : relayNet.Serves (relaySite maxBytes) := by
  intro n client method url
  show (if url.asStr = "http://1.1.1.1/a".toList then _ else _) = Sent.received (if _ then _ else _)
  split
  · rfl
  · rfl

/-- One redirect to a page that is not found. -/
theorem redirect_walks_agree_relay :
    requested (fetchPage relayNet (Config.default ⟨4, fun _ => .error [], fun _ => []⟩) "http://1.1.1.1/a"
        World.initial).2 =
      requested (Actions.webFetchHeaders relayNet (Config.default ⟨4, fun _ => .error [], fun _ => []⟩)
        (some (.object [("url", .string "http://1.1.1.1/a")])) World.initial).2 := by
  have hsteady : relayNet.Steady := fun _ _ _ _ => rfl
  obtain ⟨us, hget, hhead, -⟩ := redirect_walks_agree relayNet (Config.default ⟨4, fun _ => .error [], fun _ => []⟩)
    (relaySite _) (relayNet_serves _) (hsteady.verdicts _) (some (.object [("url", .string "http://1.1.1.1/a")]))
    "http://1.1.1.1/a" rfl World.initial World.initial
  exact hget.trans hhead.symm

end McpWebSearch
