import McpWebSearch.Correctness.Pinning

/-!
# `Correctness.Answers` — what a caller can tell of the answers of the DNS

An answer with a blocked address is refused by both address checks with one text, which names the domain and nothing of
the answer (`checkAddrs_blocked`, `checkPinned_blocked`). So two networks whose answers differ in such answers only run
alike (`Alike`): each program below is the same function of the world on both, by one lemma for a lookup with what
follows it (`lookup_bind_eq`).
-/

namespace McpWebSearch

open Utf8 Prog

/-- An answer with a blocked address in it. -/
def BlockedAnswer (answer : Except Text (List SocketAddr)) : Prop :=
  ∃ addrs, answer = .ok addrs ∧ ∃ addr ∈ addrs, Rejects (validateIp addr.ip false)

/-- The connection is to an IP literal or to an override; any other address the connector looks up by itself. -/
def Determined (client : Client) (url : Url) : Prop :=
  ∀ domain, url.host = some (.domain domain) → (client.overrides.lookup domain).isSome = true

/-- Two networks that differ in blocked answers of the DNS, and in what the connector looks up by itself. A lookup that
    succeeds has an address, as documented. -/
structure Alike (net₁ net₂ : Net) : Prop where
  urls : net₁.urls = net₂.urls
  lookupHost : ∀ n domain port, net₁.lookupHost n domain port = net₂.lookupHost n domain port ∨
    BlockedAnswer (net₁.lookupHost n domain port) ∧ BlockedAnswer (net₂.lookupHost n domain port)
  lookup_ne_nil : ∀ n domain port, net₁.lookupHost n domain port ≠ .ok []
  build : net₁.build = net₂.build
  connects : ∀ n client url, Determined client url → net₁.connects n client url = net₂.connects n client url
  send : ∀ n client method url, Determined client url → net₁.send n client method url = net₂.send n client method url
  canonicalReason : net₁.canonicalReason = net₂.canonicalReason

/-! ## The two address checks -/

/-- **The pinning check on a blocked answer**: wherever the address is and whichever it is. -/
theorem checkPinned_blocked {addrs : List SocketAddr} (h : ∃ addr ∈ addrs, Rejects (validateIp addr.ip false))
    (domain : Text) : checkPinned domain false addrs = .error (nonPublicDomain domain) := by
  induction addrs with
  | nil =>
      obtain ⟨addr, hmem, -⟩ := h
      cases hmem
  | cons a addrs ih =>
      rw [checkPinned]
      cases hip : validateIp a.ip false with
      | error e => rfl
      | ok u =>
          obtain ⟨addr, hmem, hrejects⟩ := h
          rcases List.mem_cons.mp hmem with rfl | hmem
          · rw [hip] at hrejects
            exact absurd hrejects not_rejects_ok
          · exact ih ⟨addr, hmem, hrejects⟩

/-- **`check_addrs` on a blocked answer**. -/
theorem checkAddrs_blocked {addrs : List SocketAddr} (h : ∃ addr ∈ addrs, Rejects (validateIp addr.ip false))
    (domain : Text) : checkAddrs addrs domain = .error (nonPublicDomain domain) := by
  cases addrs with
  | nil =>
      obtain ⟨addr, hmem, -⟩ := h
      cases hmem
  | cons a addrs => rw [checkAddrs, checkAddrsLoop_cons checkAddrsLoop_true, checkPinned_blocked h]

/-! ## One lookup -/

section Run

variable {net₁ net₂ : Net} {config : Config} {α : Type}

/-- **A lookup and what follows it**, where that does not look at a blocked answer. -/
theorem lookup_bind_eq (h : Alike net₁ net₂) {f g : Except Text (List SocketAddr) → NetM α} (hsame : ∀ r, f r = g r)
    (hblocked : ∀ r r', BlockedAnswer r → BlockedAnswer r' → f r = g r') (domain : Text) (port : UInt16) :
    lookupHost net₁ domain port >>= f = lookupHost net₂ domain port >>= g := by
  funext w
  have hrun (net : Net) : lookupHost net domain port w = (.ok (net.lookupHost w.lookups domain port),
      { w with lookups := w.lookups + 1, trace := w.trace ++ [.lookup domain port] }) := rfl
  rw [bind_ok (hrun net₁), bind_ok (hrun net₂)]
  rcases h.lookupHost w.lookups domain port with heq | ⟨h₁, h₂⟩
  · rw [heq, hsame]
  · rw [hblocked _ _ h₁ h₂]

theorem checkHostAsync_eq (h : Alike net₁ net₂) (url : Url) : checkHostAsync net₁ url = checkHostAsync net₂ url := by
  unfold checkHostAsync
  cases url.host with
  | none => rfl
  | some host =>
      cases host with
      | ipv4 ip => rfl
      | ipv6 ip => rfl
      | domain domain =>
          apply lookup_bind_eq h
          · exact fun r => rfl
          · rintro r r' ⟨addrs, rfl, hblocked⟩ ⟨addrs', rfl, hblocked'⟩
            dsimp only
            rw [checkAddrs_blocked hblocked, checkAddrs_blocked hblocked']

theorem validateUrl_eq (h : Alike net₁ net₂) (raw : Text) (allowPrivate : Bool) :
    validateUrl net₁ raw allowPrivate = validateUrl net₂ raw allowPrivate := by
  unfold validateUrl checkUrl
  simp only [checkHostAsync_eq h, h.urls]

theorem buildPinnedClient_alike (h : Alike net₁ net₂) (hpriv : config.allowPrivateHosts = false) (url : Url) :
    buildPinnedClient net₁ config url = buildPinnedClient net₂ config url := by
  unfold buildPinnedClient
  cases url.host with
  | none => rfl
  | some host =>
      cases host with
      | ipv4 ip => rfl
      | ipv6 ip => rfl
      | domain domain =>
          have hfinish : finishBuild net₁ = finishBuild net₂ := by
            unfold finishBuild
            rw [h.build]
          apply lookup_bind_eq h
          · intro r
            rw [hfinish]
          · rintro r r' ⟨addrs, rfl, hblocked⟩ ⟨addrs', rfl, hblocked'⟩
            dsimp only
            rw [hpriv, checkPinned_blocked hblocked, checkPinned_blocked hblocked']
            rfl

theorem clientFor_eq (h : Alike net₁ net₂) (hpriv : config.allowPrivateHosts = false) (url : Url) :
    clientFor net₁ config url = clientFor net₂ config url := by
  unfold clientFor
  rw [buildPinnedClient_alike h hpriv]

/-! ## Requests -/

/-- With pinning, no address is left to the connector. -/
theorem clientFor_determined (hnil : ∀ n domain port, net₁.lookupHost n domain port ≠ .ok [])
    (hpin : config.dnsPin = true) {url : Url} {w w' : World} {client : ClientOrPinned}
    (hrun : clientFor net₁ config url w = (.ok client, w')) : Determined client.asRef url := by
  intro domain hhost
  unfold clientFor at hrun
  rw [hhost] at hrun
  dsimp only at hrun
  rw [if_pos hpin] at hrun
  rcases hbuild : buildPinnedClient net₁ config url w with ⟨r, w₁⟩
  cases r with
  | error e =>
      rw [bind_error hbuild] at hrun
      cases hrun
  | ok c =>
      rw [bind_ok hbuild] at hrun
      obtain rfl : ClientOrPinned.pinned c = client := Except.ok.inj (Prod.mk.inj hrun).1
      cases hlookup : net₁.lookupHost w.lookups domain (url.portOrKnownDefault.getD 0) with
      | error e =>
          unfold buildPinnedClient lookupHost at hbuild
          simp [hhost, bind, Prog.observe, Prog.change, pure, hlookup, Prog.fail] at hbuild
      | ok addrs =>
          have hbuilt := @buildPinnedClient_eq net₁ config url domain w addrs hhost hlookup
          rw [hbuild] at hbuilt
          cases hcheck : checkPinned domain config.allowPrivateHosts addrs with
          | error e =>
              rw [hcheck] at hbuilt
              cases hbuilt
          | ok u =>
              rw [hcheck] at hbuilt
              rw [finishBuild_ok hbuilt.symm]
              have hne : addrs ≠ [] := by
                rintro rfl
                exact hnil _ _ _ hlookup
              show ((pinAll domain Client.shared addrs).overrides.lookup domain).isSome = true
              rw [pinAll_lookup_eq, List.getLast?_eq_some_getLast hne]
              rfl

theorem sendRequest_eq (h : Alike net₁ net₂) {client : Client} {url : Url} (hdetermined : Determined client url)
    (method : Method) : sendRequest net₁ client method url = sendRequest net₂ client method url := by
  unfold sendRequest
  simp only [h.connects _ _ _ hdetermined, h.send _ _ _ _ hdetermined]

/-- **A hop**: pick a client and send on it, with the same to follow. -/
theorem hop_eq (h : Alike net₁ net₂) (hpin : config.dnsPin = true) (hpriv : config.allowPrivateHosts = false)
    {f g : Sent → NetM α} (hfg : ∀ sent, f sent = g sent) (method : Method) (url : Url) :
    (do let client ← clientFor net₁ config url
        let sent ← sendRequest net₁ client.asRef method url
        f sent) =
      (do let client ← clientFor net₂ config url
          let sent ← sendRequest net₂ client.asRef method url
          g sent) := by
  rw [← clientFor_eq h hpriv url, funext hfg]
  apply bind_congr_of_run
  intro w client w' hrun
  rw [sendRequest_eq h (clientFor_determined h.lookup_ne_nil hpin hrun)]

theorem fetchLoop_eq (h : Alike net₁ net₂) (hpin : config.dnsPin = true) (hpriv : config.allowPrivateHosts = false)
    (start : Text) (left hop : Nat) (current : Url) :
    fetchLoop net₁ config start left hop current = fetchLoop net₂ config start left hop current := by
  induction left generalizing hop current with
  | zero => rfl
  | succ left ih =>
      rw [fetchLoop, fetchLoop]
      apply hop_eq h hpin hpriv
      intro sent
      simp only [validateUrl_eq h, h.urls, ih]

/-- `fetch_page` runs alike. -/
theorem fetchPage_eq (h : Alike net₁ net₂) (hpin : config.dnsPin = true) (hpriv : config.allowPrivateHosts = false)
    (start : Text) : fetchPage net₁ config start = fetchPage net₂ config start := by
  unfold fetchPage
  rw [validateUrl_eq h]
  exact bind_congr fun current => fetchLoop_eq h hpin hpriv start _ 0 current

/-- `check_one_link` runs alike; it puts the error texts of both checks into its line. -/
theorem checkOneLink_eq (h : Alike net₁ net₂) (hpin : config.dnsPin = true) (hpriv : config.allowPrivateHosts = false)
    (url : Text) : Actions.checkOneLink net₁ config url = Actions.checkOneLink net₂ config url := by
  unfold Actions.checkOneLink
  rw [validateUrl_eq h]
  apply bind_congr
  rintro (e | current)
  · rfl
  · dsimp only
    rw [← clientFor_eq h hpriv current]
    apply bind_congr_of_run
    rintro w (e | client) w' hrun
    · rfl
    · have hpicked : clientFor net₁ config current w = (.ok client, w') := by
        rcases hclient : clientFor net₁ config current w with ⟨r, w₁⟩
        rw [attempt_of_run hclient] at hrun
        obtain ⟨hr, rfl⟩ := Prod.mk.inj hrun
        rw [Except.ok.inj hr]
      have hline : Actions.linkLine net₁ = Actions.linkLine net₂ := by
        unfold Actions.linkLine
        rw [h.canonicalReason]
      dsimp only
      rw [sendRequest_eq h (clientFor_determined h.lookup_ne_nil hpin hpicked), hline]

/-- **Answers for internal hosts do not leak**, with the guard on: on two networks whose answers differ in blocked ones
    only, `validate_url` and `client_for` do the same, results, error texts and all, and with pinning so do `fetch_page`
    and `check_one_link`; the error of a blocked answer is the same for all of them. -/
theorem dns_answers_hidden (net₁ net₂ : Net) (config : Config) (h : Alike net₁ net₂)
    (hpriv : config.allowPrivateHosts = false) :
    (∀ raw, validateUrl net₁ raw config.allowPrivateHosts = validateUrl net₂ raw config.allowPrivateHosts) ∧
      (∀ url, clientFor net₁ config url = clientFor net₂ config url) ∧
      (config.dnsPin = true → ∀ url, fetchPage net₁ config url = fetchPage net₂ config url ∧
        Actions.checkOneLink net₁ config url = Actions.checkOneLink net₂ config url) ∧
      ∀ domain addrs, (∃ addr ∈ addrs, Rejects (validateIp addr.ip false)) →
        checkAddrs addrs domain = .error (nonPublicDomain domain) ∧
          checkPinned domain config.allowPrivateHosts addrs = .error (nonPublicDomain domain) := by
  refine ⟨?_, ?_, ?_, ?_⟩
  · exact fun raw => validateUrl_eq h raw _
  · exact fun url => clientFor_eq h hpriv url
  · exact fun hpin url => ⟨fetchPage_eq h hpin hpriv url, checkOneLink_eq h hpin hpriv url⟩
  · intro domain addrs hblocked
    rw [hpriv]
    exact ⟨checkAddrs_blocked hblocked domain, checkPinned_blocked hblocked domain⟩

end Run

/-! ## Networks for the examples -/

/-- A network with one site, whose lookups are all answered by the address. What the connector looks up by itself leads
    to a server with the reply `unpinned`; there is no other server. -/
def oneSite (addr : Ipv4Addr) (unpinned : Sent) : Net where
  urls := ⟨fun raw => .ok ⟨raw, "http", some (.domain "site.example"), some 80⟩, fun _ link =>
    .ok ⟨link, "http", some (.domain "site.example"), some 80⟩⟩
  lookupHost _ _ port := .ok [⟨.v4 addr, port⟩]
  build _ := .ok ()
  connects _ := documentedConnects
  send _ client _ url :=
    match url.host with
    | some (.domain domain) => if (client.overrides.lookup domain).isSome then .elapsed else unpinned
    | _ => .elapsed
  canonicalReason _ := none

/-- Two such networks run alike if their answers are the same or both blocked. -/
theorem alike_oneSite {a b : Ipv4Addr}
    (h : a = b ∨ Rejects (validateIp (.v4 a) false) ∧ Rejects (validateIp (.v4 b) false)) (unpinned unpinned' : Sent) :
    Alike (oneSite a unpinned) (oneSite b unpinned') where
  urls := rfl
  lookupHost n domain port := by
    rcases h with rfl | ⟨ha, hb⟩
    · exact .inl rfl
    · exact .inr ⟨⟨_, rfl, _, List.mem_cons_self, ha⟩, ⟨_, rfl, _, List.mem_cons_self, hb⟩⟩
  lookup_ne_nil _ _ _ h := by cases h
  build := rfl
  connects _ _ _ _ := rfl
  send n client method url hdetermined := by
    unfold oneSite
    dsimp only
    cases hhost : url.host with
    | none => rfl
    | some host =>
        cases host with
        | ipv4 ip => rfl
        | ipv6 ip => rfl
        | domain domain =>
            dsimp only
            rw [if_pos (hdetermined domain hhost), if_pos (hdetermined domain hhost)]
  canonicalReason := rfl

/-- The default configuration. -/
def guarded : Config := Config.default ⟨4, fun _ => .error [], fun _ => []⟩

/-- An internal host at either of two addresses. -/
theorem dns_answers_hidden_internal :
    fetchPage (oneSite ⟨10, 0, 0, 1⟩ .elapsed) guarded "http://site.example/" =
      fetchPage (oneSite ⟨192, 168, 0, 7⟩ .elapsed) guarded "http://site.example/" :=
  ((dns_answers_hidden _ _ guarded (alike_oneSite (.inr ⟨⟨_, rfl⟩, ⟨_, rfl⟩⟩) .elapsed .elapsed) rfl).2.2.1 rfl _).1

/-- **Opting out**: with private hosts allowed, the client is pinned to the internal address that was answered; without
    pinning, the page comes from wherever the connector's own lookup leads. -/
theorem dns_answers_opted_out :
    Alike (oneSite ⟨10, 0, 0, 1⟩ .elapsed) (oneSite ⟨10, 0, 0, 2⟩ .elapsed) ∧
      (clientFor (oneSite ⟨10, 0, 0, 1⟩ .elapsed) { guarded with allowPrivateHosts := true }
          ⟨"http://site.example/", "http", some (.domain "site.example"), some 80⟩ World.initial).1 ≠
        (clientFor (oneSite ⟨10, 0, 0, 2⟩ .elapsed) { guarded with allowPrivateHosts := true }
          ⟨"http://site.example/", "http", some (.domain "site.example"), some 80⟩ World.initial).1 ∧
      Alike (oneSite ⟨93, 184, 216, 34⟩ .elapsed) (oneSite ⟨93, 184, 216, 34⟩ (.failed false true [])) ∧
      (fetchPage (oneSite ⟨93, 184, 216, 34⟩ .elapsed) { guarded with dnsPin := false } "http://site.example/"
          World.initial).1 ≠
        (fetchPage (oneSite ⟨93, 184, 216, 34⟩ (.failed false true [])) { guarded with dnsPin := false }
          "http://site.example/" World.initial).1 := by
  refine ⟨alike_oneSite (.inr ⟨⟨_, rfl⟩, ⟨_, rfl⟩⟩) _ _, ?_, alike_oneSite (.inl rfl) _ _, ?_⟩
  · intro h
    have hpins := congrArg (fun r => r.toOption.map fun c => c.asRef.overrides) h
    exact absurd hpins (by decide)
  · intro h
    cases h

end McpWebSearch
