import McpWebSearch.Actions.Fetch
import McpWebSearch.Lib.History

/-!
# `Correctness.Client` — every connection of a fetch goes to a vetted address

What a run does on the network is its trace. `Allowed before e` says which event may follow which trace: a
connection only to an address the guard accepts and for an http(s) URL, a request only for a URL that
`validate_url` has accepted and only as long as it has rejected nothing. `SafeTrace` is every event being
allowed, and each program below keeps it: a URL leaves `validateUrl` `Vetted`, the client `clientFor` picks for
a vetted URL is `SafeFor` it (an IP literal connects to itself, a domain to a pinned address), and only such pairs
are ever sent.

The two DNS lookups of a hop are independent, and so are the answers of different hops: nothing below
compares them.
-/

namespace McpWebSearch

open Utf8 Prog

/-! ## What the network is assumed to do -/

/-- What lies outside the process, as documented: a lookup that succeeds has an address, a request to an IP
    literal connects there, and a request to a domain with an override connects to the override. -/
structure Net.Lawful (net : Net) : Prop where
  lookup_ne_nil : ∀ n domain port, net.lookupHost n domain port ≠ .ok []
  ipv4_literal : ∀ n client url v ip, url.host = some (.ipv4 v) →
    ip ∈ net.connects n client url → ip = .v4 v
  ipv6_literal : ∀ n client url v ip, url.host = some (.ipv6 v) →
    ip ∈ net.connects n client url → ip = .v6 v
  override : ∀ n client url domain addr ip, url.host = some (.domain domain) →
    client.overrides.lookup domain = some addr → ip ∈ net.connects n client url → ip = addr.ip

/-! ## Safe traces -/

/-- The URL is one the server fetches: http or https. -/
def HttpUrl (url : Url) : Prop := url.scheme = "http" ∨ url.scheme = "https"

/-- The event may follow the events `before`. -/
def Allowed (before : List NetEvent) : NetEvent → Prop
  | .connect url ip => validateIp ip false = .ok () ∧ HttpUrl url
  | .request _ url => .accepted url ∈ before ∧ ∀ raw, .rejected raw ∉ before
  | _ => True

/-- Every event of the trace is allowed by those before it. -/
def SafeTrace (trace : List NetEvent) : Prop :=
  ∀ before e after, trace = before ++ e :: after → Allowed before e

theorem SafeTrace.nil : SafeTrace [] := History.atEach_nil

theorem SafeTrace.snoc {trace : List NetEvent} {e : NetEvent} (h : SafeTrace trace)
    (he : Allowed trace e) : SafeTrace (trace ++ [e]) := History.atEach_snoc.mpr ⟨h, he⟩

/-- A run that may go on: its trace is safe and nothing has been rejected. -/
structure Good (w : World) : Prop where
  safe : SafeTrace w.trace
  unrejected : ∀ raw, .rejected raw ∉ w.trace

theorem Good.initial : Good World.initial := ⟨SafeTrace.nil, fun _ => List.not_mem_nil⟩

/-- `P` does not mind another lookup. -/
def LookupStable (P : World → Prop) : Prop :=
  ∀ w domain port, P w → P { w with lookups := w.lookups + 1, trace := w.trace ++ [.lookup domain port] }

theorem Good.lookupStable : LookupStable Good := by
  intro w domain port h
  refine ⟨h.safe.snoc trivial, fun raw hmem => ?_⟩
  rcases List.mem_append.mp hmem with h' | h'
  · exact h.unrejected raw h'
  · exact absurd (List.mem_singleton.mp h') (by simp)

/-- A run that may send a request to `url`. -/
def Ready (url : Url) (w : World) : Prop := Good w ∧ .accepted url ∈ w.trace

theorem Ready.lookupStable (url : Url) : LookupStable (Ready url) :=
  fun w domain port h => ⟨Good.lookupStable w domain port h.1, List.mem_append_left _ h.2⟩

/-! ## Lookups and validation -/

variable {net : Net} {config : Config} {P : World → Prop} {E : WebSearchError → World → Prop}

/-- A lookup keeps what is stable under lookups and returns one of the answers of the DNS. -/
theorem triple_lookupHost (hP : LookupStable P) (domain : Text) (port : UInt16) :
    Triple P (lookupHost net domain port) (fun r w => P w ∧ ∃ n, r = net.lookupHost n domain port) E := by
  intro w hw
  exact ⟨hP w domain port hw, w.lookups, rfl⟩

/-- The URL passed the scheme, host and literal-address checks. -/
def Vetted (url : Url) : Prop :=
  HttpUrl url ∧
    match url.host with
    | some (.ipv4 ip) => guardIpv4 ip = .ok ()
    | some (.ipv6 ip) => guardIpv6 ip = .ok ()
    | some (.domain _) => True
    | none => False

/-- **The scheme and host check**: the URL parses, its scheme is http or https, and it has a host. -/
theorem parseAndCheckSchemeHost_eq_ok_iff {urls : UrlParser} {raw : Text} {url : Url} :
    parseAndCheckSchemeHost urls raw = .ok url ↔ urls.parse raw = .ok url ∧ HttpUrl url ∧ url.host ≠ none := by
  unfold parseAndCheckSchemeHost
  cases hparse : urls.parse raw with
  | error e => simp
  | ok url' =>
      by_cases hscheme : url'.scheme = "http" ∨ url'.scheme = "https"
      · simp only [if_pos hscheme]
        cases hhost : url'.host with
        | none =>
            constructor
            · intro h
              cases h
            · rintro ⟨heq, -, hne⟩
              obtain rfl := Except.ok.inj heq
              exact absurd hhost hne
        | some host =>
            constructor
            · intro h
              obtain rfl := Except.ok.inj h
              exact ⟨rfl, hscheme, by simp [hhost]⟩
            · rintro ⟨heq, -, -⟩
              exact congrArg Except.ok (Except.ok.inj heq)
      · simp only [if_neg hscheme]
        constructor
        · intro h
          cases h
        · rintro ⟨heq, hhttp, -⟩
          obtain rfl := Except.ok.inj heq
          exact absurd hhttp hscheme

/-- The host check keeps what is stable under lookups; a literal host that passes it is guarded. -/
theorem triple_checkHostAsync (hP : LookupStable P) {url : Url} (hhttp : HttpUrl url)
    (hhost : url.host ≠ none) :
    Triple P (checkHostAsync net url) (fun _ w => P w ∧ Vetted url) (fun _ => P) := by
  unfold checkHostAsync Vetted
  cases h : url.host with
  | none => exact absurd h hhost
  | some host =>
      cases host with
      | ipv4 ip => exact Triple.ofExcept (fun _ _ hok hw => ⟨hw, hhttp, hok⟩) (fun _ _ _ hw => hw)
      | ipv6 ip => exact Triple.ofExcept (fun _ _ hok hw => ⟨hw, hhttp, hok⟩) (fun _ _ _ hw => hw)
      | domain domain =>
          refine Triple.bind (triple_lookupHost hP domain 0) (fun r => ?_)
          cases r with
          | error e => exact Triple.fail (fun w hw => hw.1)
          | ok addrs =>
              exact Triple.ofExcept (fun _ w _ hw => ⟨hw.1, hhttp, trivial⟩) (fun _ w _ hw => hw.1)

theorem triple_checkUrl (hP : LookupStable P) (raw : Text) :
    Triple P (checkUrl net raw false) (fun url w => P w ∧ Vetted url) (fun _ => P) := by
  refine Triple.bind (Q := fun url w => P w ∧ HttpUrl url ∧ url.host ≠ none) ?_ ?_
  · refine Triple.ofExcept ?_ (fun _ _ _ hw => hw)
    intro url w hok hw
    exact ⟨hw, (parseAndCheckSchemeHost_eq_ok_iff.mp hok).2⟩
  · intro url
    refine Triple.of_pre (fun hurl => ?_)
    rw [if_neg Bool.false_ne_true]
    refine Triple.bind (triple_checkHostAsync hP hurl.1 hurl.2) (fun _ => ?_)
    exact Triple.pure (fun _ hw => hw)

/-- **`validate_url`** leaves a vetted URL on record as accepted, or a safe trace. -/
theorem triple_validateUrl (raw : Text) :
    Triple Good (validateUrl net raw false) (fun url w => Ready url w ∧ Vetted url)
      (fun _ w => SafeTrace w.trace) := by
  refine Triple.bind (Triple.attempt (triple_checkUrl Good.lookupStable raw)) (fun r => ?_)
  cases r with
  | ok url =>
      refine Triple.bind (Q := fun _ w => Ready url w ∧ Vetted url) ?_ (fun _ => Triple.pure (fun _ hw => hw))
      refine Triple.change (fun w hw => ?_)
      obtain ⟨hgood, hvetted⟩ := hw
      refine ⟨⟨⟨hgood.safe.snoc trivial, fun raw hmem => ?_⟩, by simp⟩, hvetted⟩
      rcases List.mem_append.mp hmem with h' | h'
      · exact hgood.unrejected raw h'
      · exact absurd (List.mem_singleton.mp h') (by simp)
  | error e =>
      refine Triple.bind (Q := fun _ w => SafeTrace w.trace) ?_ (fun _ => Triple.fail (fun _ hw => hw))
      exact Triple.change (fun w hw => hw.safe.snoc trivial)

/-! ## Choosing a client and sending -/

/-- Whatever the client connects to for this URL, the guard accepts it. -/
def SafeFor (net : Net) (client : ClientOrPinned) (url : Url) : Prop :=
  ∀ n ip, ip ∈ net.connects n client.asRef url → validateIp ip false = .ok ()

/-- The pinning check passes when every address does. -/
theorem checkPinned_eq_ok_iff {domain : Text} {allowPrivate : Bool} {addrs : List SocketAddr} :
    checkPinned domain allowPrivate addrs = .ok () ↔ ∀ addr ∈ addrs, validateIp addr.ip allowPrivate = .ok () := by
  induction addrs with
  | nil => simp [checkPinned]
  | cons a addrs ih =>
      rw [List.forall_mem_cons, checkPinned]
      cases ha : validateIp a.ip allowPrivate with
      | error e => simp
      | ok u => simpa using ih

/-- Each round of the builder loop replaces the override of the round before. -/
theorem pinAll_lookup_eq {domain : Text} {addrs : List SocketAddr} (builder : Client) :
    (pinAll domain builder addrs).overrides.lookup domain =
      addrs.getLast?.or (builder.overrides.lookup domain) := by
  induction addrs using List.reverseRecOn with
  | nil => rfl
  | append_singleton addrs a ih =>
      simp [pinAll, Client.resolve]

theorem finishBuild_ok {builder client : Client} (h : finishBuild net builder = .ok client) :
    client = builder := by
  unfold finishBuild at h
  cases hbuild : net.build builder with
  | error e =>
      rw [hbuild] at h
      cases h
  | ok u =>
      rw [hbuild] at h
      exact (Except.ok.inj h).symm

/-- **`build_pinned_client`** pins the domain to an address that passed the guard. -/
theorem triple_buildPinnedClient (hnet : net.Lawful) (hpriv : config.allowPrivateHosts = false)
    (hP : LookupStable P) {url : Url} {domain : Text} (hhost : url.host = some (.domain domain)) :
    Triple P (buildPinnedClient net config url) (fun c w => P w ∧ SafeFor net (.pinned c) url)
      (fun _ => P) := by
  unfold buildPinnedClient
  rw [hhost]
  refine Triple.bind (triple_lookupHost hP domain _) (fun r => ?_)
  cases r with
  | error e => exact Triple.fail (fun w hw => hw.1)
  | ok addrs =>
      refine Triple.bind (Q := fun _ w => P w ∧ addrs ≠ [] ∧ checkPinned domain false addrs = .ok ())
        ?_ (fun _ => ?_)
      · refine Triple.ofExcept ?_ (fun _ w _ hw => hw.1)
        -- the answer is that of some lookup, whichever: it is not the one `validate_url` saw
        rintro u w hok ⟨hw, n, hn⟩
        refine ⟨hw, ?_, by rw [← hpriv]; exact hok⟩
        rintro rfl
        exact hnet.lookup_ne_nil n domain _ hn.symm
      · refine Triple.of_pre (fun haddrs => ?_)
        refine Triple.ofExcept ?_ (fun _ _ _ hw => hw)
        intro c w hok hw
        obtain rfl := finishBuild_ok hok
        refine ⟨hw, fun n ip hip => ?_⟩
        have hlookup : (pinAll domain Client.shared addrs).overrides.lookup domain =
            some (addrs.getLast haddrs.1) := by
          rw [pinAll_lookup_eq, List.getLast?_eq_some_getLast haddrs.1]
          rfl
        rw [hnet.override n _ url domain _ ip hhost hlookup hip]
        exact checkPinned_eq_ok_iff.mp haddrs.2 _ (List.getLast_mem haddrs.1)

/-- **`client_for`** picks a client that is safe for a vetted URL. -/
theorem triple_clientFor (hnet : net.Lawful) (hpin : config.dnsPin = true)
    (hpriv : config.allowPrivateHosts = false) (hP : LookupStable P) {url : Url} (hurl : Vetted url) :
    Triple P (clientFor net config url) (fun c w => P w ∧ SafeFor net c url) (fun _ => P) := by
  obtain ⟨-, hvetted⟩ := hurl
  unfold clientFor
  cases hhost : url.host with
  | none =>
      rw [hhost] at hvetted
      exact hvetted.elim
  | some host =>
      rw [hhost] at hvetted
      cases host with
      -- a domain connects to a pinned address, a literal to itself on the shared client
      | domain domain =>
          rw [if_pos hpin]
          exact Triple.bind (triple_buildPinnedClient hnet hpriv hP hhost)
            (fun c => Triple.pure (fun w hw => hw))
      | ipv4 v =>
          refine Triple.pure (fun w hw => ⟨hw, fun n ip hip => ?_⟩)
          rw [hnet.ipv4_literal n _ url v ip hhost hip]
          exact hvetted
      | ipv6 v =>
          refine Triple.pure (fun w hw => ⟨hw, fun n ip hip => ?_⟩)
          rw [hnet.ipv6_literal n _ url v ip hhost hip]
          exact hvetted

/-- Connections that are all allowed keep a trace safe. -/
theorem SafeTrace.connects {url : Url} {ips : List IpAddr} {trace : List NetEvent}
    (hsafe : SafeTrace trace) (hurl : HttpUrl url) (hips : ∀ ip ∈ ips, validateIp ip false = .ok ()) :
    SafeTrace (trace ++ ips.map (.connect url)) := by
  induction ips generalizing trace with
  | nil => simpa using hsafe
  | cons ip ips ih =>
      rw [List.map_cons, ← List.singleton_append, ← List.append_assoc]
      refine ih (hsafe.snoc ⟨hips ip List.mem_cons_self, hurl⟩) (fun ip' hmem => ?_)
      exact hips ip' (List.mem_cons_of_mem ip hmem)

/-- **Sending** an accepted, vetted URL on a client that is safe for it keeps the run good. -/
theorem triple_sendRequest {client : ClientOrPinned} {method : Method} {url : Url}
    (hurl : Vetted url) (hclient : SafeFor net client url) :
    Triple (Ready url) (sendRequest net client.asRef method url) (fun _ => Good) E := by
  intro w hw
  show Good _
  obtain ⟨hgood, hacc⟩ := hw
  constructor
  · show SafeTrace (w.trace ++ .request method url :: _)
    rw [← List.singleton_append, ← List.append_assoc]
    -- the request first, then its connections
    have hrequest : Allowed w.trace (.request method url) := ⟨hacc, hgood.unrejected⟩
    exact (hgood.safe.snoc hrequest).connects hurl.1 (fun ip => hclient w.requests ip)
  · intro raw hmem
    rcases List.mem_append.mp hmem with h | h
    · exact hgood.unrejected raw h
    · simp at h

/-! ## The three programs -/

/-- One hop: pick a client for a vetted URL and send. -/
theorem triple_hop (hnet : net.Lawful) (hpin : config.dnsPin = true)
    (hpriv : config.allowPrivateHosts = false) {α : Type} {url : Url} {method : Method}
    {f : Sent → NetM α} {Q : α → World → Prop} (hurl : Vetted url)
    (hf : ∀ sent, Triple Good (f sent) Q (fun _ w => SafeTrace w.trace)) :
    Triple (Ready url) (clientFor net config url >>= fun client =>
      sendRequest net client.asRef method url >>= f) Q (fun _ w => SafeTrace w.trace) := by
  have hpick : Triple (Ready url) (clientFor net config url)
      (fun c w => Ready url w ∧ SafeFor net c url) (fun _ w => SafeTrace w.trace) :=
    (triple_clientFor hnet hpin hpriv (Ready.lookupStable url) hurl).imp (fun _ hw => hw)
      (fun _ _ hw => hw) (fun _ _ hw => hw.1.safe)
  refine Triple.bind hpick (fun client => ?_)
  refine Triple.of_pre (fun hclient => ?_)
  exact Triple.bind (triple_sendRequest hurl hclient) hf

/-- A check that does not touch the network keeps the run good. -/
theorem triple_ofExcept {α : Type} (r : Result α) :
    Triple Good (ofExcept r) (fun _ => Good) (fun _ w => SafeTrace w.trace) :=
  Triple.ofExcept (fun _ _ _ hw => hw) (fun _ _ _ hw => hw.safe)

/-- A redirect: what goes on from its target may take it for vetted. -/
theorem triple_redirect (hpriv : config.allowPrivateHosts = false) {α : Type} {hop : Nat} {current : Url}
    {resp : HttpResponse} {f : Url → NetM α} {Q : α → World → Prop}
    (hf : ∀ url, Vetted url → Triple (Ready url) (f url) Q (fun _ w => SafeTrace w.trace)) :
    Triple Good (ofExcept (redirectTarget net.urls hop current resp) >>= fun next =>
      validateUrl net next.asStr config.allowPrivateHosts >>= f) Q (fun _ w => SafeTrace w.trace) := by
  refine Triple.bind (triple_ofExcept _) (fun next => ?_)
  rw [hpriv]
  refine Triple.bind (triple_validateUrl next.asStr) (fun url => ?_)
  exact Triple.of_pre (hf url)

/-- **Run lemma of `fetch_page`**, by induction on the hops left. -/
theorem triple_fetchLoop (hnet : net.Lawful) (hpin : config.dnsPin = true)
    (hpriv : config.allowPrivateHosts = false) (start : Text) (left hop : Nat) {current : Url}
    (hurl : Vetted current) :
    Triple (Ready current) (fetchLoop net config start left hop current) (fun _ => Good)
      (fun _ w => SafeTrace w.trace) := by
  induction left generalizing hop current with
  | zero => exact Triple.fail (fun w hw => hw.1.safe)
  | succ left ih =>
      refine triple_hop hnet hpin hpriv hurl (fun sent => ?_)
      refine Triple.bind (triple_ofExcept _) (fun resp => ?_)
      by_cases hredir : resp.isRedirection = true
      · rw [if_pos hredir]
        by_cases hhop : hop = config.maxRedirects
        · rw [if_pos hhop]
          exact Triple.fail (fun w hw => hw.safe)
        · rw [if_neg hhop]
          exact triple_redirect hpriv (fun url hvetted => ih (hop + 1) hvetted)
      · rw [if_neg hredir]
        by_cases hok : resp.isSuccess = true
        · rw [hok]
          exact Triple.bind (triple_ofExcept _) (fun body => Triple.pure (fun _ hw => hw))
        · rw [Bool.not_eq_true _ |>.mp hok]
          exact Triple.fail (fun w hw => hw.safe)

theorem triple_fetchPage (hnet : net.Lawful) (hpin : config.dnsPin = true)
    (hpriv : config.allowPrivateHosts = false) (start : Text) :
    Triple Good (fetchPage net config start) (fun _ => Good) (fun _ w => SafeTrace w.trace) := by
  unfold fetchPage
  rw [hpriv]
  refine Triple.bind (triple_validateUrl start) (fun url => ?_)
  exact Triple.of_pre (fun hvetted => triple_fetchLoop hnet hpin hpriv start _ 0 hvetted)

/-- **Run lemma of `web_fetch_headers`**, by induction on the hops left. -/
theorem triple_headLoop (hnet : net.Lawful) (hpin : config.dnsPin = true)
    (hpriv : config.allowPrivateHosts = false) (url : Text) (left hop : Nat) {current : Url}
    (hurl : Vetted current) :
    Triple (Ready current) (Actions.headLoop net config url left hop current) (fun _ => Good)
      (fun _ w => SafeTrace w.trace) := by
  induction left generalizing hop current with
  | zero => exact Triple.fail (fun w hw => hw.1.safe)
  | succ left ih =>
      refine triple_hop hnet hpin hpriv hurl (fun sent => ?_)
      refine Triple.bind (triple_ofExcept _) (fun resp => ?_)
      by_cases hredir : resp.isRedirection = true
      · rw [if_pos hredir]
        exact triple_redirect hpriv (fun url hvetted => ih (hop + 1) hvetted)
      · rw [if_neg hredir]
        exact Triple.pure (fun _ hw => hw)

theorem triple_webFetchHeaders (hnet : net.Lawful) (hpin : config.dnsPin = true)
    (hpriv : config.allowPrivateHosts = false) (args : Option Value) :
    Triple Good (Actions.webFetchHeaders net config args) (fun _ => Good)
      (fun _ w => SafeTrace w.trace) := by
  unfold Actions.webFetchHeaders
  refine Triple.bind (triple_ofExcept _) (fun url => ?_)
  rw [hpriv]
  refine Triple.bind (triple_validateUrl url) (fun current => ?_)
  exact Triple.of_pre (fun hvetted => triple_headLoop hnet hpin hpriv url _ 0 hvetted)

/-- `check_one_link` never fails, and ends in a safe trace. -/
theorem triple_checkOneLink (hnet : net.Lawful) (hpin : config.dnsPin = true)
    (hpriv : config.allowPrivateHosts = false) (url : Text) :
    Triple Good (Actions.checkOneLink net config url) (fun _ w => SafeTrace w.trace)
      (fun _ _ => False) := by
  unfold Actions.checkOneLink
  rw [hpriv]
  refine Triple.bind (Triple.attempt (triple_validateUrl url)) (fun r => ?_)
  cases r with
  | error e => exact Triple.pure (fun w hw => hw)
  | ok current =>
      refine Triple.of_pre (fun hvetted => ?_)
      have hpick := triple_clientFor hnet hpin hpriv (Ready.lookupStable current) hvetted
      refine Triple.bind (Triple.attempt hpick) (fun r => ?_)
      cases r with
      | error e => exact Triple.pure (fun w hw => hw.1.safe)
      | ok client =>
          refine Triple.of_pre (fun hclient => ?_)
          refine Triple.bind (triple_sendRequest hvetted hclient) (fun sent => ?_)
          exact Triple.pure (fun w hw => hw.safe)

/-- **SSRF safety.** With pinning on and private hosts off, against any lawful network, with any DNS answers and
    any replies, every connection of the three programs goes to an address the guard accepts and for an
    http(s) URL, every request is for a URL that was accepted before, and no request follows a rejection. -/
theorem fetches_safe (net : Net) (config : Config) (hnet : net.Lawful) (hpin : config.dnsPin = true)
    (hpriv : config.allowPrivateHosts = false) :
    (∀ start, SafeTrace (fetchPage net config start World.initial).2.trace) ∧
    (∀ args, SafeTrace (Actions.webFetchHeaders net config args World.initial).2.trace) ∧
    (∀ url, SafeTrace (Actions.checkOneLink net config url World.initial).2.trace) := by
  refine ⟨fun start => ?_, fun args => ?_, fun url => ?_⟩
  · exact ((triple_fetchPage hnet hpin hpriv start).imp (fun _ hw => hw)
      (fun _ _ hw => hw.safe) (fun _ _ hw => hw)).final Good.initial
  · exact ((triple_webFetchHeaders hnet hpin hpriv args).imp (fun _ hw => hw)
      (fun _ _ hw => hw.safe) (fun _ _ hw => hw)).final Good.initial
  · exact ((triple_checkOneLink hnet hpin hpriv url).imp (fun _ hw => hw)
      (fun _ _ hw => hw) (fun _ _ hw => hw.elim)).final Good.initial

/-- Connections as documented: to the literal address, or to the override of the domain. -/
def documentedConnects (client : Client) (url : Url) : List IpAddr :=
  match url.host with
  | some (.domain d) => (client.overrides.lookup d).toList.map SocketAddr.ip
  | some (.ipv4 v) => [.v4 v]
  | some (.ipv6 v) => [.v6 v]
  | none => []

/-- A public site that redirects every request to an internal address. -/
def redirectNet : Net where
  urls :=
    let site : Url := ⟨"http://example.com/", "http", some (.domain "example.com"), some 80⟩
    let inside : Url := ⟨"http://10.0.0.1/", "http", some (.ipv4 ⟨10, 0, 0, 1⟩), some 80⟩
    let parse (raw : Text) : Except Text Url :=
      if raw = site.asStr then .ok site
      else if raw = inside.asStr then .ok inside
      else .error "relative URL without a base"
    ⟨parse, fun _ => parse⟩
  lookupHost _ _ port := .ok [⟨.v4 ⟨93, 184, 216, 34⟩, port⟩]
  build _ := .ok ()
  connects _ := documentedConnects
  send _ _ _ _ := .received ⟨302, [("location", bytes "http://10.0.0.1/")], []⟩
  canonicalReason _ := some "Found"

theorem redirectNet_lawful : redirectNet.Lawful where
  lookup_ne_nil n domain port h := by cases h
  ipv4_literal n client url v ip hhost hip := by
    change ip ∈ documentedConnects client url at hip
    simpa [documentedConnects, hhost] using hip
  ipv6_literal n client url v ip hhost hip := by
    change ip ∈ documentedConnects client url at hip
    simpa [documentedConnects, hhost] using hip
  override n client url domain addr ip hhost hlookup hip := by
    change ip ∈ documentedConnects client url at hip
    simpa [documentedConnects, hhost, hlookup] using hip

/-- The redirect is rejected and never requested. -/
theorem fetches_safe_redirectNet :
    SafeTrace [
      .lookup "example.com" 0,
      .accepted ⟨"http://example.com/", "http", some (.domain "example.com"), some 80⟩,
      .lookup "example.com" 80,
      .request .get ⟨"http://example.com/", "http", some (.domain "example.com"), some 80⟩,
      .connect ⟨"http://example.com/", "http", some (.domain "example.com"), some 80⟩
        (.v4 ⟨93, 184, 216, 34⟩),
      .rejected "http://10.0.0.1/"] :=
  (fetches_safe redirectNet (Config.default ⟨4, fun _ => .error [], fun _ => []⟩) redirectNet_lawful
    rfl rfl).1 "http://example.com/"

end McpWebSearch
