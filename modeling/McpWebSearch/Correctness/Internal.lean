import McpWebSearch.Correctness.Answers

/-!
# `Correctness.Internal` — what the network programs can tell of internal hosts

Two networks that differ inside only (`SameOutside`): in DNS answers with a blocked address, and in what the servers at blocked
addresses reply. With the guard and pinning on, the first is hidden by the texts of the address checks (`Correctness.Answers`),
and the second because nothing is ever sent there: each URL a hop starts from is vetted, and the client picked for it
connects to accepted addresses only. So each network program is the same function of the world on both (`RunsAlike`).
-/

namespace McpWebSearch

open Utf8 Prog

/-- The guard accepts whatever the client connects to for the URL. -/
def Outside (net : Net) (n : Nat) (client : Client) (url : Url) : Prop :=
  ∀ ip ∈ net.connects n client url, validateIp ip false = .ok ()

/-- Two networks that differ in blocked answers of the DNS, in what is replied from blocked addresses, and in what the
    connector looks up by itself. -/
structure SameOutside (net₁ net₂ : Net) : Prop where
  urls : net₁.urls = net₂.urls
  lookupHost : ∀ n domain port, net₁.lookupHost n domain port = net₂.lookupHost n domain port ∨
    BlockedAnswer (net₁.lookupHost n domain port) ∧ BlockedAnswer (net₂.lookupHost n domain port)
  build : net₁.build = net₂.build
  connects : ∀ n client url, Determined client url → net₁.connects n client url = net₂.connects n client url
  send : ∀ n client method url, Determined client url → Outside net₁ n client url →
    net₁.send n client method url = net₂.send n client method url
  canonicalReason : net₁.canonicalReason = net₂.canonicalReason

/-- The second network, with the replies of the first. -/
theorem SameOutside.alike {net₁ net₂ : Net} (h : SameOutside net₁ net₂) (hnet : net₁.Lawful) :
    Alike net₁ { net₂ with send := net₁.send } where
  urls := h.urls
  lookupHost := h.lookupHost
  lookup_ne_nil := hnet.lookup_ne_nil
  build := h.build
  connects := h.connects
  send _ _ _ _ _ := rfl
  canonicalReason := h.canonicalReason

/-- Two networks on which the network programs do the same, from every world. -/
structure RunsAlike (config : Config) (net₁ net₂ : Net) : Prop where
  urls : net₁.urls = net₂.urls
  validateUrl : ∀ raw, validateUrl net₁ raw config.allowPrivateHosts = validateUrl net₂ raw config.allowPrivateHosts
  fetchPage : ∀ start, fetchPage net₁ config start = fetchPage net₂ config start
  webFetchHeaders : ∀ args, Actions.webFetchHeaders net₁ config args = Actions.webFetchHeaders net₂ config args
  checkOneLink : ∀ url, Actions.checkOneLink net₁ config url = Actions.checkOneLink net₂ config url

/-! ## What a run leaves -/

section Runs

variable {net : Net} {config : Config} {w w' : World}

/-- A URL that `validate_url` returns is vetted. -/
theorem vetted_of_validateUrl {raw : Text} {url : Url} (hrun : validateUrl net raw false w = (.ok url, w')) : Vetted url := by
  have htriple : Triple (fun _ => True) (validateUrl net raw false) (fun url _ => Vetted url) (fun _ _ => True) := by
    refine Triple.bind (Triple.attempt (triple_checkUrl (P := fun _ => True) (fun _ _ _ _ => trivial) raw)) fun r => ?_
    cases r with
    | ok url =>
        refine Triple.bind (Q := fun _ _ => Vetted url) (Triple.change fun _ hw => hw.2) fun _ => ?_
        exact Triple.pure fun _ hw => hw
    | error e => exact Triple.bind Triple.trivial fun _ => Triple.fail fun _ _ => trivial
  have hend := htriple w trivial
  rw [hrun] at hend
  exact hend

/-- The client picked for a vetted URL connects to accepted addresses only. -/
theorem outside_of_clientFor (hnet : net.Lawful) (hpin : config.dnsPin = true) (hpriv : config.allowPrivateHosts = false)
    {url : Url} (hurl : Vetted url) {client : ClientOrPinned} (hrun : clientFor net config url w = (.ok client, w')) (n : Nat) :
    Outside net n client.asRef url := by
  have hend := triple_clientFor (P := fun _ => True) hnet hpin hpriv (fun _ _ _ _ => trivial) hurl w trivial
  rw [hrun] at hend
  exact hend.2 n

end Runs

/-! ## Network programs -/

section Programs

variable {net₁ net₂ : Net} {config : Config} (h : SameOutside net₁ net₂) (hnet : net₁.Lawful)

include h hnet

theorem validateUrl_outside (raw : Text) (allowPrivate : Bool) : validateUrl net₁ raw allowPrivate = validateUrl net₂ raw allowPrivate :=
  validateUrl_eq (h.alike hnet) raw allowPrivate

variable (hpriv : config.allowPrivateHosts = false)

include hpriv

theorem clientFor_outside (url : Url) : clientFor net₁ config url = clientFor net₂ config url :=
  clientFor_eq (h.alike hnet) hpriv url

/-- What follows `validate_url` may take its URL for vetted. -/
theorem validated_outside {α : Type} {f g : Url → NetM α} (hfg : ∀ url, Vetted url → f url = g url) (raw : Text) :
    validateUrl net₁ raw config.allowPrivateHosts >>= f = validateUrl net₂ raw config.allowPrivateHosts >>= g := by
  rw [← validateUrl_outside h hnet]
  apply bind_congr_of_run
  intro w url w' hrun
  rw [hpriv] at hrun
  rw [hfg url (vetted_of_validateUrl hrun)]

/-- **A redirect**, with the same to follow from every vetted target. -/
theorem redirect_outside {α : Type} {f g : Url → NetM α} (hfg : ∀ url, Vetted url → f url = g url) (hop : Nat) (current : Url)
    (resp : HttpResponse) :
    (ofExcept (redirectTarget net₁.urls hop current resp) >>= fun next =>
        validateUrl net₁ next.asStr config.allowPrivateHosts >>= f) =
      (ofExcept (redirectTarget net₂.urls hop current resp) >>= fun next =>
        validateUrl net₂ next.asStr config.allowPrivateHosts >>= g) := by
  rw [h.urls]
  apply bind_congr
  intro next
  exact validated_outside h hnet hpriv hfg next.asStr

variable (hpin : config.dnsPin = true)

include hpin

theorem send_outside {url : Url} (hurl : Vetted url) {client : ClientOrPinned} {w w' : World}
    (hrun : clientFor net₁ config url w = (.ok client, w')) (method : Method) :
    sendRequest net₁ client.asRef method url = sendRequest net₂ client.asRef method url := by
  have hdetermined := clientFor_determined hnet.lookup_ne_nil hpin hrun
  unfold sendRequest
  simp only [h.connects _ _ _ hdetermined, h.send _ _ method _ hdetermined (outside_of_clientFor hnet hpin hpriv hurl hrun _)]

/-- **A hop from a vetted URL.** -/
theorem hop_outside {α : Type} {f g : Sent → NetM α} (hfg : ∀ sent, f sent = g sent) {url : Url} (hurl : Vetted url)
    (method : Method) :
    (do let client ← clientFor net₁ config url
        let sent ← sendRequest net₁ client.asRef method url
        f sent) =
      (do let client ← clientFor net₂ config url
          let sent ← sendRequest net₂ client.asRef method url
          g sent) := by
  rw [← clientFor_outside h hnet hpriv url, funext hfg]
  apply bind_congr_of_run
  intro w client w' hrun
  rw [send_outside h hnet hpriv hpin hurl hrun]

/-- **Run lemma of `fetch_page`**, by induction on the hops left. -/
theorem fetchLoop_outside (start : Text) (left hop : Nat) {current : Url} (hurl : Vetted current) :
    fetchLoop net₁ config start left hop current = fetchLoop net₂ config start left hop current := by
  induction left generalizing hop current with
  | zero => rfl
  | succ left ih =>
      rw [fetchLoop, fetchLoop]
      apply hop_outside h hnet hpriv hpin _ hurl
      intro sent
      apply bind_congr
      intro resp
      rw [redirect_outside h hnet hpriv (fun url hvetted => ih (hop + 1) hvetted) hop current resp]

theorem fetchPage_outside (start : Text) : fetchPage net₁ config start = fetchPage net₂ config start :=
  validated_outside h hnet hpriv (fun _ hvetted => fetchLoop_outside h hnet hpriv hpin start _ 0 hvetted) start

/-- **Run lemma of `web_fetch_headers`**, by induction on the hops left. -/
theorem headLoop_outside (url : Text) (left hop : Nat) {current : Url} (hurl : Vetted current) :
    Actions.headLoop net₁ config url left hop current = Actions.headLoop net₂ config url left hop current := by
  have hlines : Actions.headerLines net₁ = Actions.headerLines net₂ := by
    unfold Actions.headerLines
    rw [h.canonicalReason]
  induction left generalizing hop current with
  | zero => rfl
  | succ left ih =>
      rw [Actions.headLoop, Actions.headLoop]
      apply hop_outside h hnet hpriv hpin _ hurl
      intro sent
      apply bind_congr
      intro resp
      rw [redirect_outside h hnet hpriv (fun url hvetted => ih (hop + 1) hvetted) hop current resp, hlines]

theorem webFetchHeaders_outside (args : Option Value) :
    Actions.webFetchHeaders net₁ config args = Actions.webFetchHeaders net₂ config args := by
  unfold Actions.webFetchHeaders
  apply bind_congr
  intro url
  exact validated_outside h hnet hpriv (fun _ hvetted => headLoop_outside h hnet hpriv hpin url _ 0 hvetted) url

/-- `check_one_link` puts the error texts of both checks into its line. -/
theorem checkOneLink_outside (url : Text) : Actions.checkOneLink net₁ config url = Actions.checkOneLink net₂ config url := by
  have hline : Actions.linkLine net₁ = Actions.linkLine net₂ := by
    unfold Actions.linkLine
    rw [h.canonicalReason]
  unfold Actions.checkOneLink
  rw [← validateUrl_outside h hnet]
  apply bind_congr_of_run
  rintro w (e | current) w' hrun
  · rfl
  · have hvetted : Vetted current := by
      rw [hpriv] at hrun
      exact vetted_of_validateUrl (run_of_attempt hrun)
    dsimp only
    rw [← clientFor_outside h hnet hpriv current]
    refine congrFun (bind_congr_of_run ?_) w'
    rintro w (e | client) w' hrun
    · rfl
    · dsimp only
      rw [send_outside h hnet hpriv hpin hvetted (run_of_attempt hrun), hline]

/-- **The network programs run alike** on two networks that differ inside only. -/
theorem runsAlike : RunsAlike config net₁ net₂ where
  urls := h.urls
  validateUrl raw := validateUrl_outside h hnet raw _
  fetchPage := fetchPage_outside h hnet hpriv hpin
  webFetchHeaders := webFetchHeaders_outside h hnet hpriv hpin
  checkOneLink := checkOneLink_outside h hnet hpriv hpin

end Programs

end McpWebSearch
