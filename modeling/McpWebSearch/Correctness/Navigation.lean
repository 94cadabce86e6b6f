import McpWebSearch.Actions.Browser
import McpWebSearch.Correctness.Verdict

/-!
# `Correctness.Navigation` — what the browser tools return is what Chrome chose to show

The guard sees one URL of a call, the one asked for. Every document whose content is returned is what the tab
shows after some operations (`Returned`): that URL, if the tab has gone nowhere else, at whatever address
Chrome reached it. On the network the tools do no more themselves than that check (`trace_browserScrape`).
`safe_document_iff` says what the guard covers of such a document and what is left to the
sites and to Chrome's own lookups; `browser_runs_safe` is the guarantee for runs in which these behave.
-/

namespace McpWebSearch
namespace Actions

open Utf8 Prog

/-! ## Safe documents -/

/-- Chrome as documented: an IP literal is reached at itself. -/
structure Chrome.Lawful (chrome : Chrome) : Prop where
  ipv4_literal : ∀ ops url v, url.host = some (.ipv4 v) → chrome.reach ops url = .v4 v
  ipv6_literal : ∀ ops url v, url.host = some (.ipv6 v) → chrome.reach ops url = .v6 v

/-- A URL that `validate_url` accepts, with private hosts off. -/
def Acceptable (net : Net) (url : Url) : Prop := ∃ raw w, (validateUrl net raw false w).1 = .ok url

/-- A document the guard would have let through: its URL is accepted, and so is the address it came from. -/
def SafeDocument (net : Net) (d : Document) : Prop :=
  Acceptable net d.url ∧ validateIp d.ip false = .ok ()

/-- Sites and lookups that behave: whenever the tab shows another URL than the one asked for, it is an accepted
    one, and whatever host name it shows a page of was reached at an accepted address. -/
structure Chrome.Tame (net : Net) (chrome : Chrome) : Prop where
  followed : ∀ ops url, (chrome.followed ops).getLast? = some url → Acceptable net url
  resolved : ∀ asked ops domain, Acceptable net asked →
    (chrome.document asked ops).url.host = some (.domain domain) →
    validateIp (chrome.document asked ops).ip false = .ok ()

/-- An accepted URL passed the checks on its scheme and on a literal host. -/
theorem vetted_of_acceptable {net : Net} {url : Url} (h : Acceptable net url) : Vetted url := by
  obtain ⟨raw, w, hvalid⟩ := h
  rw [validateUrl_fst] at hvalid
  have hchecked := @triple_checkUrl net (fun _ => True) (fun _ _ _ _ => trivial) raw w trivial
  rcases hcheck : checkUrl net raw false w with ⟨r, w'⟩
  rw [hcheck] at hvalid hchecked
  obtain rfl : r = .ok url := hvalid
  exact hchecked.2

/-- An accepted URL with a literal host is reached at an address the guard accepts. -/
theorem validateIp_reach {net : Net} {chrome : Chrome} (hchrome : chrome.Lawful) {url : Url}
    (hurl : Acceptable net url) (ops : List PageOp) :
    (∃ domain, url.host = some (.domain domain)) ∨ validateIp (chrome.reach ops url) false = .ok () := by
  obtain ⟨-, hguard⟩ := vetted_of_acceptable hurl
  cases hhost : url.host with
  | none =>
      rw [hhost] at hguard
      exact hguard.elim
  | some host =>
      rw [hhost] at hguard
      cases host with
      | domain d => exact .inl ⟨d, rfl⟩
      | ipv4 v =>
          rw [hchrome.ipv4_literal ops url v hhost]
          exact .inr hguard
      | ipv6 v =>
          rw [hchrome.ipv6_literal ops url v hhost]
          exact .inr hguard

/-- **What the guard leaves open** about a document the tab shows: the URL, if it is not the one asked for, and
    the address, if the host is a name. -/
theorem safe_document_iff {net : Net} {chrome : Chrome} (hchrome : chrome.Lawful) {asked : Url}
    (hasked : Acceptable net asked) (ops : List PageOp) :
    SafeDocument net (chrome.document asked ops) ↔
      (∀ url, (chrome.followed ops).getLast? = some url → Acceptable net url) ∧
      ∀ domain, (chrome.document asked ops).url.host = some (.domain domain) →
        validateIp (chrome.document asked ops).ip false = .ok () := by
  constructor
  · rintro ⟨hurl, hip⟩
    refine ⟨?_, fun _ _ => hip⟩
    intro url hlast
    unfold Chrome.document at hurl
    rw [hlast] at hurl
    exact hurl
  · rintro ⟨hfollowed, hresolved⟩
    have hurl : Acceptable net (chrome.document asked ops).url := by
      unfold Chrome.document
      cases hlast : (chrome.followed ops).getLast? with
      | none => exact hasked
      | some url => exact hfollowed url hlast
    refine ⟨hurl, ?_⟩
    rcases validateIp_reach hchrome hurl ops with ⟨domain, hhost⟩ | hip
    · exact hresolved domain hhost
    · exact hip

/-! ## What is returned -/

variable {net : Net} {chrome : Chrome} {docs : Documents} {render : Renderers} {config : Config} {asked : Url}
  {E : WebSearchError → Session → Prop}

/-- Everything returned so far was shown by a tab that had been asked for `asked`. -/
def Shown (chrome : Chrome) (asked : Url) (s : Session) : Prop :=
  ∀ d ∈ s.returned, ∃ ops, d = chrome.document asked ops

/-- An operation returns nothing by itself. -/
theorem triple_operate (op : PageOp) :
    Triple (Shown chrome asked) (operate op) (fun _ => Shown chrome asked) E := by
  unfold operate
  apply Triple.bind (Q := fun _ => Shown chrome asked)
  · exact Triple.change (fun s hs => hs)
  · intro _ s hs
    exact hs

theorem triple_perform (op : PageOp) :
    Triple (Shown chrome asked) (perform op) (fun _ => Shown chrome asked) E := by
  apply Triple.bind (triple_operate op)
  intro _
  exact Triple.pure (fun s hs => hs)

theorem triple_giveBack {doc : Option Document} (hdoc : ∀ d ∈ doc, ∃ ops, d = chrome.document asked ops) :
    Triple (Shown chrome asked) (giveBack doc) (fun _ => Shown chrome asked) E := by
  apply Triple.change
  intro s hs d hd
  rcases List.mem_append.mp hd with hd | hd
  · exact hs d hd
  · exact hdoc d (Option.mem_toList.mp hd)

/-- The content read is that of the document shown. -/
theorem triple_pageContent :
    Triple (Shown chrome asked) (pageContent chrome asked)
      (fun r s => Shown chrome asked s ∧ ∀ d ∈ r.1, ∃ ops, d = chrome.document asked ops) E := by
  apply Triple.bind (triple_operate .content)
  intro ops
  cases chrome.content ops with
  | error e => exact Triple.pure (fun s hs => ⟨hs, fun d hd => by cases hd⟩)
  | ok html => exact Triple.pure (fun s hs => ⟨hs, fun d hd => ⟨ops, (Option.some.inj hd).symm⟩⟩)

theorem triple_pageScreenshot (beyond : Option Bool) :
    Triple (Shown chrome asked) (pageScreenshot chrome asked beyond)
      (fun r s => Shown chrome asked s ∧ ∀ d bytes, r = .ok (d, bytes) → ∃ ops, d = chrome.document asked ops)
      E := by
  apply Triple.bind (triple_operate (.screenshot beyond))
  intro ops
  cases chrome.screenshot ops with
  | error e => exact Triple.pure (fun s hs => ⟨hs, fun d bytes hd => by cases hd⟩)
  | ok bytes =>
      refine Triple.pure (fun s hs => ⟨hs, fun d bytes' hd => ⟨ops, ?_⟩⟩)
      obtain ⟨rfl, -⟩ := Prod.mk.inj (Except.ok.inj hd)
      rfl

/-- Content, put into the result as a block. -/
theorem triple_contentBlock (block : Text → ContentBlock) :
    Triple (Shown chrome asked) (pageContent chrome asked >>= fun r =>
      giveBack r.1 >>= fun _ => pure [block r.2]) (fun _ => Shown chrome asked) E := by
  apply Triple.bind triple_pageContent
  intro r
  apply Triple.of_pre
  intro hdoc
  apply Triple.bind (triple_giveBack hdoc)
  intro _
  exact Triple.pure (fun s hs => hs)

/-- One case for each format. -/
theorem triple_formatBlocks (onlyMain : Bool) (fmt : Text) :
    Triple (Shown chrome asked) (formatBlocks net chrome docs render asked onlyMain fmt)
      (fun _ => Shown chrome asked) E := by
  unfold formatBlocks
  by_cases hhtml : fmt = "rawHtml" ∨ fmt = "html"
  · rw [if_pos hhtml]
    exact triple_contentBlock ContentBlock.text
  rw [if_neg hhtml]
  by_cases hlinks : fmt = "links"
  · rw [if_pos hlinks]
    apply Triple.bind triple_pageContent
    intro r
    apply Triple.of_pre
    intro hdoc
    cases net.urls.parse asked.asStr with
    | error e => exact Triple.pure (fun s hs => hs)
    | ok base =>
        apply Triple.bind (triple_giveBack hdoc)
        intro _
        exact Triple.pure (fun s hs => hs)
  rw [if_neg hlinks]
  by_cases hshot : fmt = "screenshot"
  · rw [if_pos hshot]
    apply Triple.bind (triple_pageScreenshot none)
    intro r
    apply Triple.of_pre
    intro hdoc
    cases r with
    | error e => exact Triple.pure (fun s hs => hs)
    | ok shot =>
        apply Triple.bind (triple_giveBack (fun d hd => hdoc d shot.2 (by rw [← Option.some.inj hd])))
        intro _
        exact Triple.pure (fun s hs => hs)
  · rw [if_neg hshot]
    exact triple_contentBlock (fun html =>
      .text (if onlyMain then render.mainToMarkdown html else render.domToMarkdown html))

/-- **Run lemma of the format loop**, by induction on the formats. -/
theorem triple_scrapeBlocks (onlyMain : Bool) (formats : List Text) :
    Triple (Shown chrome asked) (scrapeBlocks net chrome docs render asked onlyMain formats)
      (fun _ => Shown chrome asked) E := by
  induction formats with
  | nil => exact Triple.pure (fun s hs => hs)
  | cons fmt formats ih =>
      apply Triple.bind (triple_formatBlocks onlyMain fmt)
      intro block
      apply Triple.bind ih
      intro blocks
      exact Triple.pure (fun s hs => hs)

/-- The optional operations return nothing. -/
theorem triple_scrollPage (args : Option Value) :
    Triple (Shown chrome asked) (scrollPage args) (fun _ => Shown chrome asked) E := by
  unfold scrollPage
  split
  · exact triple_perform _
  · exact Triple.pure (fun s hs => hs)

theorem triple_waitForSelector (args : Option Value) :
    Triple (Shown chrome asked) (waitForSelector args) (fun _ => Shown chrome asked) E := by
  unfold waitForSelector
  cases getOptStr args "waitFor" with
  | none => exact Triple.pure (fun s hs => hs)
  | some selector => exact triple_perform _

theorem triple_evaluateScript (args : Option Value) :
    Triple (Shown chrome asked) (evaluateScript args) (fun _ => Shown chrome asked) E := by
  unfold evaluateScript
  cases getOptStr args "javascript" with
  | none => exact Triple.pure (fun s hs => hs)
  | some js => exact triple_perform _

theorem triple_navigate (url : Url) :
    Triple (Shown chrome asked) (navigate chrome config url) (fun _ => Shown chrome asked)
      (fun _ => Shown chrome asked) := by
  apply Triple.bind (triple_operate (.goto url))
  intro _
  cases chrome.goto url with
  | elapsed => exact Triple.fail (fun s hs => hs)
  | failed e => exact Triple.fail (fun s hs => hs)
  | loaded => exact Triple.pure (fun s hs => hs)

/-! ## What the tools do on the network themselves -/

section Silent

/-- The program does nothing on the network itself. -/
abbrev Silent {α : Type} (m : BrowserM α) : Prop := Emits (fun s => s.world.trace) (· = []) m

theorem Silent.bind {α β : Type} {m : BrowserM α} {f : α → BrowserM β} (hm : Silent m) (hf : ∀ a, Silent (f a)) :
    Silent (m >>= f) :=
  Emits.bind hm hf (fun _ ht => ht) fun t u ht hu => by rw [ht, hu, List.nil_append]

theorem silent_pure {α : Type} (a : α) : Silent (Pure.pure a : BrowserM α) := Emits.pure a rfl

theorem silent_change {f : Session → Session} (h : ∀ s, (f s).world = s.world) :
    Silent (Prog.change f : BrowserM Unit) := by
  intro s
  refine ⟨[], ?_, rfl⟩
  show (f s).world.trace = s.world.trace ++ []
  rw [h, List.append_nil]

theorem silent_operate (op : PageOp) : Silent (operate op) :=
  Silent.bind (silent_change fun _ => rfl) fun _ _ => ⟨[], (List.append_nil _).symm, rfl⟩

theorem silent_perform (op : PageOp) : Silent (perform op) := Silent.bind (silent_operate op) fun _ => silent_pure ()

theorem silent_giveBack (doc : Option Document) : Silent (giveBack doc) := silent_change fun _ => rfl

theorem silent_pageContent : Silent (pageContent chrome asked) := by
  refine Silent.bind (silent_operate .content) fun ops => ?_
  split
  · exact silent_pure _
  · exact silent_pure _

theorem silent_pageScreenshot (beyond : Option Bool) : Silent (pageScreenshot chrome asked beyond) :=
  Silent.bind (silent_operate _) fun _ => silent_pure _

theorem silent_formatBlocks (onlyMain : Bool) (fmt : Text) :
    Silent (formatBlocks net chrome docs render asked onlyMain fmt) := by
  unfold formatBlocks
  split
  · exact Silent.bind silent_pageContent fun _ => Silent.bind (silent_giveBack _) fun _ => silent_pure _
  split
  · refine Silent.bind silent_pageContent fun _ => ?_
    dsimp only
    split
    · exact silent_pure _
    · exact Silent.bind (silent_giveBack _) fun _ => silent_pure _
  split
  · refine Silent.bind (silent_pageScreenshot none) fun r => ?_
    cases r with
    | error e => exact silent_pure _
    | ok shot => exact Silent.bind (silent_giveBack _) fun _ => silent_pure _
  · exact Silent.bind silent_pageContent fun _ => Silent.bind (silent_giveBack _) fun _ => silent_pure _

theorem silent_scrapeBlocks (onlyMain : Bool) (formats : List Text) :
    Silent (scrapeBlocks net chrome docs render asked onlyMain formats) := by
  induction formats with
  | nil => exact silent_pure _
  | cons fmt formats ih =>
      exact Silent.bind (silent_formatBlocks onlyMain fmt) fun _ => Silent.bind ih fun _ => silent_pure _

theorem silent_navigate (url : Url) : Silent (navigate chrome config url) := by
  refine Silent.bind (silent_operate (.goto url)) fun _ => ?_
  split
  · exact Emits.fail _ rfl
  · exact Emits.fail _ rfl
  · exact silent_pure ()

theorem silent_waitForSelector (args : Option Value) : Silent (waitForSelector args) := by
  unfold waitForSelector
  split
  · exact silent_perform _
  · exact silent_pure ()

/-- The two tools do on the network what their check does: what follows it is silent. -/
theorem trace_visit (args : Option Value) (s : Session) {f : Url → BrowserM Value} (hf : ∀ url, Silent (f url)) :
    ((if config.browser.disabled then Prog.fail browserDisabled
      else ofExcept (getStrArg args "url") >>= fun raw =>
        validateAsked net config raw >>= fun url =>
          ofExcept chrome.acquirePage >>= fun _ => navigate chrome config url >>= fun _ => f url : BrowserM Value) s).2.world.trace =
      (browserCheck net config args s.world).2.trace := by
  unfold browserCheck
  by_cases hdisabled : config.browser.disabled = true
  · rw [if_pos hdisabled, if_pos hdisabled]
    rfl
  · rw [if_neg hdisabled, if_neg hdisabled, ofExcept_bind, ofExcept_bind]
    cases getStrArg args "url" with
    | error e => rfl
    | ok raw =>
        dsimp only
        rw [discard_state]
        rcases hvalid : validateUrl net raw config.allowPrivateHosts s.world with ⟨r, w⟩
        have hasked : validateAsked net config raw s = (r, { s with world := w }) := by
          unfold validateAsked onPart
          rw [hvalid]
        cases r with
        | error e => rw [bind_error hasked]
        | ok url =>
            rw [bind_ok hasked]
            have hrest : Silent (ofExcept chrome.acquirePage >>= fun _ => navigate chrome config url >>= fun _ => f url) :=
              Silent.bind (Emits.ofExcept _ rfl) fun _ => Silent.bind (silent_navigate url) fun _ => hf url
            obtain ⟨t, htrace, rfl⟩ := hrest { s with world := w }
            exact htrace.trans (List.append_nil _)

/-- **`browserCheck` is what a browser tool does on the network itself.** -/
theorem trace_browserScrape (args : Option Value) (s : Session) :
    (browserScrape net chrome docs render config args s).2.world.trace = (browserCheck net config args s.world).2.trace := by
  refine trace_visit args s fun url => ?_
  refine Silent.bind ?_ fun _ => Silent.bind (silent_waitForSelector args) fun _ => Silent.bind ?_ fun _ =>
    Silent.bind (silent_scrapeBlocks _ _) fun _ => silent_pure _
  · unfold scrollPage
    split
    · exact silent_perform _
    · exact silent_pure ()
  · unfold evaluateScript
    split
    · exact silent_perform _
    · exact silent_pure ()

theorem trace_browserScreenshot (args : Option Value) (s : Session) :
    (browserScreenshot net chrome render config args s).2.world.trace = (browserCheck net config args s.world).2.trace := by
  refine trace_visit args s fun url => Silent.bind (silent_waitForSelector args) fun _ =>
    Silent.bind (silent_pageScreenshot _) fun r => ?_
  cases r with
  | error e => exact Emits.fail _ rfl
  | ok shot => exact Silent.bind (silent_giveBack _) fun _ => silent_pure _

end Silent

/-! ## The two tools -/

/-- Everything returned was shown by a tab that had been asked for an accepted URL. -/
def Returned (net : Net) (chrome : Chrome) (s : Session) : Prop :=
  ∀ d ∈ s.returned, ∃ asked ops, Acceptable net asked ∧ d = chrome.document asked ops

theorem returned_of_nil {s : Session} (hs : s.returned = []) : Returned net chrome s := by
  intro d hd
  rw [hs] at hd
  exact absurd hd List.not_mem_nil

theorem returned_of_shown (hasked : Acceptable net asked) {s : Session} (hs : Shown chrome asked s) :
    Returned net chrome s := by
  intro d hd
  obtain ⟨ops, hdoc⟩ := hs d hd
  exact ⟨asked, ops, hasked, hdoc⟩

/-- **The guard of a call**: the URL that goes on has been accepted. -/
theorem triple_validateAsked (hpriv : config.allowPrivateHosts = false) (raw : Text) :
    Triple (fun s => s.returned = []) (validateAsked net config raw)
      (fun url s => s.returned = [] ∧ Acceptable net url) (fun _ s => s.returned = []) := by
  unfold validateAsked
  rw [hpriv]
  apply Triple.onPart
  · intro s url w hs hvalid
    exact ⟨hs, raw, s.world, by rw [hvalid]⟩
  · intro s e w hs _
    exact hs

/-- What the two tools have in common: up to the navigation nothing is returned, and what follows it shows pages
    of a tab that was asked for an accepted URL. -/
theorem triple_visit (hpriv : config.allowPrivateHosts = false) (args : Option Value) {f : Url → BrowserM Value}
    (hf : ∀ url, Triple (Shown chrome url) (f url) (fun _ => Shown chrome url) (fun _ => Shown chrome url)) :
    Triple (fun s => s.returned = [])
      (if config.browser.disabled then Prog.fail browserDisabled
      else ofExcept (getStrArg args "url") >>= fun raw =>
        validateAsked net config raw >>= fun url =>
          ofExcept chrome.acquirePage >>= fun _ => navigate chrome config url >>= fun _ => f url)
      (fun _ => Returned net chrome) (fun _ => Returned net chrome) := by
  split
  · exact Triple.fail (fun s hs => returned_of_nil hs)
  apply Triple.bind (Q := fun _ s => s.returned = [])
  · exact Triple.ofExcept (fun _ _ _ hs => hs) (fun _ s _ hs => returned_of_nil hs)
  intro raw
  apply Triple.bind ((triple_validateAsked hpriv raw).imp (fun _ hs => hs) (fun _ _ hs => hs)
    (fun _ s hs => returned_of_nil hs))
  intro url
  apply Triple.of_pre
  intro hurl
  apply Triple.bind (Q := fun _ s => s.returned = [])
  · exact Triple.ofExcept (fun _ _ _ hs => hs) (fun _ s _ hs => returned_of_nil hs)
  intro _
  have hrest : Triple (Shown chrome url) (navigate chrome config url >>= fun _ => f url)
      (fun _ => Shown chrome url) (fun _ => Shown chrome url) :=
    Triple.bind (triple_navigate url) (fun _ => hf url)
  apply hrest.imp
  · intro s hs d hd
    rw [hs] at hd
    exact absurd hd List.not_mem_nil
  · exact fun _ s hs => returned_of_shown hurl hs
  · exact fun _ s hs => returned_of_shown hurl hs

theorem triple_browserScrape (hpriv : config.allowPrivateHosts = false) (args : Option Value) :
    Triple (fun s => s.returned = []) (browserScrape net chrome docs render config args)
      (fun _ => Returned net chrome) (fun _ => Returned net chrome) := by
  apply triple_visit hpriv args
  intro url
  apply Triple.bind (triple_scrollPage args)
  intro _
  apply Triple.bind (triple_waitForSelector args)
  intro _
  apply Triple.bind (triple_evaluateScript args)
  intro _
  apply Triple.bind (triple_scrapeBlocks _ _)
  intro blocks
  exact Triple.pure (fun s hs => hs)

theorem triple_browserScreenshot (hpriv : config.allowPrivateHosts = false) (args : Option Value) :
    Triple (fun s => s.returned = []) (browserScreenshot net chrome render config args)
      (fun _ => Returned net chrome) (fun _ => Returned net chrome) := by
  apply triple_visit hpriv args
  intro url
  apply Triple.bind (triple_waitForSelector args)
  intro _
  apply Triple.bind (triple_pageScreenshot _)
  intro r
  apply Triple.of_pre
  intro hdoc
  cases r with
  | error e => exact Triple.fail (fun s hs => hs)
  | ok shot =>
      apply Triple.bind (triple_giveBack (fun d hd => hdoc d shot.2 (by rw [← Option.some.inj hd])))
      intro _
      exact Triple.pure (fun s hs => hs)

/-- With tame sites whatever is returned is safe. -/
theorem safe_of_returned (hchrome : chrome.Lawful) (htame : chrome.Tame net) {s : Session}
    (hs : Returned net chrome s) : ∀ d ∈ s.returned, SafeDocument net d := by
  intro d hd
  obtain ⟨asked, ops, hasked, rfl⟩ := hs d hd
  apply (safe_document_iff hchrome hasked ops).mpr
  exact ⟨htame.followed ops, fun domain => htame.resolved asked ops domain hasked⟩

/-- **SSRF safety of browser runs**, for sites and lookups that behave: whatever the arguments, and whatever else
    Chrome and the sites do, every document whose content is returned has an accepted URL and came from an
    accepted address. -/
theorem browser_runs_safe (net : Net) (chrome : Chrome) (docs : Documents) (render : Renderers) (config : Config)
    (hpriv : config.allowPrivateHosts = false) (hchrome : chrome.Lawful) (htame : chrome.Tame net)
    (args : Option Value) (w : World) :
    (∀ d ∈ (browserScrape net chrome docs render config args (.start w)).2.returned, SafeDocument net d) ∧
    (∀ d ∈ (browserScreenshot net chrome render config args (.start w)).2.returned, SafeDocument net d) := by
  constructor
  · apply safe_of_returned hchrome htame
    exact (triple_browserScrape hpriv args).final rfl
  · apply safe_of_returned hchrome htame
    exact (triple_browserScreenshot hpriv args).final rfl

/-- A Chrome whose pages all come from one address, unless their host is a literal; `followed` is where its sites
    redirect to. -/
def chromeAt (ip : Ipv4Addr) (followed : List Url) : Chrome where
  acquirePage := .ok ()
  goto _ := .loaded
  followed _ := followed
  reach _ url :=
    match url.host with
    | some (.ipv4 v) => .v4 v
    | some (.ipv6 v) => .v6 v
    | _ => .v4 ip
  content _ := .ok "secret"
  screenshot _ := .ok []

theorem chromeAt_lawful (ip : Ipv4Addr) (followed : List Url) : (chromeAt ip followed).Lawful where
  ipv4_literal ops url v h := by
    unfold chromeAt
    dsimp only
    rw [h]
  ipv6_literal ops url v h := by
    unfold chromeAt
    dsimp only
    rw [h]

/-- A site that stays where it is, at a public address. -/
theorem chromeAt_tame : (chromeAt ⟨93, 184, 216, 34⟩ []).Tame redirectNet where
  followed ops url h := by cases h
  resolved asked ops domain _ h := by
    change asked.host = some (.domain domain) at h
    show validateIp ((chromeAt ⟨93, 184, 216, 34⟩ []).reach ops asked) false = .ok ()
    unfold chromeAt
    dsimp only
    rw [h]
    rfl

def plainDocs : Documents := ⟨fun _ => [], fun _ => [], fun _ => none, fun _ => [], .ascii⟩

def plainRender : Renderers := ⟨id, id, fun _ => []⟩

theorem browser_runs_safe_public :
    SafeDocument redirectNet
      ⟨⟨"http://example.com/", "http", some (.domain "example.com"), some 80⟩, .v4 ⟨93, 184, 216, 34⟩⟩ :=
  (browser_runs_safe redirectNet (chromeAt ⟨93, 184, 216, 34⟩ []) plainDocs plainRender
    (Config.default ⟨4, fun _ => .error [], fun _ => []⟩) rfl (chromeAt_lawful _ _) chromeAt_tame
    (some (.object [("url", .string "http://example.com/")])) World.initial).1 _ List.mem_cons_self

/-- **Chrome follows the redirect**: the public site answers with one to an internal address, and the page there
    is returned. -/
theorem browser_scrape_returns_internal :
    let run := browserScrape redirectNet
      (chromeAt ⟨93, 184, 216, 34⟩ [⟨"http://10.0.0.1/", "http", some (.ipv4 ⟨10, 0, 0, 1⟩), some 80⟩])
      plainDocs plainRender (Config.default ⟨4, fun _ => .error [], fun _ => []⟩)
      (some (.object [("url", .string "http://example.com/")])) (.start World.initial)
    run.1 = .ok (scrapeContent [.text "secret"]) ∧
      run.2.returned =
        [⟨⟨"http://10.0.0.1/", "http", some (.ipv4 ⟨10, 0, 0, 1⟩), some 80⟩, .v4 ⟨10, 0, 0, 1⟩⟩] ∧
      ¬ ∀ d ∈ run.2.returned, SafeDocument redirectNet d := by
  refine ⟨rfl, rfl, ?_⟩
  intro h
  have hsafe := h ⟨⟨"http://10.0.0.1/", "http", some (.ipv4 ⟨10, 0, 0, 1⟩), some 80⟩, .v4 ⟨10, 0, 0, 1⟩⟩
    List.mem_cons_self
  exact absurd hsafe.2 (by decide)

end Actions
end McpWebSearch
