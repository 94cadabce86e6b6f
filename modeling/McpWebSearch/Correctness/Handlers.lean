import McpWebSearch.Handlers
import McpWebSearch.Correctness.Internal
import McpWebSearch.Correctness.Endpoint

/-!
# `Correctness.Handlers` — the whole server, and what it tells of internal hosts

Every tool returns what the dispatcher takes for granted (`handlers_call`): so what is proved of the dispatcher is about the
tools. `internal_hosts_hidden` is about the whole: with the guard and pinning on, neither what the server answers, on stdio or
over HTTP, nor what it sends depends on the addresses of internal hosts or on what they reply. What Chrome loads is not covered
by that: it is the same in both surroundings.
-/

namespace McpWebSearch
namespace Server

open Utf8 Actions Scrape Prog

/-! ## What the tools return -/

/-- What each tool returns. -/
def Returns : Tool → Value → Prop
  | .browserScrape => fun value => ∃ blocks, value = scrapeContent blocks
  | .browserScreenshot => fun value => ∃ data, value = screenshotContent data
  | _ => fun value => ∃ text, value = textContent text

section Returning

variable {net : Net} {config : Config} {args : Option Value}

/-- A value that is a text. -/
def IsText (value : Value) : Prop := ∃ text, value = textContent text

theorem returning_text {σ : Type} (text : Text) :
    Returning IsText (Pure.pure (textContent text) : Prog σ WebSearchError Value) := Returning.pure ⟨text, rfl⟩

theorem returning_webSearch (api : Providers.Api) : Returning IsText (webSearch api config args) := by
  refine Returning.bind fun query => ?_
  split
  · exact returning_text _
  · exact Returning.bind fun resp => returning_text _

theorem returning_webScrape (lib : ScrapeLib) : Returning IsText (webScrape net lib config args) := by
  refine Returning.bind fun url => Returning.bind fun _ => Returning.bind fun page => ?_
  split
  · exact Returning.fail _
  · exact returning_text _

theorem returning_fetchAs (convert : Html → Except Panic Text) (lib : ScrapeLib) :
    Returning IsText (fetchAs convert net lib config args) := by
  refine Returning.bind fun url => Returning.bind fun page => ?_
  split
  · exact Returning.fail _
  · exact returning_text _

theorem returning_headLoop (url : Text) (left hop : Nat) (current : Url) :
    Returning IsText (headLoop net config url left hop current) := by
  induction left generalizing hop current with
  | zero => exact Returning.fail _
  | succ left ih =>
      refine Returning.bind fun client => Returning.bind fun sent => Returning.bind fun resp => ?_
      split
      · exact Returning.bind fun next => Returning.bind fun current => ih (hop + 1) current
      · exact returning_text _

theorem returning_webFetchHeaders : Returning IsText (webFetchHeaders net config args) :=
  Returning.bind fun url => Returning.bind fun current => returning_headLoop url _ 0 current

theorem returning_webSitemap (docs : Documents) : Returning IsText (webSitemap net docs config args) := by
  refine Returning.bind fun url => Returning.bind fun startUrl => ?_
  split
  · exact Returning.fail _
  · split
    · exact Returning.fail _
    · refine Returning.bind fun r => ?_
      cases r with
      | error e => exact returning_text _
      | ok page => exact returning_text _

theorem returning_webMap (docs : Documents) (cpus : Nat) (validated : Nat → Text → Bool) (sched : List Buffered.Move) :
    Returning (fun out => ∀ value, out = some value → IsText value)
      (webMap net docs config cpus validated sched args) := by
  refine Returning.bind fun start => Returning.bind fun startUrl => Returning.bind fun locs => Returning.bind fun links => ?_
  refine Returning.pure fun value hvalue => ?_
  obtain ⟨out, -, rfl⟩ := Option.map_eq_some_iff.mp hvalue
  exact ⟨_, rfl⟩

theorem returning_browserScrape (chrome : Chrome) (docs : Documents) (render : Renderers) :
    Returning (fun value => ∃ blocks, value = scrapeContent blocks) (browserScrape net chrome docs render config args) := by
  unfold browserScrape
  split
  · exact Returning.fail _
  · refine Returning.bind fun raw => Returning.bind fun url => Returning.bind fun _ => Returning.bind fun _ => ?_
    refine Returning.bind fun _ => Returning.bind fun _ => Returning.bind fun _ => Returning.bind fun blocks => ?_
    exact Returning.pure ⟨blocks, rfl⟩

theorem returning_browserScreenshot (chrome : Chrome) (render : Renderers) :
    Returning (fun value => ∃ data, value = screenshotContent data) (browserScreenshot net chrome render config args) := by
  unfold browserScreenshot
  split
  · exact Returning.fail _
  · refine Returning.bind fun raw => Returning.bind fun url => Returning.bind fun _ => Returning.bind fun _ => ?_
    refine Returning.bind fun _ => Returning.bind fun shot => ?_
    cases shot with
    | error e => exact Returning.fail _
    | ok taken => exact Returning.bind fun _ => Returning.pure ⟨_, rfl⟩

end Returning

/-! ## The dispatcher's view of the tools -/

theorem contentText_textContent (text : Text) : contentText (textContent text) = text := rfl

theorem contentData_screenshotContent (data : Text) : contentData (screenshotContent data) = data := rfl

theorem contentBlock_toValue (block : ContentBlock) : contentBlock block.toValue = block := by
  cases block with
  | text t => rfl
  | png data => rfl

/-- No blocks read back as the empty text that stands for them. -/
theorem scrapeContent_read (blocks : List ContentBlock) :
    scrapeContent ((contentItems (scrapeContent blocks)).map contentBlock) = scrapeContent blocks := by
  have hread (bs : List ContentBlock) : (bs.map ContentBlock.toValue).map contentBlock = bs := by
    rw [List.map_map]
    exact (List.map_congr_left fun b _ => contentBlock_toValue b).trans (List.map_id bs)
  have hitems (bs : List ContentBlock) : contentItems (.object [("content", .array (bs.map ContentBlock.toValue))]) =
      bs.map ContentBlock.toValue := by
    simp [contentItems, Value.get, Value.asArray]
  unfold scrapeContent
  dsimp only
  rw [hitems, hread]
  cases blocks with
  | nil => rfl
  | cons b bs => rfl

theorem wrap_read {α : Type} {f : α → Value} {g : Value → α} {r : Timeout (Result Value)}
    (h : ∀ value, r = .done (.ok value) → f (g value) = value) : (r.read g).wrap f = r := by
  cases r with
  | elapsed => rfl
  | done r =>
      cases r with
      | error e => rfl
      | ok value =>
          show Timeout.done (Except.ok (f (g value))) = Timeout.done (Except.ok value)
          rw [h value rfl]

/-- A bulk tool whose futures are all done. -/
theorem isText_of_ite {done : Bool} {text : Text} {value : Value}
    (h : (if done then some (.ok (textContent text)) else none : Option (Result Value)) = some (.ok value)) : IsText value := by
  split at h
  · exact ⟨text, (Except.ok.inj (Option.some.inj h)).symm⟩
  · cases h

theorem isText_of_planScrape {env : ScrapeEnv} {config : Config} {args : Option Value} {answer : Value}
    (h : planScrape env config args = .ok (.inl answer)) : IsText answer := by
  unfold planScrape at h
  split at h
  · cases h
  · dsimp only at h
    split at h
    · exact ⟨_, (Sum.inl.inj (Except.ok.inj h)).symm⟩
    · split at h
      · cases h
      · split at h
        · exact ⟨_, (Sum.inl.inj (Except.ok.inj h)).symm⟩
        · cases h

theorem isText_of_webSearchScrape {env : ScrapeEnv} {config : Config} {args : Option Value} {sched : List Drain.Event}
    {value : Value} (h : webSearchScrape env config args sched = some (.ok value)) : IsText value := by
  unfold webSearchScrape at h
  split at h
  · cases h
  · rename_i answer hplan
    obtain rfl : answer = value := Except.ok.inj (Option.some.inj h)
    exact isText_of_planScrape hplan
  · split at h
    · exact isText_of_ite h
    · cases h

section Adequacy

variable {env : Surroundings} {config : Config} {args : Option Value}

/-- **What a tool returns**, whatever its call meets. -/
theorem returns_of_run {tool : Tool} {value : Value} (h : env.run config args tool = some (.ok value)) :
    Returns tool value := by
  cases tool with
  | webSearch => exact returning_webSearch _ _ _ (Option.some.inj h)
  | webScrape => exact returning_webScrape _ _ _ (Option.some.inj h)
  | webFetch => exact returning_fetchAs _ _ _ _ (Option.some.inj h)
  | webFetchText => exact returning_fetchAs _ _ _ _ (Option.some.inj h)
  | webFetchHeaders => exact returning_webFetchHeaders _ _ (Option.some.inj h)
  | webSitemap => exact returning_webSitemap _ _ _ (Option.some.inj h)
  | browserScrape => exact returning_browserScrape _ _ _ _ _ (Option.some.inj h)
  | browserScreenshot => exact returning_browserScreenshot _ _ _ _ (Option.some.inj h)
  | webMap =>
      unfold Surroundings.run at h
      dsimp only at h
      split at h
      · rename_i out hrun
        obtain ⟨v, rfl, hv⟩ := Option.map_eq_some_iff.mp h
        obtain rfl : v = value := Except.ok.inj hv
        exact returning_webMap _ _ _ _ _ _ hrun v rfl
      · cases h
  | webExtract =>
      obtain ⟨result, hcall, hvalue⟩ := Option.bind_eq_some_iff.mp h
      unfold webExtract at hcall
      split at hcall
      · obtain rfl := Option.some.inj hcall
        cases hvalue
      · obtain ⟨s, -, hs⟩ := Option.bind_eq_some_iff.mp hcall
        split at hs
        · obtain rfl := Option.some.inj hs
          cases hvalue
        · obtain ⟨-, hs⟩ := Option.ite_none_right_eq_some.mp hs
          obtain rfl := Option.some.inj hs
          obtain rfl := Except.ok.inj (Option.some.inj hvalue)
          exact ⟨_, rfl⟩
  | webCheckLinks =>
      unfold Surroundings.run webCheckLinks at h
      dsimp only at h
      split at h
      · cases h
      · obtain ⟨s, -, hs⟩ := Option.bind_eq_some_iff.mp h
        exact isText_of_ite hs
  | webSearchScrape => exact isText_of_webSearchScrape h

theorem returns_of_outcome {tool : Tool} {value : Value} (h : env.outcome config args tool = .done (.ok value)) :
    Returns tool value := by
  unfold Surroundings.outcome at h
  split at h
  · cases h
  · split at h
    · rename_i r hrun
      obtain rfl : r = .ok value := Timeout.done.inj h
      exact returns_of_run hrun
    · cases h

theorem wrap_text {tool : Tool} (htool : ∀ value, Returns tool value → IsText value) :
    ((env.outcome config args tool).read contentText).wrap textContent = env.outcome config args tool := by
  apply wrap_read
  intro value hvalue
  obtain ⟨text, rfl⟩ := htool value (returns_of_outcome hvalue)
  rw [contentText_textContent]

/-- **The dispatcher calls the tools**: its handlers lose nothing of what a tool comes to. -/
theorem handlers_call (env : Surroundings) (config : Config) (args : Option Value) (tool : Tool) :
    (env.handlers config).call args tool = env.outcome config args tool := by
  cases tool with
  | browserScrape =>
      apply wrap_read
      intro value hvalue
      obtain ⟨blocks, rfl⟩ := returns_of_outcome hvalue
      exact scrapeContent_read blocks
  | browserScreenshot =>
      apply wrap_read
      intro value hvalue
      obtain ⟨data, rfl⟩ := returns_of_outcome hvalue
      rw [contentData_screenshotContent]
  | _ => exact wrap_text fun _ h => h

end Adequacy

/-! ## Tools on networks that run alike -/

section OneNet

variable {net₁ net₂ : Net} {config : Config} (h : RunsAlike config net₁ net₂)

include h

theorem webScrape_eq (lib : ScrapeLib) (args : Option Value) :
    webScrape net₁ lib config args = webScrape net₂ lib config args := by
  unfold webScrape
  simp only [h.fetchPage, h.urls]

theorem fetchAs_eq (convert : Html → Except Panic Text) (lib : ScrapeLib) (args : Option Value) :
    fetchAs convert net₁ lib config args = fetchAs convert net₂ lib config args := by
  unfold fetchAs
  simp only [h.fetchPage]

theorem webSitemap_eq (docs : Documents) (args : Option Value) :
    webSitemap net₁ docs config args = webSitemap net₂ docs config args := by
  unfold webSitemap
  simp only [h.validateUrl, h.fetchPage, h.urls]

theorem mapCandidates_eq (docs : Documents) (args : Option Value) :
    mapCandidates net₁ docs config args = mapCandidates net₂ docs config args := by
  unfold mapCandidates sitemapLocs pageLinks
  simp only [h.validateUrl, h.fetchPage, h.urls]

theorem webMap_alike (docs : Documents) (cpus : Nat) (validated : Nat → Text → Bool) (sched : List Buffered.Move)
    (args : Option Value) :
    webMap net₁ docs config cpus validated sched args = webMap net₂ docs config cpus validated sched args := by
  rw [webMap_eq, webMap_eq, mapCandidates_eq h]

theorem scrapeBlocks_eq (chrome : Chrome) (docs : Documents) (render : Renderers) (asked : Url) (onlyMain : Bool)
    (fmts : List Text) :
    scrapeBlocks net₁ chrome docs render asked onlyMain fmts = scrapeBlocks net₂ chrome docs render asked onlyMain fmts := by
  induction fmts with
  | nil => rfl
  | cons fmt fmts ih =>
      rw [scrapeBlocks, scrapeBlocks, ih]
      unfold formatBlocks
      simp only [h.urls]

theorem validateAsked_eq (raw : Text) : validateAsked net₁ config raw = validateAsked net₂ config raw := by
  unfold validateAsked
  rw [h.validateUrl]

theorem browserScrape_eq (chrome : Chrome) (docs : Documents) (render : Renderers) (args : Option Value) :
    browserScrape net₁ chrome docs render config args = browserScrape net₂ chrome docs render config args := by
  unfold browserScrape
  simp only [validateAsked_eq h, scrapeBlocks_eq h]

theorem browserScreenshot_eq (chrome : Chrome) (render : Renderers) (args : Option Value) :
    browserScreenshot net₁ chrome render config args = browserScreenshot net₂ chrome render config args := by
  unfold browserScreenshot
  simp only [validateAsked_eq h]

end OneNet

section ManyNets

variable {nets nets' : Nat → Net} {config : Config} (h : ∀ i, RunsAlike config (nets i) (nets' i))

include h

theorem scrapeEnv_eq (libs : Libraries) : scrapeEnv libs nets config = scrapeEnv libs nets' config := by
  unfold scrapeEnv
  simp only [(h _).fetchPage]

theorem extractedSection_eq (panic : PanicStrategy) (lib : ScrapeLib) (cancelled : Nat → Bool) :
    extractedSection panic nets lib cancelled config = extractedSection panic nets' lib cancelled config := by
  funext i url
  unfold extractedSection extractSection
  rw [(h i).fetchPage]

theorem checkedLink_eq (urls : List Text) : checkedLink nets config urls = checkedLink nets' config urls := by
  funext i
  unfold checkedLink linkCheck
  rw [(h i).checkOneLink]

end ManyNets

/-- The traces of a bulk tool's tasks. -/
theorem trace_perUrl {nets nets' : Nat → Net} {program program' : Net → Text → NetM Unit}
    (h : ∀ i url, program (nets i) url = program' (nets' i) url) (urls : List Text) :
    (perUrl nets program urls).map Task.trace = (perUrl nets' program' urls).map Task.trace := by
  unfold perUrl
  rw [List.mapIdx_eq_zipIdx_map, List.mapIdx_eq_zipIdx_map, List.map_map, List.map_map]
  exact List.map_congr_left fun p _ => congrArg (fun m : NetM Unit => (m World.initial).2.trace.map Outgoing.net) (h p.2 p.1)

/-! ## Calls in surroundings that run alike -/

/-- Surroundings with networks on which the network programs do the same, and nothing else to tell them apart. -/
structure Surroundings.RunAlike (config : Config) (env env' : Surroundings) : Prop where
  nets : ∀ i, RunsAlike config (env.nets i) (env'.nets i)
  others : env' = { env with nets := env'.nets }

section Calls

variable {env env' : Surroundings} {config : Config} {args : Option Value} (h : env.RunAlike config env')

include h

theorem validated_eq : env.validated config = env'.validated config := by
  funext i u
  unfold Surroundings.validated
  rw [(h.nets (i + 1)).validateUrl]

theorem run_eq (tool : Tool) : env.run config args tool = env'.run config args tool := by
  rw [h.others]
  unfold Surroundings.run
  cases tool with
  | webSearch => rfl
  | webScrape => simp only [webScrape_eq (h.nets 0)]
  | webFetch => simp only [webFetch, fetchAs_eq (h.nets 0)]
  | webFetchText => simp only [webFetchText, fetchAs_eq (h.nets 0)]
  | webFetchHeaders => simp only [(h.nets 0).webFetchHeaders]
  | webSitemap => simp only [webSitemap_eq (h.nets 0)]
  | browserScrape => simp only [browserScrape_eq (h.nets 0)]
  | browserScreenshot => simp only [browserScreenshot_eq (h.nets 0)]
  | webMap =>
      simp only [webMap_alike (h.nets 0), validated_eq h]
      rfl
  | webExtract => simp only [webExtract, extractedSection_eq h.nets]
  | webSearchScrape => simp only [scrapeEnv_eq h.nets]
  | webCheckLinks => simp only [webCheckLinks, checkedLink_eq h.nets]

/-- **The handlers do the same.** -/
theorem handlers_eq : env.handlers config = env'.handlers config := by
  have houtcome (args : Option Value) (tool : Tool) : env.outcome config args tool = env'.outcome config args tool := by
    unfold Surroundings.outcome
    rw [run_eq h, h.others]
  unfold Surroundings.handlers
  simp only [houtcome]

theorem process_eq : env.process config = env'.process config := by
  unfold Surroundings.process
  rw [handlers_eq h]

/-- **The tasks of a call do the same** on the network. -/
theorem tasks_eq (args : Option Value) (tool : Tool) :
    (tasks env.libs config env.nets args tool).map Task.trace = (tasks env'.libs config env'.nets args tool).map Task.trace := by
  have hone (m m' : NetM Value) (heq : m = m') :
      [Task.fetch (env.nets 0) m.discard].map Task.trace = [Task.fetch (env'.nets 0) m'.discard].map Task.trace := by
    rw [heq]
    rfl
  have hlibs : env'.libs = env.libs := by rw [h.others]
  have hchecks : candidatesToCheck (env.nets 0) env.libs.docs config args = candidatesToCheck (env'.nets 0) env.libs.docs config args := by
    unfold candidatesToCheck
    rw [mapCandidates_eq (h.nets 0)]
  have hscraped : scrapedUrls env.libs env.nets config args = scrapedUrls env.libs env'.nets config args := by
    unfold scrapedUrls
    rw [scrapeEnv_eq h.nets]
  rw [hlibs]
  unfold tasks
  cases tool with
  | webSearch => rfl
  | browserScrape | browserScreenshot =>
      have hcheck : browserCheck (env.nets 0) config args = browserCheck (env'.nets 0) config args := by
        unfold browserCheck
        simp only [(h.nets 0).validateUrl]
      show [(browserCheck (env.nets 0) config args World.initial).2.trace.map Outgoing.net] = _
      rw [hcheck]
      rfl
  | webScrape => exact hone _ _ (webScrape_eq (h.nets 0) _ args)
  | webFetch => exact hone _ _ (fetchAs_eq (h.nets 0) _ _ args)
  | webFetchText => exact hone _ _ (fetchAs_eq (h.nets 0) _ _ args)
  | webFetchHeaders => exact hone _ _ ((h.nets 0).webFetchHeaders args)
  | webSitemap => exact hone _ _ (webSitemap_eq (h.nets 0) _ args)
  | webMap =>
      dsimp only
      rw [List.map_cons, List.map_cons, hchecks]
      congr 1
      · unfold Task.trace
        rw [mapCandidates_eq (h.nets 0)]
      · exact trace_perUrl (fun i url => by rw [(h.nets (i + 1)).validateUrl]) _
  | webExtract => exact trace_perUrl (fun i url => by rw [(h.nets i).fetchPage]) _
  | webCheckLinks => exact trace_perUrl (fun i url => by rw [(h.nets i).checkOneLink]) _
  | webSearchScrape =>
      dsimp only
      rw [hscraped, List.map_cons, List.map_cons]
      congr 1
      exact trace_perUrl (fun i url => by rw [(h.nets i).fetchPage]) _

end Calls

/-! ## The whole server -/

/-- What a request over HTTP brings: its instant, headers and body. -/
structure Delivery where
  now : Rat
  headers : HeaderMap
  body : Bytes

/-- What the endpoint answers, each request in its surroundings. -/
def httpAnswers (rt : Runtime) (config : Config) (limiter : Option TokenBucket) (env : Nat → Surroundings)
    (requests : List Delivery) : List Http.Response :=
  (Http.outcomes rt config limiter
    (requests.mapIdx fun n r => ⟨r.now, r.headers, r.body, (env n).process config⟩)).map fun o => o.2.response

/-- What each task of a request does outside, if nothing cuts it off. -/
def requestTraffic (env : Surroundings) (config : Config) (req : JsonRpcRequest) : List (List Outgoing) :=
  (Call.tasks (env.handlers config) env.libs config ⟨req, env.nets⟩).map Task.trace

theorem requestTraffic_eq {env env' : Surroundings} {config : Config} (h : env.RunAlike config env') (req : JsonRpcRequest) :
    requestTraffic env config req = requestTraffic env' config req := by
  unfold requestTraffic Call.tasks
  rw [handlers_eq h]
  dsimp only
  rw [List.map_flatMap, List.map_flatMap]
  congr 1
  funext tool
  exact tasks_eq h _ tool

/-- Surroundings that differ inside only: in blocked answers of the DNS, and in what is replied from blocked addresses. -/
structure Surroundings.SameOutside (env env' : Surroundings) : Prop where
  nets : ∀ i, McpWebSearch.SameOutside (env.nets i) (env'.nets i)
  others : env' = { env with nets := env'.nets }

/-- **The server does not tell of internal hosts.** With the guard and pinning on, let each request meet surroundings that may
    differ inside: then a stdio session writes the same, the HTTP endpoint answers the same, and the tasks of each request do
    the same on the network, whatever is asked for with whatever tool. So neither the addresses nor the replies of internal
    hosts reach a caller, or a server outside. The search services answer alike here, wherever they are: they are not behind the
    guard, and what a SearXNG inside replies is printed. So does Chrome. -/
theorem internal_hosts_hidden (config : Config) (env env' : Nat → Surroundings) (hpin : config.dnsPin = true)
    (hpriv : config.allowPrivateHosts = false) (hnets : ∀ n i, ((env n).nets i).Lawful)
    (h : ∀ n, (env n).SameOutside (env' n)) :
    (∀ rt fuel stdin, runStdio rt config (fun n => (env n).process config) fuel stdin =
        runStdio rt config (fun n => (env' n).process config) fuel stdin) ∧
      (∀ rt limiter requests, httpAnswers rt config limiter env requests = httpAnswers rt config limiter env' requests) ∧
      ∀ n req, requestTraffic (env n) config req = requestTraffic (env' n) config req := by
  have halike (n : Nat) : (env n).RunAlike config (env' n) :=
    ⟨fun i => runsAlike ((h n).nets i) (hnets n i) hpriv hpin, (h n).others⟩
  have hprocess (n : Nat) : (env n).process config = (env' n).process config := process_eq (halike n)
  refine ⟨?_, ?_, ?_⟩
  · intro rt fuel stdin
    rw [funext hprocess]
  · intro rt limiter requests
    unfold httpAnswers
    simp only [hprocess]
  · exact fun n req => requestTraffic_eq (halike n) req

/-! ## An intranet for the example -/

/-- A network with a site that redirects every request to an internal address, and an internal site; the servers inside all
    have the same reply. -/
def intranet (addr : Ipv4Addr) (reply : Sent) : Net where
  urls :=
    let parse (raw : Text) : Except Text Url :=
      if raw = "http://example.com/" then .ok ⟨raw, "http", some (.domain "example.com"), some 80⟩
      else if raw = "http://wiki.internal/" then .ok ⟨raw, "http", some (.domain "wiki.internal"), some 80⟩
      else if raw = "http://10.0.0.1/" then .ok ⟨raw, "http", some (.ipv4 ⟨10, 0, 0, 1⟩), some 80⟩
      else .error "relative URL without a base"
    ⟨parse, fun _ => parse⟩
  lookupHost _ domain port := .ok [⟨.v4 (if domain = "example.com" then ⟨93, 184, 216, 34⟩ else addr), port⟩]
  build _ := .ok ()
  connects _ := documentedConnects
  send _ client _ url :=
    if ∀ ip ∈ documentedConnects client url, validateIp ip false = .ok () then
      .received ⟨302, [("location", bytes "http://10.0.0.1/")], []⟩
    else reply
  canonicalReason _ := none

theorem intranet_lawful (addr : Ipv4Addr) (reply : Sent) : (intranet addr reply).Lawful where
  lookup_ne_nil n domain port h := by cases h
  ipv4_literal n client url v ip hhost hip := by
    change ip ∈ documentedConnects client url at hip
    simpa [documentedConnects, hhost] using hip
  ipv6_literal n client url v ip hhost hip := by
    change ip ∈ documentedConnects client url at hip
    simpa [documentedConnects, hhost] using hip
  override n client url domain addr ip hhost hlookup hip := by
    change ip ∈ documentedConnects client url at hip
    simpa [documentedConnects, hhost, hlookup] using hip

theorem sameOutside_intranet {a b : Ipv4Addr} (ha : Rejects (validateIp (.v4 a) false)) (hb : Rejects (validateIp (.v4 b) false))
    (reply reply' : Sent) : SameOutside (intranet a reply) (intranet b reply') where
  urls := rfl
  lookupHost n domain port := by
    unfold intranet
    by_cases hdomain : domain = "example.com"
    · exact .inl (by simp only [if_pos hdomain])
    · simp only [if_neg hdomain]
      exact .inr ⟨⟨_, rfl, _, List.mem_cons_self, ha⟩, ⟨_, rfl, _, List.mem_cons_self, hb⟩⟩
  build := rfl
  connects _ _ _ _ := rfl
  send n client method url _ houtside := by
    unfold intranet
    exact (if_pos houtside).trans (if_pos houtside).symm
  canonicalReason := rfl

/-- A call in that network. -/
def inIntranet (addr : Ipv4Addr) (reply : Sent) : Surroundings where
  libs := emptyLibraries
  nets _ := intranet addr reply
  chrome := ⟨.ok (), fun _ => .loaded, fun _ => [], fun _ _ => .v4 ⟨10, 0, 0, 1⟩, fun _ => .ok [], fun _ => .ok []⟩
  render := ⟨id, id, fun _ => []⟩
  cancelled _ := false
  drained := []
  buffered := []
  pooled := []
  late := false

/-- A runtime whose every body asks `web_fetch` for a URL. -/
def fetchRuntime (url : Text) : Runtime :=
  { pingRuntime with fromSlice := fun _ => .ok ⟨"2.0", "tools/call",
      some (.object [("name", .string "web_fetch"), ("arguments", .object [("url", .string url)])]), none⟩ }

/-- Two such networks: the internal site is at another address, and the servers inside have another reply. What is said of
    the internal site, and of the one that redirects there, is the same. -/
theorem internal_hosts_hidden_intranet :
    let env := inIntranet ⟨10, 0, 0, 1⟩ (.received ⟨200, [], [.ok (bytes "secret")]⟩)
    let env' := inIntranet ⟨192, 168, 0, 7⟩ .elapsed
    httpAnswers (fetchRuntime "http://example.com/") stalledConfig none (fun _ => env) [⟨0, [], []⟩] =
      httpAnswers (fetchRuntime "http://example.com/") stalledConfig none (fun _ => env') [⟨0, [], []⟩] ∧
    httpAnswers (fetchRuntime "http://wiki.internal/") stalledConfig none (fun _ => env) [⟨0, [], []⟩] =
      [⟨200, .json (.success none (toolError "URL not allowed: host 'wiki.internal' resolves to a non-public address"))⟩] ∧
    httpAnswers (fetchRuntime "http://example.com/") stalledConfig none (fun _ => env) [⟨0, [], []⟩] =
      [⟨200, .json (.success none (toolError ("URL not allowed: address 10.0.0.1 is in a blocked (private/internal) range; " ++
        "pass --allow-private-hosts to override")))⟩] := by
  intro env env'
  have hinside : env.SameOutside env' := ⟨fun _ => sameOutside_intranet ⟨_, rfl⟩ ⟨_, rfl⟩ _ _, rfl⟩
  refine ⟨?_, ?_, ?_⟩
  · exact (internal_hosts_hidden stalledConfig (fun _ => env) (fun _ => env') rfl rfl (fun _ _ => intranet_lawful _ _)
      fun _ => hinside).2.1 (fetchRuntime "http://example.com/") none [⟨0, [], []⟩]
  · rfl
  · rfl

end Server
end McpWebSearch
