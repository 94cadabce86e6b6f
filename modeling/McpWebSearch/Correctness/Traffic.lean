import McpWebSearch.Traffic
import McpWebSearch.Correctness.Budget
import McpWebSearch.Correctness.Dispatch
import McpWebSearch.Correctness.Map
import McpWebSearch.Correctness.Providers

/-!
# `Correctness.Traffic` — what the server does on the network, whatever is asked of it

Each task of each call keeps to the policy on its own (`Outbound`): what it adds to the trace is vouched for, and within a
budget. `outbound_policy` takes that to every interleaving of the tasks of any number of calls, and
`outbound_budget` bounds what the calls can make the server send. A request to a provider is under no such policy: it is the one
that the provider makes of the call, one a call at most (`asks_of_task`).
-/

namespace McpWebSearch

open Utf8 Prog

/-! ## The policy -/

/-- The event may follow the events `before` of the same task: a request only for a URL accepted before, a connection only to
    an address the guard accepts, for an http(s) URL requested before. -/
def Vouched (before : List NetEvent) : NetEvent → Prop
  | .connect url ip => validateIp ip false = .ok () ∧ HttpUrl url ∧ ∃ method, .request method url ∈ before
  | .request _ url => .accepted url ∈ before
  | _ => True

theorem Vouched.after {before : List NetEvent} {e : NetEvent} (t : List NetEvent) (h : Vouched before e) :
    Vouched (t ++ before) e := by
  cases e with
  | connect url ip =>
      obtain ⟨hip, hhttp, method, hreq⟩ := h
      exact ⟨hip, hhttp, method, List.mem_append_right t hreq⟩
  | request method url => exact List.mem_append_right t h
  | lookup domain port => trivial
  | accepted url => trivial
  | rejected raw => trivial

/-- Pinning is on and private hosts are off, and the network does what is documented. -/
structure Guarded (net : Net) (config : Config) : Prop where
  lawful : net.Lawful
  pin : config.dnsPin = true
  noPrivate : config.allowPrivateHosts = false

/-- What a task may add to the trace: within a budget in any case, and vouched for where it is guarded. -/
structure Proper (guarded : Prop) (method : Method) (lookups requests : Nat) (t : List NetEvent) : Prop where
  vouched : guarded → History.AtEach Vouched t
  within : Frugal method lookups requests t

/-- The program keeps to the policy, within a budget. -/
abbrev Outbound (guarded : Prop) (method : Method) (lookups requests : Nat) {α : Type} (m : NetM α) : Prop :=
  Emits World.trace (Proper guarded method lookups requests) m

section Rules

variable {guarded : Prop} {method : Method} {α β : Type} {l r l' r' : Nat}

theorem Proper.nil : Proper guarded method l r [] := ⟨fun _ => History.atEach_nil, Frugal.nil⟩

theorem Proper.mono {t : List NetEvent} (h : Proper guarded method l r t) (hl : l ≤ l') (hr : r ≤ r') : Proper guarded method l' r' t :=
  ⟨h.vouched, h.within.mono hl hr⟩

theorem Proper.append {t u : List NetEvent} (ht : Proper guarded method l r t) (hu : Proper guarded method l' r' u) :
    Proper guarded method (l + l') (r + r') (t ++ u) where
  vouched hguarded := History.atEach_append (fun _ _ => Vouched.after t) (ht.vouched hguarded) (hu.vouched hguarded)
  within := ht.within.append hu.within

theorem Outbound.seq {m : NetM α} {k : α → NetM β} (hm : Outbound guarded method l r m) (hk : ∀ a, Outbound guarded method l' r' (k a)) :
    Outbound guarded method (l + l') (r + r') (m >>= k) :=
  Emits.bind hm hk (fun _ ht => ht.mono (Nat.le_add_right l l') (Nat.le_add_right r r')) fun _ _ => Proper.append

theorem Outbound.bind_free {m : NetM α} {k : α → NetM β} (hm : Outbound guarded method l r m) (hk : ∀ a, Outbound guarded method 0 0 (k a)) :
    Outbound guarded method l r (m >>= k) := Outbound.seq hm hk

theorem Outbound.pure (a : α) : Outbound guarded method l r (Pure.pure a : NetM α) := Emits.pure a Proper.nil

theorem Outbound.fail (e : WebSearchError) : Outbound guarded method l r (Prog.fail e : NetM α) := Emits.fail e Proper.nil

theorem Outbound.ofExcept_bind {x : Result α} {k : α → NetM β} (hk : ∀ a, Outbound guarded method l r (k a)) :
    Outbound guarded method l r (Prog.ofExcept x >>= k) := Emits.ofExcept_bind Proper.nil hk

/-- A safe trace within a budget is vouched for. -/
theorem proper_of_safe {t : List NetEvent} (hsafe : guarded → SafeTrace t) (hwithin : Frugal method l r t) :
    Proper guarded method l r t where
  vouched hguarded before e after heq := by
    have hallowed := hsafe hguarded before e after heq
    have hrequested := hwithin.connects before e after heq
    cases e with
    | connect url ip => exact ⟨hallowed.1, hallowed.2, method, hrequested⟩
    | request m url => exact hallowed.1
    | lookup domain port => trivial
    | accepted url => trivial
    | rejected raw => trivial
  within := hwithin

/-- What is safe from an empty trace keeps to the policy from any. -/
theorem outbound_of_safe {m : NetM α} (hframe : ∀ t, Commutes (World.after t) m) (hspends : Spends method l r m)
    (hsafe : ∀ w, w.trace = [] → guarded → SafeTrace (m w).2.trace) : Outbound guarded method l r m := by
  have hemits : Emits World.trace (fun t => guarded → SafeTrace t) m :=
    Emits.of_commutes World.after (fun w => { w with trace := [] }) (fun _ _ => rfl) (fun _ => rfl)
      (fun w => by simp [World.after]) hframe hsafe
  exact (hemits.and hspends).mono fun t ht => proper_of_safe ht.1 ht.2

end Rules

theorem Good.of_nil {w : World} (h : w.trace = []) : Good w := by
  constructor
  · rw [h]
    exact SafeTrace.nil
  · intro raw
    rw [h]
    exact List.not_mem_nil

/-! ## The programs -/

section Programs

variable {net : Net} {config : Config}

theorem outbound_validateUrl (method : Method) (raw : Text) :
    Outbound (Guarded net config) method 1 0 (validateUrl net raw config.allowPrivateHosts) := by
  refine outbound_of_safe (fun t => commutes_validateUrl raw _) (spends_validateUrl raw _) fun w hw hguarded => ?_
  rw [hguarded.noPrivate]
  exact ((triple_validateUrl raw).imp (fun _ h => h) (fun _ _ h => h.1.1.safe) (fun _ _ h => h)).final (Good.of_nil hw)

theorem outbound_fetchPage (start : Text) :
    Outbound (Guarded net config) .get (2 * (config.maxRedirects + 1)) (config.maxRedirects + 1) (fetchPage net config start) :=
  outbound_of_safe (fun _ => commutes_fetchPage start) (spends_fetchPage start) fun _ hw hg =>
    ((triple_fetchPage hg.lawful hg.pin hg.noPrivate start).imp (fun _ h => h) (fun _ _ h => h.safe) (fun _ _ h => h)).final
      (Good.of_nil hw)

theorem outbound_webFetchHeaders (args : Option Value) :
    Outbound (Guarded net config) .head (2 * (config.maxRedirects + 1) + 1) (config.maxRedirects + 1)
      (Actions.webFetchHeaders net config args) :=
  outbound_of_safe (fun _ => commutes_webFetchHeaders args) (spends_webFetchHeaders args) fun _ hw hg =>
    ((triple_webFetchHeaders hg.lawful hg.pin hg.noPrivate args).imp (fun _ h => h) (fun _ _ h => h.safe)
      (fun _ _ h => h)).final (Good.of_nil hw)

theorem outbound_checkOneLink (url : Text) :
    Outbound (Guarded net config) .head 2 1 (Actions.checkOneLink net config url) :=
  outbound_of_safe (fun _ => commutes_checkOneLink url) (spends_checkOneLink url) fun _ hw hg =>
    ((triple_checkOneLink hg.lawful hg.pin hg.noPrivate url).imp (fun _ h => h) (fun _ _ h => h) (fun _ _ h => h.elim)).final
      (Good.of_nil hw)

theorem outbound_webScrape (lib : Scrape.ScrapeLib) (args : Option Value) :
    Outbound (Guarded net config) .get (2 * (config.maxRedirects + 1)) (config.maxRedirects + 1)
      (Scrape.webScrape net lib config args) := by
  refine Outbound.ofExcept_bind fun url => ?_
  refine Outbound.ofExcept_bind fun _ => ?_
  refine Outbound.bind_free (outbound_fetchPage url) fun page => ?_
  split
  · exact Outbound.fail _
  · exact Outbound.pure _

theorem outbound_fetchAs (convert : Scrape.Html → Except Scrape.Panic Text) (lib : Scrape.ScrapeLib) (args : Option Value) :
    Outbound (Guarded net config) .get (2 * (config.maxRedirects + 1)) (config.maxRedirects + 1)
      (Scrape.fetchAs convert net lib config args) := by
  refine Outbound.ofExcept_bind fun url => ?_
  refine Outbound.bind_free (outbound_fetchPage url) fun page => ?_
  split
  · exact Outbound.fail _
  · exact Outbound.pure _

theorem outbound_webSitemap (docs : Documents) (args : Option Value) :
    Outbound (Guarded net config) .get (1 + 2 * (config.maxRedirects + 1)) (0 + (config.maxRedirects + 1))
      (Actions.webSitemap net docs config args) := by
  refine Outbound.ofExcept_bind fun url => ?_
  refine Outbound.seq (outbound_validateUrl .get url) fun startUrl => ?_
  split
  · exact Outbound.fail _
  · split
    · exact Outbound.fail _
    · refine Outbound.bind_free (Emits.attempt (outbound_fetchPage _)) fun r => ?_
      cases r with
      | error e => exact Outbound.pure _
      | ok page => exact Outbound.pure _

theorem outbound_mapCandidates (docs : Documents) (args : Option Value) :
    Outbound (Guarded net config) .get (1 + (2 * (config.maxRedirects + 1) + 2 * (config.maxRedirects + 1)))
      (0 + ((config.maxRedirects + 1) + (config.maxRedirects + 1))) (Server.mapCandidates net docs config args) := by
  refine Outbound.ofExcept_bind fun start => ?_
  refine Outbound.seq (outbound_validateUrl .get start) fun startUrl => ?_
  have hsitemap (opts : Actions.MapOptions) :
      Outbound (Guarded net config) .get (2 * (config.maxRedirects + 1)) (config.maxRedirects + 1)
        (Actions.sitemapLocs net docs config opts startUrl) := by
    unfold Actions.sitemapLocs
    split
    · exact Outbound.pure _
    · split
      · exact Outbound.pure _
      · refine Outbound.bind_free (Emits.attempt (outbound_fetchPage _)) fun r => ?_
        cases r with
        | error e => exact Outbound.pure _
        | ok page => exact Outbound.pure _
  have hlinks (opts : Actions.MapOptions) :
      Outbound (Guarded net config) .get (2 * (config.maxRedirects + 1)) (config.maxRedirects + 1)
        (Actions.pageLinks net docs config opts startUrl) := by
    unfold Actions.pageLinks
    split
    · exact Outbound.pure _
    · refine Outbound.bind_free (Emits.attempt (outbound_fetchPage _)) fun r => ?_
      cases r with
      | error e => exact Outbound.pure _
      | ok page => exact Outbound.pure _
  exact Outbound.seq (hsitemap _) fun locs => Outbound.bind_free (hlinks _) fun links => Outbound.pure _

theorem outbound_browserCheck (args : Option Value) :
    Outbound (Guarded net config) .get 1 0 (Actions.browserCheck net config args) := by
  unfold Actions.browserCheck
  split
  · exact Outbound.fail _
  · exact Outbound.ofExcept_bind fun raw => Emits.discard (outbound_validateUrl .get raw) 

/-- Run from the start, a program adds what it may. -/
theorem proper_of_outbound {α : Type} {guarded : Prop} {method : Method} {l r : Nat} {m : NetM α}
    (hm : Outbound guarded method l r m) : Proper guarded method l r (m World.initial).2.trace := by
  obtain ⟨t, heq, ht⟩ := hm World.initial
  rw [heq]
  exact ht

end Programs

namespace Server

open Actions

variable {libs : Libraries} {config : Config} {nets : Nat → Net} {args : Option Value}

/-! ## The tasks of a call -/

/-- The candidates of `web_map` are within the limit, and none of another host unless subdomains are asked for. -/
structure CandidatesOk (opts : MapOptions) (st : Candidates) : Prop where
  length : st.candidates.length ≤ opts.limit
  sameHost : opts.includeSubdomains = false → ∀ c ∈ st.candidates, c.2 = false

theorem candidatesOk_consider {urls : UrlParser} {docs : Documents} {opts : MapOptions} {baseHost : Text} {st : Candidates}
    (h : CandidatesOk opts st) (url : Text) : CandidatesOk opts (consider urls docs opts baseHost st url) := by
  rw [consider_eq]
  split
  · rename_i hnew
    obtain ⟨hroom, hscope, -⟩ := hnew
    refine ⟨?_, fun hsub c hc => ?_⟩
    · rw [List.length_append, List.length_singleton]
      exact hroom
    · rcases List.mem_append.mp hc with hc | hc
      · exact h.sameHost hsub c hc
      · obtain rfl := List.mem_singleton.mp hc
        obtain ⟨⟨host, hhost, hhosts⟩, -⟩ := of_decide_eq_true hscope
        -- without subdomains only the start host is in scope
        rcases hhosts with rfl | ⟨hsub', -⟩
        · simp [Actions.sameHost, Option.mem_def.mp hhost]
        · rw [hsub] at hsub'
          cases hsub'
  · exact h

theorem candidatesOk_foldl {urls : UrlParser} {docs : Documents} {opts : MapOptions} {baseHost : Text} (us : List Text)
    {st : Candidates} (h : CandidatesOk opts st) : CandidatesOk opts (us.foldl (consider urls docs opts baseHost) st) := by
  induction us generalizing st with
  | nil => exact h
  | cons u us ih => exact ih (candidatesOk_consider h u)

/-- Whatever the network, the candidates are such. -/
theorem mapCandidates_ok {net : Net} {docs : Documents} {cs : List (Text × Bool)} {w w' : World}
    (h : mapCandidates net docs config args w = (.ok cs, w')) : ∃ seen, CandidatesOk (mapOptions docs config args) ⟨cs, seen⟩ := by
  have htriple : Triple (fun _ => True) (mapCandidates net docs config args)
      (fun cs _ => ∃ seen, CandidatesOk (mapOptions docs config args) ⟨cs, seen⟩) (fun _ _ => True) := by
    refine Triple.bind Triple.trivial fun start => ?_
    refine Triple.bind Triple.trivial fun startUrl => ?_
    refine Triple.bind Triple.trivial fun locs => ?_
    refine Triple.bind Triple.trivial fun links => ?_
    refine Triple.pure fun _ _ => ⟨_, candidatesOk_foldl links (candidatesOk_foldl locs ⟨Nat.zero_le _, ?_⟩)⟩
    exact fun _ c hc => absurd hc List.not_mem_nil
  have hrun := htriple w trivial
  rw [h] at hrun
  exact hrun

/-- `web_map` is the choice of the candidates, and the validation pass over them. -/
theorem webMap_eq (net : Net) (docs : Documents) (cpus : Nat) (validated : Nat → Text → Bool) (sched : List Buffered.Move) :
    webMap net docs config cpus validated sched args =
      mapCandidates net docs config args >>= fun cs =>
        Pure.pure ((validationPass cpus validated sched cs).map mapContent) := by
  unfold webMap mapCandidates
  simp only [Prog.bind_assoc]
  rfl

/-- `web_map` looks up candidates only if subdomains are asked for, and no more than its limit. -/
theorem length_candidatesToCheck (config : Config) (args : Option Value) (net : Net) (docs : Documents) :
    (candidatesToCheck net docs config args).length ≤
      if (mapOptions docs config args).includeSubdomains then config.server.maxMapUrls else 0 := by
  unfold candidatesToCheck
  rcases hrun : mapCandidates net docs config args World.initial with ⟨r, w'⟩
  cases r with
  | error e => exact Nat.zero_le _
  | ok cs =>
      obtain ⟨seen, hok⟩ := mapCandidates_ok hrun
      show ((cs.filter (·.2)).map Prod.fst).length ≤ _
      rw [List.length_map]
      split
      · calc (cs.filter (·.2)).length ≤ cs.length := List.length_filter_le _ _
          _ ≤ (mapOptions docs config args).limit := hok.length
          _ ≤ config.server.maxMapUrls := Nat.min_le_right _ _
      · rename_i hsub
        have hnone : cs.filter (·.2) = [] := by
          apply List.filter_eq_nil_iff.mpr
          intro c hc
          rw [hok.sameHost (eq_false_of_ne_true hsub) c hc]
          exact Bool.false_ne_true
        rw [hnone]
        exact Nat.le_refl 0

theorem length_bulkUrls : ((bulkUrls config args).toOption.getD []).length ≤ config.server.maxExtractUrls := by
  unfold bulkUrls
  split
  · exact Nat.zero_le _
  · dsimp only
    split
    · exact Nat.zero_le _
    · rename_i urls _ hmax
      exact Nat.not_lt.mp hmax

/-- A plan scrapes ten results at most. -/
theorem toScrape_le_ten {env : ScrapeEnv} {plan : Plan} (h : planScrape env config args = .ok (.inr plan)) : plan.toScrape ≤ 10 := by
  unfold planScrape at h
  split at h
  · cases h
  · dsimp only at h
    split at h
    · cases h
    · split at h
      · cases h
      · split at h
        · cases h
        · obtain rfl := Sum.inr.inj (Except.ok.inj h)
          show min _ (max 1 (min _ 10)) ≤ 10
          omega

theorem length_scrapedUrls : (scrapedUrls libs nets config args).length ≤ 10 := by
  unfold scrapedUrls
  split
  · rename_i plan hplan
    rw [List.length_map]
    exact Nat.le_trans (List.length_take_le _ _) (toScrape_le_ten hplan)
  · exact Nat.zero_le _

/-- The method of a tool's requests, but for what it asks of a provider. -/
def toolMethod : Tool → Method
  | .webFetchHeaders | .webCheckLinks => .head
  | _ => .get

/-- The search a tool asks of the provider. -/
def toolSearch (config : Config) (args : Option Value) (query : Text) : Tool → Option SearchRequest
  | .webSearch => some (searchRequest config args query)
  | .webSearchScrape => some (scrapeRequest config args query)
  | _ => none

/-- The requests a call of a tool may send. -/
def requestBudget (config : Config) : Tool → Nat
  | .webScrape | .webFetch | .webFetchText | .webFetchHeaders | .webSitemap => config.maxRedirects + 1
  | .webMap => 2 * (config.maxRedirects + 1)
  | .webExtract => config.server.maxExtractUrls * (config.maxRedirects + 1)
  | .webCheckLinks => config.server.maxExtractUrls
  | .webSearchScrape => 1 + 10 * (config.maxRedirects + 1)
  | .webSearch => 1
  | .browserScrape | .browserScreenshot => 0

/-- The lookups a call of a tool may make. -/
def lookupBudget (config : Config) (args : Option Value) : Tool → Nat
  | .webScrape | .webFetch | .webFetchText => 2 * (config.maxRedirects + 1)
  | .webFetchHeaders | .webSitemap => 2 * (config.maxRedirects + 1) + 1
  | .webMap =>
      4 * (config.maxRedirects + 1) + 1 +
        if (getOptBool args "includeSubdomains").getD false then config.server.maxMapUrls else 0
  | .webExtract => config.server.maxExtractUrls * (2 * (config.maxRedirects + 1))
  | .webCheckLinks => config.server.maxExtractUrls * 2
  | .webSearchScrape => 10 * (2 * (config.maxRedirects + 1))
  | .webSearch => 0
  | .browserScrape | .browserScreenshot => 1

def Outgoing.isLookup : Outgoing → Bool
  | .net e => e.isLookup
  | .ask _ => false

def Outgoing.isRequest : Outgoing → Bool
  | .net e => e.isRequest
  | .ask _ => true

/-- The program asks the provider at most once, for one of these searches. -/
def Asks (api : Providers.Api) (config : Config) (searches : Text → Option SearchRequest) (program : Providers.ApiM Unit) : Prop :=
  (program []).2 = [] ∨
    ∃ query req r, searches query = some req ∧ Providers.requestOf api config.provider req = .ok r ∧ (program []).2 = [r]

theorem asks_webSearch (api : Providers.Api) (config : Config) (args : Option Value) :
    Asks api config (toolSearch config args · .webSearch) (webSearch api config args).discard := by
  unfold Asks
  rw [discard_state]
  rcases @Providers.webSearch_sent api config args [] with hnone | ⟨query, r, hr, hone⟩
  · exact .inl hnone
  · exact .inr ⟨query, _, r, rfl, hr, hone⟩

theorem asks_scrapeSearch (api : Providers.Api) (config : Config) (args : Option Value) :
    Asks api config (toolSearch config args · .webSearchScrape) (scrapeSearch api config args) := by
  unfold Asks scrapeSearch
  rw [ofExcept_bind]
  cases getStrArg args "query" with
  | error e => exact .inl rfl
  | ok query =>
      dsimp only
      split
      · exact .inl rfl
      · rw [discard_state]
        rcases Providers.search_sent rfl with hnone | ⟨r, hr, hone⟩
        · exact .inl hnone
        · exact .inr ⟨query, _, r, rfl, hr, hone⟩

/-- The task keeps to the policy on the network, with this method, and asks a provider for these searches only. -/
def Task.Keeps (api : Providers.Api) (config : Config) (method : Method) (searches : Text → Option SearchRequest) : Task → Prop
  | .fetch net program => ∃ l r, Proper (Guarded net config) method l r (program World.initial).2.trace
  | .ask program => Asks api config searches program

/-- The tasks keep to the policy, and together within a budget. -/
structure Budgeted (api : Providers.Api) (config : Config) (method : Method) (searches : Text → Option SearchRequest)
    (lookups requests : Nat) (ts : List Task) : Prop where
  keeps : ∀ t ∈ ts, t.Keeps api config method searches
  lookups : (ts.map fun t => t.trace.countP Outgoing.isLookup).sum ≤ lookups
  requests : (ts.map fun t => t.trace.countP Outgoing.isRequest).sum ≤ requests

section Budgets

variable {api : Providers.Api} {method : Method} {searches : Text → Option SearchRequest} {l r l' r' : Nat} {ts : List Task}

theorem Budgeted.nil : Budgeted api config method searches 0 0 [] where
  keeps _ h := absurd h List.not_mem_nil
  lookups := Nat.le_refl 0
  requests := Nat.le_refl 0

theorem Budgeted.cons {t : Task} (ht : t.Keeps api config method searches) (hl : t.trace.countP Outgoing.isLookup ≤ l)
    (hr : t.trace.countP Outgoing.isRequest ≤ r) (hts : Budgeted api config method searches l' r' ts) :
    Budgeted api config method searches (l + l') (r + r') (t :: ts) where
  keeps t' h := by
    rcases List.mem_cons.mp h with rfl | h
    · exact ht
    · exact hts.keeps t' h
  lookups := Nat.add_le_add hl hts.lookups
  requests := Nat.add_le_add hr hts.requests

theorem Budgeted.mono (h : Budgeted api config method searches l r ts) (hl : l ≤ l') (hr : r ≤ r') :
    Budgeted api config method searches l' r' ts where
  keeps := h.keeps
  lookups := Nat.le_trans h.lookups hl
  requests := Nat.le_trans h.requests hr

/-- A task on the network, before the others. -/
theorem Budgeted.fetch {net : Net} {program : NetM Unit} (hm : Outbound (Guarded net config) method l r program)
    (hts : Budgeted api config method searches l' r' ts) :
    Budgeted api config method searches (l + l') (r + r') (.fetch net program :: ts) := by
  have hproper := proper_of_outbound hm
  refine Budgeted.cons ⟨l, r, hproper⟩ ?_ ?_ hts
  · show ((program World.initial).2.trace.map Outgoing.net).countP Outgoing.isLookup ≤ l
    rw [List.countP_map]
    exact hproper.within.lookups
  · show ((program World.initial).2.trace.map Outgoing.net).countP Outgoing.isRequest ≤ r
    rw [List.countP_map]
    exact hproper.within.requests

/-- A task that asks a provider: one request, and no lookup of the server's own. -/
theorem Budgeted.ask {program : Providers.ApiM Unit} (hm : Asks api config searches program)
    (hts : Budgeted api config method searches l r ts) :
    Budgeted api config method searches l (1 + r) (.ask program :: ts) := by
  have hlength : (program []).2.length ≤ 1 := by
    rcases hm with hnone | ⟨-, -, r, -, -, hone⟩
    · rw [hnone]
      exact Nat.zero_le 1
    · rw [hone]
      exact Nat.le_refl 1
  have hkeeps : (Task.ask program).Keeps api config method searches := hm
  have hlookups : (Task.ask program).trace.countP Outgoing.isLookup ≤ 0 := by
    show ((program []).2.map Outgoing.ask).countP Outgoing.isLookup ≤ 0
    rw [List.countP_map]
    exact Nat.le_of_eq (List.countP_eq_zero.mpr fun _ _ => Bool.false_ne_true)
  have hrequests : (Task.ask program).trace.countP Outgoing.isRequest ≤ 1 := by
    refine Nat.le_trans List.countP_le_length ?_
    rw [Task.trace, List.length_map]
    exact hlength
  refine (Budgeted.cons hkeeps hlookups hrequests hts).mono (Nat.le_of_eq (Nat.zero_add l)) (Nat.le_refl _)

theorem Budgeted.single {net : Net} {program : NetM Unit} (hm : Outbound (Guarded net config) method l r program) :
    Budgeted api config method searches l r [.fetch net program] := Budgeted.fetch hm Budgeted.nil

/-- The tasks of a bulk tool: as often the budget of one. -/
theorem Budgeted.perUrl (nets : Nat → Net) (program : Net → Text → NetM Unit) (urls : List Text)
    (h : ∀ net url, Outbound (Guarded net config) method l r (program net url)) :
    Budgeted api config method searches (urls.length * l) (urls.length * r) (perUrl nets program urls) := by
  induction urls generalizing nets with
  | nil => exact Budgeted.nil.mono (Nat.zero_le _) (Nat.zero_le _)
  | cons url urls ih =>
      have hcons : Server.perUrl nets program (url :: urls) =
          .fetch (nets 0) (program (nets 0) url) :: Server.perUrl (fun i => nets (i + 1)) program urls := List.mapIdx_cons
      rw [hcons]
      refine (Budgeted.fetch (h (nets 0) url) (ih fun i => nets (i + 1))).mono ?_ ?_
      · rw [List.length_cons, Nat.succ_mul, Nat.add_comm]
      · rw [List.length_cons, Nat.succ_mul, Nat.add_comm]

end Budgets

/-- **The tasks of a call**, whatever its tool and its arguments. -/
theorem budgeted_tasks (tool : Tool) :
    Budgeted libs.api config (toolMethod tool) (toolSearch config args · tool) (lookupBudget config args tool)
      (requestBudget config tool) (tasks libs config nets args tool) := by
  have hfetch {searches : Text → Option SearchRequest} (urls : List Text) {n : Nat} (hn : urls.length ≤ n) :
      Budgeted libs.api config .get searches (n * (2 * (config.maxRedirects + 1))) (n * (config.maxRedirects + 1))
        (perUrl nets (fun net url => (fetchPage net config url).discard) urls) :=
    (Budgeted.perUrl nets _ urls fun net url => Emits.discard (outbound_fetchPage url)).mono (Nat.mul_le_mul_right _ hn)
      (Nat.mul_le_mul_right _ hn)
  cases tool with
  | webSearch => exact Budgeted.ask (asks_webSearch libs.api config args) Budgeted.nil
  | browserScrape | browserScreenshot => exact Budgeted.single (outbound_browserCheck args)
  | webScrape => exact Budgeted.single (Emits.discard (outbound_webScrape _ args))
  | webFetch => exact Budgeted.single (Emits.discard (outbound_fetchAs _ _ args))
  | webFetchText => exact Budgeted.single (Emits.discard (outbound_fetchAs _ _ args))
  | webFetchHeaders => exact Budgeted.single (Emits.discard (outbound_webFetchHeaders args))
  | webSitemap =>
      refine (Budgeted.single (Emits.discard (outbound_webSitemap _ args))).mono ?_ ?_
      · show 1 + 2 * (config.maxRedirects + 1) ≤ 2 * (config.maxRedirects + 1) + 1
        omega
      · show 0 + (config.maxRedirects + 1) ≤ config.maxRedirects + 1
        omega
  | webExtract => exact hfetch _ length_bulkUrls
  | webSearchScrape => exact Budgeted.ask (asks_scrapeSearch libs.api config args) (hfetch _ length_scrapedUrls)
  | webCheckLinks =>
      refine (Budgeted.perUrl nets (fun net url => (checkOneLink net config url).discard) _ fun net url =>
        Emits.discard (outbound_checkOneLink url)).mono ?_ ?_
      · exact Nat.mul_le_mul_right 2 length_bulkUrls
      · rw [Nat.mul_one]
        exact length_bulkUrls
  | webMap =>
      have hchecks : Budgeted libs.api config .get (fun query => toolSearch config args query .webMap) _ _ _ :=
        Budgeted.perUrl (fun i => nets (i + 1)) (fun net u => (validateUrl net u config.allowPrivateHosts).discard)
          (candidatesToCheck (nets 0) libs.docs config args) fun net url => Emits.discard (outbound_validateUrl .get url)
      have hlength := length_candidatesToCheck config args (nets 0) libs.docs
      refine (Budgeted.fetch (Emits.discard (outbound_mapCandidates libs.docs args)) hchecks).mono ?_ ?_
      · show _ ≤ 4 * (config.maxRedirects + 1) + 1 +
          if (mapOptions libs.docs config args).includeSubdomains then config.server.maxMapUrls else 0
        omega
      · show _ ≤ 2 * (config.maxRedirects + 1)
        omega

/-- A request that runs a handler is a `tools/call` of an available tool, and it is the only one it runs. -/
theorem handlers_of_request {h : Handlers} {req : JsonRpcRequest} {tool : Tool} (hmem : tool ∈ (processRequest h config req).2) :
    req.method = "tools/call" ∧ (processRequest h config req).2 = [tool] ∧
      ∃ name, callName req = some name ∧ toolTable.lookup name = some tool ∧
        Tools.isToolAvailable name config.server.enabledCategories = true := by
  by_cases hmethod : req.method = "tools/call"
  · refine ⟨hmethod, ?_⟩
    rcases @processRequest_call_cases h config req hmethod with
      ⟨-, hrun⟩ | ⟨name, -, -, hrun⟩ | ⟨name, tool', hname, havail, hlookup, hrun⟩
    · rw [hrun] at hmem
      exact absurd hmem List.not_mem_nil
    · rw [hrun] at hmem
      exact absurd hmem List.not_mem_nil
    · rw [hrun] at hmem ⊢
      obtain rfl := List.mem_singleton.mp hmem
      exact ⟨rfl, name, hname, hlookup, havail⟩
  · -- the other methods are answered without a handler
    have hnone : (processRequest h config req).2 = [] := by
      unfold processRequest
      rw [if_neg hmethod]
      repeat' split
      all_goals rfl
    rw [hnone] at hmem
    exact absurd hmem List.not_mem_nil

variable {h : Handlers} {calls : List Call}

/-- `web_fetch` of a site that redirects to an internal address, and nothing else. -/
def redirectCall : Call where
  req := ⟨"2.0", "tools/call", some (.object [("name", .string "web_fetch"),
    ("arguments", .object [("url", .string "http://example.com/")])]), none⟩
  nets _ := redirectNet

/-- Libraries that see an empty page in each body. -/
def emptyLibraries : Libraries where
  scrape := ⟨fun _ => ⟨[], none, []⟩, .ok, fun _ => []⟩
  docs := ⟨fun _ => [], fun _ => [], fun _ => none, fun _ => [], .ascii⟩
  api := Providers.steadyApi .elapsed
  cpus := 1

/-- What becomes of that call. -/
theorem redirectCall_traffic :
    Traffic stalledHandlers emptyLibraries stalledConfig [redirectCall]
      (((fetchPage redirectNet stalledConfig "http://example.com/" World.initial).2.trace.map Outgoing.net).map (Prod.mk 0)) :=
  Interleave.of_single _

/-- What the traffic of some calls has of a kind of event is no more than their tools are budgeted for. -/
theorem Traffic.countP_le {libs : Libraries} {calls : List Call} {trace : List (Nat × Outgoing)} {p : Outgoing → Bool}
    {budget : Call → Tool → Nat} (htraffic : Traffic h libs config calls trace)
    (hbudget : ∀ c ∈ calls, ∀ tool, ((tasks libs config c.nets (callArgs c.req) tool).map fun t => t.trace.countP p).sum ≤
      budget c tool) :
    trace.countP (fun x => p x.2) ≤ (calls.map fun c => ((processRequest h config c.req).2.map (budget c)).sum).sum := by
  refine Nat.le_trans (Interleave.Of.countP_le htraffic p) ?_
  clear htraffic
  induction calls with
  | nil => exact Nat.le_refl 0
  | cons c calls ih =>
      rw [List.flatMap_cons, List.map_append, List.map_append, List.sum_append, List.map_cons, List.sum_cons]
      refine Nat.add_le_add ?_ (ih fun c' hc' => hbudget c' (List.mem_cons_of_mem c hc'))
      unfold Call.tasks
      generalize (processRequest h config c.req).2 = tools
      induction tools with
      | nil => exact Nat.le_refl 0
      | cons tool tools ih' =>
          rw [List.flatMap_cons, List.map_append, List.map_append, List.sum_append, List.map_cons, List.sum_cons]
          refine Nat.add_le_add ?_ ih'
          rw [List.map_map]
          exact hbudget c List.mem_cons_self tool

/-- **What the calls can make the server send.** In any interleaving of any calls there are at most as many requests, those to a
    provider included, and as many lookups of the server's own, as the budgets of the tools called allow: for a page tool one
    request for each of the redirects it may follow and one more, for a bulk tool that for each of the URLs it takes, and one more
    for the search of `web_search_scrape`; `web_search` sends one, and a browser tool none but makes a lookup. `web_map` looks up
    candidates only if it is asked for subdomains: otherwise what a sitemap lists makes no lookup. -/
theorem outbound_budget (h : Handlers) (libs : Libraries) (config : Config) (calls : List Call)
    (trace : List (Nat × Outgoing)) (htraffic : Traffic h libs config calls trace) :
    trace.countP (fun x => x.2.isRequest) ≤
        (calls.map fun c => ((processRequest h config c.req).2.map (requestBudget config)).sum).sum ∧
      trace.countP (fun x => x.2.isLookup) ≤
        (calls.map fun c => ((processRequest h config c.req).2.map (lookupBudget config (callArgs c.req))).sum).sum :=
  ⟨htraffic.countP_le fun _ _ tool => (budgeted_tasks tool).requests,
    htraffic.countP_le fun _ _ tool => (budgeted_tasks tool).lookups⟩

/-- Five redirects are followed at most. -/
theorem outbound_budget_redirect :
    (((fetchPage redirectNet stalledConfig "http://example.com/" World.initial).2.trace.map Outgoing.net).map (Prod.mk 0)).countP
      (fun x : Nat × Outgoing => x.2.isRequest) ≤ 6 :=
  (outbound_budget stalledHandlers emptyLibraries stalledConfig [redirectCall] _ redirectCall_traffic).1

end Server

end McpWebSearch
