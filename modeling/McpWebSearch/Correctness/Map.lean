import McpWebSearch.Actions.Map
import McpWebSearch.Correctness.Verdict
import McpWebSearch.Lib.Firsts

/-!
# `Correctness.Map` — what `web_map` lists

`selected` is what the loop computes: of all URLs, those in scope, each once, up to the limit (`considered_eq`). The validation
pass drops of these the ones of another host that are rejected, whatever its schedule (`mapUrls_eq_spec`).

The scope compares texts in lower case. What is asked for (`askedFor`) is a search string but for the case of its letters, and
`str::to_lowercase` writes `Σ` in two ways: the output is what is asked for exactly if nothing of it is overlooked for that
(`output_asked_iff`).
-/

namespace McpWebSearch

open Utf8

/-- `host_str` as documented: a URL has one when it has a host, and that of an http(s) URL tells the host. -/
structure Documents.HostLaws (docs : Documents) (urls : UrlParser) : Prop where
  hostStr_of_host : ∀ raw url, urls.parse raw = .ok url → url.host ≠ none → docs.hostStr url ≠ none
  host_of_hostStr : ∀ raw raw' url url', urls.parse raw = .ok url → urls.parse raw' = .ok url' →
    HttpUrl url → HttpUrl url' → docs.hostStr url = docs.hostStr url' → url.host = url'.host

namespace Actions

variable {urls : UrlParser} {docs : Documents} {opts : MapOptions} {baseHost : Text}

/-! ## The candidates -/

/-- A URL in scope: it has the start host, or a subdomain of it where these are included, and in lower case it
    contains the search string in lower case. -/
def InScope (urls : UrlParser) (docs : Documents) (opts : MapOptions) (baseHost url : Text) : Prop :=
  (∃ host ∈ parsedHost urls docs url,
    host = baseHost ∨ opts.includeSubdomains = true ∧ ('.' :: baseHost) <:+ host) ∧
    ∀ f ∈ opts.filter, f <:+: docs.toLowercase url

instance (url : Text) : Decidable (InScope urls docs opts baseHost url) := inferInstanceAs (Decidable (_ ∧ _))

def inScope (urls : UrlParser) (docs : Documents) (opts : MapOptions) (baseHost url : Text) : Bool :=
  decide (InScope urls docs opts baseHost url)

/-- The URLs in scope, each at its first occurrence, up to the limit. -/
def selected (urls : UrlParser) (docs : Documents) (opts : MapOptions) (baseHost : Text) (us : List Text) :
    List Text :=
  ((us.filter (inScope urls docs opts baseHost)).eraseDups).take opts.limit

/-- Whether a URL has the start host itself. -/
def sameHost (urls : UrlParser) (docs : Documents) (baseHost url : Text) : Bool :=
  parsedHost urls docs url == some baseHost

/-- `host_allowed_host`: the start host, or a subdomain. -/
theorem hostAllowedHost_iff {host : Text} {subdomains : Bool} :
    hostAllowedHost host baseHost subdomains = true ↔
      host = baseHost ∨ subdomains = true ∧ ('.' :: baseHost) <:+ host := by
  unfold hostAllowedHost
  rw [Bool.or_eq_true, Bool.and_eq_true, beq_iff_eq, List.isSuffixOf_iff_suffix]
  rfl

/-- The two checks of `consider` on a URL that has a host are the scope. -/
theorem inScope_of_host {url host : Text} (hhost : parsedHost urls docs url = some host) :
    inScope urls docs opts baseHost url =
      (hostAllowedHost host baseHost opts.includeSubdomains &&
        !opts.filter.any (fun f => !contains (docs.toLowercase url) f)) := by
  unfold inScope
  rw [Bool.eq_iff_iff, decide_eq_true_iff, Bool.and_eq_true, hostAllowedHost_iff]
  unfold InScope
  rw [hhost]
  refine and_congr ?_ ?_
  · simp
  · cases opts.filter with
    | none => simp
    | some f => simp [contains]

/-- A URL without a host is out of scope. -/
theorem inScope_of_no_host {url : Text} (hhost : parsedHost urls docs url = none) :
    inScope urls docs opts baseHost url = false := by
  apply decide_eq_false
  rintro ⟨⟨host, hmem, -⟩, -⟩
  rw [hhost] at hmem
  cases hmem

/-- **One call of `consider`**: with room for it, a URL in scope that is new is a candidate. -/
theorem consider_eq (st : Candidates) (url : Text) :
    consider urls docs opts baseHost st url =
      if st.candidates.length < opts.limit ∧ inScope urls docs opts baseHost url = true ∧ url ∉ st.seen then
        { candidates := st.candidates ++ [(url, !sameHost urls docs baseHost url)], seen := url :: st.seen }
      else st := by
  unfold consider
  by_cases hroom : st.candidates.length < opts.limit
  · rw [if_neg (Nat.not_le.mpr hroom)]
    cases hhost : parsedHost urls docs url with
    | none =>
        rw [inScope_of_no_host hhost, if_neg (fun h => Bool.false_ne_true h.2.1)]
    | some host =>
        have hsame : sameHost urls docs baseHost url = (host == baseHost) := by
          unfold sameHost
          rw [hhost]
          rfl
        rw [inScope_of_host hhost, hsame]
        by_cases hallowed : hostAllowedHost host baseHost opts.includeSubdomains = true
        · by_cases hfilter : opts.filter.any (fun f => !contains (docs.toLowercase url) f) = true
          · simp [hallowed, hfilter]
          · by_cases hseen : url ∈ st.seen
            · simp [hallowed, hfilter, hseen]
            · simp [hallowed, hfilter, hseen, hroom, bne]
        · simp [hallowed]
  · rw [if_pos (Nat.not_lt.mp hroom), if_neg (fun h => hroom h.1)]

theorem selected_eq_firsts (us : List Text) :
    selected urls docs opts baseHost us = Firsts.firsts (inScope urls docs opts baseHost) opts.limit us := rfl

/-- **What the loop selects**: the candidates are the selected URLs, each with whether it has another host. -/
theorem considered_eq (us : List Text) :
    (us.foldl (consider urls docs opts baseHost) ⟨[], []⟩).candidates =
        (selected urls docs opts baseHost us).map (fun u => (u, !sameHost urls docs baseHost u)) ∧
      ∀ u, u ∈ (us.foldl (consider urls docs opts baseHost) ⟨[], []⟩).seen ↔
        u ∈ selected urls docs opts baseHost us := by
  induction us using List.reverseRecOn with
  | nil => simp [selected]
  | append_singleton us u ih =>
      obtain ⟨ihcandidates, ihseen⟩ := ih
      rw [List.foldl_append, List.foldl_cons, List.foldl_nil, consider_eq]
      generalize us.foldl (consider urls docs opts baseHost) ⟨[], []⟩ = st at ihcandidates ihseen ⊢
      have hlength : st.candidates.length = (selected urls docs opts baseHost us).length := by
        rw [ihcandidates, List.length_map]
      rw [hlength]
      by_cases hroom : (selected urls docs opts baseHost us).length < opts.limit
      · rw [selected_eq_firsts (us ++ [u]), Firsts.firsts_snoc_of_room hroom, ← selected_eq_firsts]
        by_cases hnew : inScope urls docs opts baseHost u = true ∧ u ∉ selected urls docs opts baseHost us
        · rw [if_pos ⟨hroom, hnew.1, fun h => hnew.2 ((ihseen u).mp h)⟩, if_pos (by simpa using hnew)]
          constructor
          · simp [ihcandidates]
          · intro v
            simp [ihseen, or_comm]
        · rw [if_neg (fun h => hnew ⟨h.2.1, fun hmem => h.2.2 ((ihseen u).mpr hmem)⟩), if_neg (by simpa using hnew),
            List.append_nil]
          exact ⟨ihcandidates, ihseen⟩
      · rw [selected_eq_firsts (us ++ [u]), Firsts.firsts_snoc_of_full hroom, if_neg (fun h => hroom h.1)]
        exact ⟨ihcandidates, ihseen⟩

/-! ## The output -/

/-- The purpose of `web_map` on the entries of the sitemap and the links of the page: what is selected of them,
    without the URLs of another host that are not `accepted`. -/
def mapSpec (urls : UrlParser) (docs : Documents) (opts : MapOptions) (baseHost : Text) (accepted : Text → Bool)
    (locs links : List Text) : List Text :=
  (selected urls docs opts baseHost (locs ++ links)).filter (fun u => sameHost urls docs baseHost u || accepted u)

/-- The verdict of the validation pass on a URL: that on the candidate it is. -/
def verdict (urls : UrlParser) (docs : Documents) (opts : MapOptions) (baseHost : Text)
    (validated : Nat → Text → Bool) (us : List Text) (u : Text) : Bool :=
  validated ((selected urls docs opts baseHost us).idxOf u) u

/-- No URL is selected twice. -/
theorem selected_nodup (us : List Text) : (selected urls docs opts baseHost us).Nodup := Firsts.nodup_firsts

/-- What is selected is in scope. -/
theorem inScope_of_mem_selected {us : List Text} {u : Text} (h : u ∈ selected urls docs opts baseHost us) :
    u ∈ us ∧ InScope urls docs opts baseHost u := by
  obtain ⟨hus, hscope, -⟩ := Firsts.mem_firsts_iff.mp h
  exact ⟨hus, of_decide_eq_true hscope⟩

/-- A candidate stays if it has the start host, or else by its verdict. -/
theorem keepCandidate_eq (validated : Nat → Text → Bool) (i : Nat) (u : Text) (same : Bool) :
    keepCandidate validated i (u, !same) = if same || validated i u then some u else none := by
  cases same with
  | true => rfl
  | false => rfl

/-- **The validation pass** drops the candidates of another host with a negative verdict, and no others. -/
theorem keepCandidates_eq (validated : Nat → Text → Bool) (us : List Text) :
    ((((selected urls docs opts baseHost us).map (fun u => (u, !sameHost urls docs baseHost u))).mapIdx
        (keepCandidate validated)).filterMap id) =
      (selected urls docs opts baseHost us).filter (fun u =>
        sameHost urls docs baseHost u || verdict urls docs opts baseHost validated us u) := by
  have hkeep : ((selected urls docs opts baseHost us).map (fun u => (u, !sameHost urls docs baseHost u))).mapIdx
      (keepCandidate validated) = (selected urls docs opts baseHost us).mapIdx (fun i u =>
        if sameHost urls docs baseHost u || validated i u then some u else none) := by
    apply List.ext_getElem
    · rw [List.length_mapIdx, List.length_mapIdx, List.length_map]
    · intro i hi hi'
      rw [List.getElem_mapIdx, List.getElem_mapIdx, List.getElem_map]
      exact keepCandidate_eq validated i _ _
  rw [hkeep, Firsts.mapIdx_eq_map_idxOf (selected_nodup us), List.filterMap_map, ← List.filterMap_eq_filter]
  apply List.filterMap_congr
  intro u _
  show (if _ then some u else none) = if _ then some u else none
  rfl

/-- **Whatever the schedule**: once it is finished, the output is that of the specification. -/
theorem mapUrls_eq_spec {cpus : Nat} {validated : Nat → Text → Bool} {sched : List Buffered.Move}
    {locs links out : List Text}
    (h : mapUrls urls docs opts baseHost cpus validated sched locs links = some out) :
    out = mapSpec urls docs opts baseHost (verdict urls docs opts baseHost validated (locs ++ links))
      locs links := by
  unfold mapUrls validationPass at h
  dsimp only at h
  rw [← List.foldl_append, (considered_eq (locs ++ links)).1] at h
  obtain ⟨s, hrun, hout⟩ := Option.bind_eq_some_iff.mp h
  obtain ⟨hfinished, heq⟩ := Option.ite_none_right_eq_some.mp hout
  rw [Buffered.out_of_finished hrun hfinished] at heq
  rw [← Option.some.inj heq, keepCandidates_eq]
  rfl

/-- A URL of the output: selected, and of the start host or with a positive verdict. -/
theorem mem_output_iff {cpus : Nat} {validated : Nat → Text → Bool} {sched : List Buffered.Move}
    {locs links out : List Text} {u : Text}
    (h : mapUrls urls docs opts baseHost cpus validated sched locs links = some out) :
    u ∈ out ↔ u ∈ selected urls docs opts baseHost (locs ++ links) ∧
      (sameHost urls docs baseHost u = true ∨
        verdict urls docs opts baseHost validated (locs ++ links) u = true) := by
  rw [mapUrls_eq_spec h, mapSpec, List.mem_filter, Bool.or_eq_true]

/-- Some schedule finishes the pass: at least eight futures are polled at a time. -/
theorem mapUrls_finishes (cpus : Nat) (validated : Nat → Text → Bool) (locs links : List Text) :
    ∃ sched out, mapUrls urls docs opts baseHost cpus validated sched locs links = some out := by
  unfold mapUrls validationPass
  have hpositive : 0 < max (cpus * 2) 8 := by omega
  obtain ⟨sched, s, hrun, hfinished⟩ := @Buffered.exists_finished _ _ _ (keepCandidate validated)
    (links.foldl (consider urls docs opts baseHost)
      (locs.foldl (consider urls docs opts baseHost) ⟨[], []⟩)).candidates hpositive
  refine ⟨sched, s.out.filterMap id, ?_⟩
  dsimp only
  rw [hrun, Option.bind_some, if_pos hfinished]

/-! ## What is asked for -/

section Asked

variable (urls : UrlParser) (docs : Documents) (config : Config) (args : Option Value) (baseHost : Text)

/-- A URL that is asked for: it has the start host, or a subdomain of it where these are included, and it contains the search string
    but for the case of its letters. -/
def Asked (url : Text) : Prop :=
  InScope urls docs { mapOptions docs config args with filter := none } baseHost url ∧
    ∀ s ∈ getOptStr args "search", docs.caseData.foldCase s <:+: docs.caseData.foldCase url

instance (url : Text) : Decidable (Asked urls docs config args baseHost url) := inferInstanceAs (Decidable (_ ∧ _))

def asked (url : Text) : Bool := decide (Asked urls docs config args baseHost url)

/-- The purpose of `web_map`: of the entries of the sitemap and the links of the page those that are asked for, each once, up to the
    limit, and of these not the ones of another host that are not `accepted`. -/
def askedFor (accepted : Text → Bool) (locs links : List Text) : List Text :=
  (Firsts.firsts (asked urls docs config args baseHost) (mapOptions docs config args).limit (locs ++ links)).filter
    fun u => sameHost urls docs baseHost u || accepted u

/-- A URL that is asked for, and does not contain the search string in lower case. -/
def Overlooked (url : Text) : Prop :=
  Asked urls docs config args baseHost url ∧ ¬ InScope urls docs (mapOptions docs config args) baseHost url

/-- Of the entries and links that have the start host or are accepted, none that is overlooked comes within the limit; and none that is
    in scope comes within the limit only because those that are overlooked before it do not count. -/
structure NoneOverlooked (accepted : Text → Bool) (us : List Text) : Prop where
  overlooked : ∀ u ∈ us, Overlooked urls docs config args baseHost u → (sameHost urls docs baseHost u || accepted u) = true →
    (mapOptions docs config args).limit ≤ (Firsts.before (asked urls docs config args baseHost) us u).length
  late : ∀ u ∈ us, InScope urls docs (mapOptions docs config args) baseHost u →
    (sameHost urls docs baseHost u || accepted u) = true →
    (mapOptions docs config args).limit ≤ (Firsts.before (asked urls docs config args baseHost) us u).length →
    (mapOptions docs config args).limit ≤
      (Firsts.before (inScope urls docs (mapOptions docs config args) baseHost) us u).length

end Asked

variable {config : Config} {args : Option Value}

/-- What is in scope is asked for. -/
theorem Asked.of_inScope {u : Text} (h : InScope urls docs (mapOptions docs config args) baseHost u) :
    Asked urls docs config args baseHost u := by
  obtain ⟨hhost, hfilter⟩ := h
  refine ⟨⟨hhost, fun f hf => by cases hf⟩, fun s hs => ?_⟩
  apply CaseData.foldCase_infix_of_toLowercase
  exact hfilter _ (Option.mem_map_of_mem docs.toLowercase hs)

/-- What is overlooked has to do with the end of a word. -/
theorem Overlooked.final {u : Text} (h : Overlooked urls docs config args baseHost u) :
    ∃ s ∈ getOptStr args "search", 'ς' ∈ docs.toLowercase s ∨ 'ς' ∈ docs.toLowercase u := by
  obtain ⟨⟨hscope, hsearch⟩, hnot⟩ := h
  cases hs : getOptStr args "search" with
  | none =>
      refine absurd ⟨hscope.1, fun f hf => ?_⟩ hnot
      unfold mapOptions at hf
      rw [hs] at hf
      cases hf
  | some s =>
      refine ⟨s, rfl, CaseData.final_of_overlooked (hsearch s hs) fun hlower => hnot ⟨hscope.1, fun f hf => ?_⟩⟩
      unfold mapOptions at hf
      rw [hs] at hf
      obtain rfl := Option.some.inj hf
      exact hlower

/-- **When the output is what is asked for**, `accepted` telling of each candidate of another host what the pass found. -/
theorem output_asked_iff {cpus : Nat} {validated : Nat → Text → Bool} {sched : List Buffered.Move} {locs links out : List Text}
    {accepted : Text → Bool}
    (h : mapUrls urls docs (mapOptions docs config args) baseHost cpus validated sched locs links = some out)
    (haccepted : ∀ u ∈ selected urls docs (mapOptions docs config args) baseHost (locs ++ links),
      sameHost urls docs baseHost u = false →
        accepted u = verdict urls docs (mapOptions docs config args) baseHost validated (locs ++ links) u) :
    out = askedFor urls docs config args baseHost accepted locs links ↔
      NoneOverlooked urls docs config args baseHost accepted (locs ++ links) := by
  have hout : out = (Firsts.firsts (inScope urls docs (mapOptions docs config args) baseHost)
      (mapOptions docs config args).limit (locs ++ links)).filter fun u => sameHost urls docs baseHost u || accepted u := by
    rw [mapUrls_eq_spec h, mapSpec]
    apply List.filter_congr
    intro u hu
    cases hsame : sameHost urls docs baseHost u with
    | true => rfl
    | false => rw [haccepted u hu hsame]
  have himp : ∀ u, inScope urls docs (mapOptions docs config args) baseHost u = true →
      asked urls docs config args baseHost u = true :=
    fun u hu => decide_eq_true (Asked.of_inScope (of_decide_eq_true hu))
  rw [hout, askedFor, Firsts.filter_firsts_eq_iff himp]
  constructor
  · rintro ⟨hoverlooked, hlate⟩
    exact ⟨fun u hus hover hkept => hoverlooked u hus (decide_eq_true hover.1) (decide_eq_false hover.2) hkept,
      fun u hus hscope hkept => hlate u hus (decide_eq_true hscope) hkept⟩
  · rintro ⟨hoverlooked, hlate⟩
    exact ⟨fun u hus hasked hscope hkept => hoverlooked u hus ⟨of_decide_eq_true hasked, of_decide_eq_false hscope⟩ hkept,
      fun u hus hscope hkept => hlate u hus (of_decide_eq_true hscope) hkept⟩

/-! ## A site whose sitemap lists an `ftp` URL -/

/-- The URLs of the site. -/
def siteUrls : List Url :=
  [⟨"http://example.com/", "http", some (.domain "example.com"), some 80⟩,
    ⟨"http://example.com/sitemap.xml", "http", some (.domain "example.com"), some 80⟩,
    ⟨"http://blog.example.com/", "http", some (.domain "blog.example.com"), some 80⟩,
    ⟨"ftp://example.com/pub", "ftp", some (.domain "example.com"), some 21⟩]

def siteParse (raw : Text) : Except Text Url :=
  match siteUrls.find? (fun url => url.asStr = raw) with
  | some url => .ok url
  | none => .error "relative URL without a base"

/-- The site serves its sitemap and nothing else. -/
def siteNet : Net where
  urls := ⟨siteParse, fun _ link => siteParse ("http://example.com" ++ link)⟩
  lookupHost _ _ port := .ok [⟨.v4 ⟨93, 184, 216, 34⟩, port⟩]
  build _ := .ok ()
  connects _ := documentedConnects
  send _ _ _ url :=
    if url.asStr = "http://example.com/sitemap.xml" then
      .received ⟨200, [], [.ok (bytes "<loc>ftp://example.com/pub</loc>")]⟩
    else .received ⟨404, [], []⟩
  canonicalReason _ := none

def siteDocs : Documents where
  events body :=
    if body = "<loc>ftp://example.com/pub</loc>" then
      [.start "loc", .text (some "ftp://example.com/pub"), .close "loc"]
    else []
  hrefs _ := []
  hostStr url := url.host.map (fun host =>
    match host with
    | .domain d => d
    | .ipv4 ip => ip.display
    | .ipv6 ip => "[" ++ ip.display ++ "]")
  origin url := url.scheme ++ "://"
  caseData := .ascii

def siteVerdicts (_ : Nat) (u : Text) : Bool := (validateUrl siteNet u false World.initial).1.isOk

theorem siteParse_domain {raw : Text} {url : Url} (h : siteParse raw = .ok url) :
    ∃ d, url.host = some (.domain d) := by
  unfold siteParse at h
  cases hfind : siteUrls.find? (fun url => url.asStr = raw) with
  | none =>
      rw [hfind] at h
      cases h
  | some url' =>
      rw [hfind] at h
      obtain rfl := Except.ok.inj h
      have hmem := List.mem_of_find?_eq_some hfind
      simp only [siteUrls, List.mem_cons, List.not_mem_nil, or_false] at hmem
      rcases hmem with rfl | rfl | rfl | rfl
      · exact ⟨_, rfl⟩
      · exact ⟨_, rfl⟩
      · exact ⟨_, rfl⟩
      · exact ⟨_, rfl⟩

theorem siteDocs_hostStr {url : Url} {d : Text} (h : url.host = some (.domain d)) :
    siteDocs.hostStr url = some d := by
  unfold siteDocs
  dsimp only
  rw [h]
  rfl

theorem siteDocs_hostLaws : siteDocs.HostLaws siteNet.urls where
  hostStr_of_host raw url h _ := by
    obtain ⟨d, hhost⟩ := siteParse_domain h
    rw [siteDocs_hostStr hhost]
    exact Option.some_ne_none d
  host_of_hostStr raw raw' url url' h h' _ _ heq := by
    obtain ⟨d, hhost⟩ := siteParse_domain h
    obtain ⟨d', hhost'⟩ := siteParse_domain h'
    rw [siteDocs_hostStr hhost, siteDocs_hostStr hhost'] at heq
    rw [hhost, hhost', Option.some.inj heq]

/-! ## Runs of `web_map` -/

/-- The entries that a run of `web_map` takes from the sitemap, with the fetch they come from: none if the sitemap is ignored, has no
    URL, or cannot be fetched. -/
inductive SitemapEntries (net : Net) (docs : Documents) (config : Config) (opts : MapOptions) (startUrl : Url) (w : World) :
    List Text → World → Prop
  | ignored : opts.ignoreSitemap = true → SitemapEntries net docs config opts startUrl w [] w
  | noUrl {e : Text} : net.urls.join startUrl "/sitemap.xml" = .error e →
      SitemapEntries net docs config opts startUrl w [] w
  | unavailable {origin : Url} {e : WebSearchError} {w' : World} : opts.ignoreSitemap = false →
      net.urls.join startUrl "/sitemap.xml" = .ok origin → fetchPage net config origin.asStr w = (.error e, w') →
      SitemapEntries net docs config opts startUrl w [] w'
  | fetched {origin : Url} {page : FetchedPage} {w' : World} : opts.ignoreSitemap = false →
      net.urls.join startUrl "/sitemap.xml" = .ok origin → fetchPage net config origin.asStr w = (.ok page, w') →
      SitemapEntries net docs config opts startUrl w (parseSitemapFast (docs.events page.body)) w'

/-- The links that it takes from the page: none if only the sitemap is asked for, or the page cannot be fetched. -/
inductive PageLinks (net : Net) (docs : Documents) (config : Config) (opts : MapOptions) (startUrl : Url) (w : World) :
    List Text → World → Prop
  | sitemapOnly : opts.sitemapOnly = true → PageLinks net docs config opts startUrl w [] w
  | unavailable {e : WebSearchError} {w' : World} : opts.sitemapOnly = false →
      fetchPage net config startUrl.asStr w = (.error e, w') → PageLinks net docs config opts startUrl w [] w'
  | fetched {page : FetchedPage} {w' : World} : opts.sitemapOnly = false →
      fetchPage net config startUrl.asStr w = (.ok page, w') →
      PageLinks net docs config opts startUrl w (collectLinks docs net.urls page.body page.finalUrl) w'

theorem sitemapLocs_ok (net : Net) (docs : Documents) (config : Config) (opts : MapOptions) (startUrl : Url)
    (w : World) :
    ∃ locs w', sitemapLocs net docs config opts startUrl w = (.ok locs, w') ∧
      SitemapEntries net docs config opts startUrl w locs w' := by
  unfold sitemapLocs
  cases hignored : opts.ignoreSitemap with
  | true => exact ⟨[], w, rfl, .ignored hignored⟩
  | false =>
      rw [if_neg Bool.false_ne_true]
      cases hjoin : net.urls.join startUrl "/sitemap.xml" with
      | error e => exact ⟨[], w, rfl, .noUrl hjoin⟩
      | ok origin =>
          rcases hfetch : fetchPage net config origin.asStr w with ⟨page, w'⟩
          dsimp only
          rw [Prog.bind_ok (Prog.attempt_of_run hfetch)]
          cases page with
          | error e => exact ⟨[], w', rfl, .unavailable hignored hjoin hfetch⟩
          | ok page => exact ⟨_, w', rfl, .fetched hignored hjoin hfetch⟩

theorem pageLinks_ok (net : Net) (docs : Documents) (config : Config) (opts : MapOptions) (startUrl : Url)
    (w : World) :
    ∃ links w', pageLinks net docs config opts startUrl w = (.ok links, w') ∧
      PageLinks net docs config opts startUrl w links w' := by
  unfold pageLinks
  cases honly : opts.sitemapOnly with
  | true => exact ⟨[], w, rfl, .sitemapOnly honly⟩
  | false =>
      rw [if_neg Bool.false_ne_true]
      rcases hfetch : fetchPage net config startUrl.asStr w with ⟨page, w'⟩
      rw [Prog.bind_ok (Prog.attempt_of_run hfetch)]
      cases page with
      | error e => exact ⟨[], w', rfl, .unavailable honly hfetch⟩
      | ok page => exact ⟨_, w', rfl, .fetched honly hfetch⟩

/-- **A run of `web_map`** whose start URL is accepted fetches the sitemap and then the page, and puts out what `mapUrls` makes of
    the two. -/
theorem webMap_run {net : Net} {docs : Documents} {config : Config} {cpus : Nat} {validated : Nat → Text → Bool}
    {args : Option Value} {w w₁ : World} {start : Text} {startUrl : Url}
    (hstart : getStrArg args "url" = .ok start)
    (hvalid : validateUrl net start config.allowPrivateHosts w = (.ok startUrl, w₁)) :
    ∃ locs links w₂ w₃, SitemapEntries net docs config (mapOptions docs config args) startUrl w₁ locs w₂ ∧
      PageLinks net docs config (mapOptions docs config args) startUrl w₂ links w₃ ∧
      ∀ sched, webMap net docs config cpus validated sched args w =
        (.ok ((mapUrls net.urls docs (mapOptions docs config args) ((docs.hostStr startUrl).getD []) cpus
          validated sched locs links).map mapContent), w₃) := by
  obtain ⟨locs, w₂, hlocs, hsitemap⟩ := sitemapLocs_ok net docs config (mapOptions docs config args) startUrl w₁
  obtain ⟨links, w₃, hlinks, hpage⟩ := pageLinks_ok net docs config (mapOptions docs config args) startUrl w₂
  refine ⟨locs, links, w₂, w₃, hsitemap, hpage, fun sched => ?_⟩
  unfold webMap
  rw [hstart, Prog.bind_ok (Prog.ofExcept_ok start w), Prog.bind_ok hvalid, Prog.bind_ok hlocs, Prog.bind_ok hlinks]
  rfl

/-- **When `web_map` computes its specification.** Whatever the sitemap and the page list, the verdicts and the schedule of the
    validation pass: what a finished pass puts out is selected in lower case, has each URL once, all of them in scope and no more than
    the limit; and it is what is asked for exactly if none of that is overlooked, which takes the end of a word in Greek. Some
    schedule finishes. A run fetches the sitemap and then the page, and its result is that output for the lists it takes from them. -/
theorem webMap_spec_iff (net : Net) (docs : Documents) (config : Config) (cpus : Nat)
    (validated : Nat → Text → Bool) (args : Option Value) :
    (∀ baseHost locs links sched out,
      mapUrls net.urls docs (mapOptions docs config args) baseHost cpus validated sched locs links = some out →
        out = mapSpec net.urls docs (mapOptions docs config args) baseHost
          (verdict net.urls docs (mapOptions docs config args) baseHost validated (locs ++ links)) locs links ∧
        out.Nodup ∧
        out.length ≤ min ((getOptUsize args "limit").getD config.server.maxMapUrls) config.server.maxMapUrls ∧
        (∀ u ∈ out, InScope net.urls docs (mapOptions docs config args) baseHost u) ∧
        ∀ accepted : Text → Bool,
          (∀ u ∈ selected net.urls docs (mapOptions docs config args) baseHost (locs ++ links),
            sameHost net.urls docs baseHost u = false →
              accepted u = verdict net.urls docs (mapOptions docs config args) baseHost validated (locs ++ links) u) →
          (out = askedFor net.urls docs config args baseHost accepted locs links ↔
            NoneOverlooked net.urls docs config args baseHost accepted (locs ++ links))) ∧
    (∀ baseHost u, Overlooked net.urls docs config args baseHost u →
      ∃ s ∈ getOptStr args "search", 'ς' ∈ docs.toLowercase s ∨ 'ς' ∈ docs.toLowercase u) ∧
    (∀ baseHost locs links, ∃ sched out,
      mapUrls net.urls docs (mapOptions docs config args) baseHost cpus validated sched locs links = some out) ∧
    ∀ w w₁ start startUrl, getStrArg args "url" = .ok start →
      validateUrl net start config.allowPrivateHosts w = (.ok startUrl, w₁) →
      ∃ locs links w₂ w₃, SitemapEntries net docs config (mapOptions docs config args) startUrl w₁ locs w₂ ∧
        PageLinks net docs config (mapOptions docs config args) startUrl w₂ links w₃ ∧
        ∀ sched, webMap net docs config cpus validated sched args w =
          (.ok ((mapUrls net.urls docs (mapOptions docs config args) ((docs.hostStr startUrl).getD []) cpus
            validated sched locs links).map mapContent), w₃) := by
  refine ⟨?_, ?_, ?_, ?_⟩
  · intro baseHost locs links sched out h
    have hspec := mapUrls_eq_spec h
    have hsub : out.Sublist (selected net.urls docs (mapOptions docs config args) baseHost (locs ++ links)) := by
      rw [hspec]
      exact List.filter_sublist
    refine ⟨hspec, (selected_nodup _).sublist hsub, ?_, ?_, ?_⟩
    · apply Nat.le_trans hsub.length_le
      exact List.length_take_le _ _
    · intro u hu
      exact (inScope_of_mem_selected (hsub.subset hu)).2
    · intro accepted haccepted
      exact output_asked_iff h haccepted
  · intro baseHost u hover
    exact hover.final
  · intro baseHost locs links
    exact mapUrls_finishes cpus validated locs links
  · intro w w₁ start startUrl hstart hvalid
    exact webMap_run hstart hvalid

/-! ## A sitemap with a sigma inside a word -/

def sigmaParse (raw : Text) : Except Text Url :=
  if raw = "http://example.com/aΣb" then
    .ok ⟨"http://example.com/a%CE%A3b", "http", some (.domain "example.com"), some 80⟩
  else siteParse raw

def sigmaNet : Net where
  urls := ⟨sigmaParse, fun _ link => siteParse ("http://example.com" ++ link)⟩
  lookupHost _ _ port := .ok [⟨.v4 ⟨93, 184, 216, 34⟩, port⟩]
  build _ := .ok ()
  connects _ := documentedConnects
  send _ _ _ url :=
    if url.asStr = "http://example.com/sitemap.xml" then
      .received ⟨200, [], [.ok (bytes "<loc>http://example.com/a&#931;b</loc>")]⟩
    else .received ⟨404, [], []⟩
  canonicalReason _ := none

def sigmaDocs : Documents :=
  { siteDocs with
    events := fun body =>
      if body = "<loc>http://example.com/a&#931;b</loc>" then
        [.start "loc", .text (some "http://example.com/aΣb"), .close "loc"]
      else [] }

def sigmaConfig : Config := Config.default ⟨4, fun _ => .error [], fun _ => []⟩

def sigmaArgs : Option Value := some (.object [("url", .string "http://example.com/"), ("search", .string "aΣ")])

/-- A run for the search string, which the one entry of the sitemap contains: it is asked for, overlooked, and not put out. -/
theorem webMap_spec_iff_sigma :
    (∃ locs links w₂ w₃,
      SitemapEntries sigmaNet sigmaDocs sigmaConfig (mapOptions sigmaDocs sigmaConfig sigmaArgs)
        ⟨"http://example.com/", "http", some (.domain "example.com"), some 80⟩
        (validateUrl sigmaNet "http://example.com/" false World.initial).2 locs w₂ ∧
      PageLinks sigmaNet sigmaDocs sigmaConfig (mapOptions sigmaDocs sigmaConfig sigmaArgs)
        ⟨"http://example.com/", "http", some (.domain "example.com"), some 80⟩ w₂ links w₃ ∧
      ∀ sched, webMap sigmaNet sigmaDocs sigmaConfig 4 siteVerdicts sched sigmaArgs World.initial =
        (.ok ((mapUrls sigmaNet.urls sigmaDocs (mapOptions sigmaDocs sigmaConfig sigmaArgs) "example.com" 4
          siteVerdicts sched locs links).map mapContent), w₃)) ∧
    (([] : List Text) = askedFor sigmaNet.urls sigmaDocs sigmaConfig sigmaArgs "example.com" (fun _ => true)
        [("http://example.com/aΣb" : Text)] [] ↔
      NoneOverlooked sigmaNet.urls sigmaDocs sigmaConfig sigmaArgs "example.com" (fun _ => true)
        ([("http://example.com/aΣb" : Text)] ++ [])) := by
  have hspec := webMap_spec_iff sigmaNet sigmaDocs sigmaConfig 4 siteVerdicts sigmaArgs
  refine ⟨hspec.2.2.2 World.initial _ "http://example.com/" _ rfl rfl, ?_⟩
  refine (hspec.1 "example.com" [("http://example.com/aΣb" : Text)] [] [] [] rfl).2.2.2.2 (fun _ => true) ?_
  intro u hu
  cases hu

/-- **A URL that contains the search string is not listed**: `Σ` at the end of the search string is `ς` in lower case, and `σ` in the
    URL, where a letter follows. -/
theorem web_map_overlooks_sigma :
    (webMap sigmaNet sigmaDocs sigmaConfig 4 siteVerdicts [] sigmaArgs World.initial).1 = .ok (some (mapContent [])) ∧
      (∃ w', SitemapEntries sigmaNet sigmaDocs sigmaConfig (mapOptions sigmaDocs sigmaConfig sigmaArgs)
        ⟨"http://example.com/", "http", some (.domain "example.com"), some 80⟩
        (validateUrl sigmaNet "http://example.com/" false World.initial).2 [("http://example.com/aΣb" : Text)] w') ∧
      ("aΣ" : Text) <:+: ("http://example.com/aΣb" : Text) ∧
      ∀ accepted, askedFor sigmaNet.urls sigmaDocs sigmaConfig sigmaArgs "example.com" accepted
        [("http://example.com/aΣb" : Text)] [] = [("http://example.com/aΣb" : Text)] := by
  refine ⟨rfl, ?_, by decide, ?_⟩
  · obtain ⟨locs, w', hlocs, hentries⟩ := sitemapLocs_ok sigmaNet sigmaDocs sigmaConfig
      (mapOptions sigmaDocs sigmaConfig sigmaArgs) ⟨"http://example.com/", "http", some (.domain "example.com"), some 80⟩
      (validateUrl sigmaNet "http://example.com/" false World.initial).2
    have hloc : Except.ok locs = Except.ok [("http://example.com/aΣb" : Text)] := (congrArg Prod.fst hlocs).symm
    rw [Except.ok.inj hloc] at hentries
    exact ⟨w', hentries⟩
  · intro accepted
    rfl

/-! ## What the server would accept -/

/-- **The short-cut**: an http(s) URL of the host of an accepted URL is accepted. -/
theorem accepts_of_sameHost {net : Net} {docs : Documents} {allowPrivate : Bool} {start u : Text}
    {startUrl : Url} {w : World} (hsteady : net.Steady) (hdocs : docs.HostLaws net.urls)
    (hvalid : (validateUrl net start allowPrivate w).1 = .ok startUrl) (hhttp : HttpText net.urls u)
    (hsame : sameHost net.urls docs ((docs.hostStr startUrl).getD []) u = true) :
    Accepts net allowPrivate u := by
  obtain ⟨url, hparse, hurl⟩ := hhttp
  obtain ⟨startUrl', hstart, haddrs⟩ :=
    isOk_validateUrl_iff.mp (show (validateUrl net start allowPrivate w).1.isOk = true by rw [hvalid]; rfl)
  obtain rfl : startUrl' = startUrl := validateUrl_eq_ok hvalid hstart
  obtain ⟨hstartParse, hstartUrl, hstartHost⟩ := parseAndCheckSchemeHost_eq_ok_iff.mp hstart
  -- the two have the same host string, hence the same host
  have hstr : docs.hostStr url = docs.hostStr startUrl' := by
    have hsome := hdocs.hostStr_of_host start startUrl' hstartParse hstartHost
    unfold sameHost parsedHost at hsame
    rw [hparse, beq_iff_eq] at hsame
    cases hstarthost : docs.hostStr startUrl' with
    | none => exact absurd hstarthost hsome
    | some host =>
        rw [hstarthost] at hsame
        exact hsame
  have hhost : url.host = startUrl'.host :=
    hdocs.host_of_hostStr u start url startUrl' hparse hstartParse hurl hstartUrl hstr
  apply (accepts_iff hsteady w).mpr
  apply isOk_validateUrl_iff.mpr
  refine ⟨url, parseAndCheckSchemeHost_eq_ok_iff.mpr ⟨hparse, hurl, hhost ▸ hstartHost⟩, ?_⟩
  rw [checkHostAsync_steady hsteady hhost w w]
  exact haddrs

/-- **Which outputs the server would accept**: with a steady DNS, and the verdicts those of `validate_url`, the
    ones for which every selected URL of the start host itself is http or https. -/
theorem output_accepted_iff (net : Net) (docs : Documents) (opts : MapOptions) (allowPrivate : Bool) (cpus : Nat)
    (validated : Nat → Text → Bool) (sched : List Buffered.Move) (locs links out : List Text) (start : Text)
    (startUrl : Url) (w : World) (hsteady : net.Steady) (hdocs : docs.HostLaws net.urls)
    (hverdicts : ∀ i u, ∃ w, validated i u = (validateUrl net u allowPrivate w).1.isOk)
    (hvalid : (validateUrl net start allowPrivate w).1 = .ok startUrl)
    (hout : mapUrls net.urls docs opts ((docs.hostStr startUrl).getD []) cpus validated sched locs links = some out) :
    (∀ u ∈ out, Accepts net allowPrivate u) ↔
      ∀ u ∈ selected net.urls docs opts ((docs.hostStr startUrl).getD []) (locs ++ links),
        sameHost net.urls docs ((docs.hostStr startUrl).getD []) u = true → HttpText net.urls u := by
  have hmem := fun u => @mem_output_iff _ _ _ _ _ _ _ _ _ _ u hout
  constructor
  · intro h u hselected hsame
    apply httpText_of_accepts
    apply h
    exact (hmem u).mpr ⟨hselected, .inl hsame⟩
  · intro h u hu
    obtain ⟨hselected, hkept⟩ := (hmem u).mp hu
    cases hsame : sameHost net.urls docs ((docs.hostStr startUrl).getD []) u with
    | true => exact accepts_of_sameHost hsteady hdocs hvalid (h u hselected hsame) hsame
    | false =>
        obtain ⟨w', hverdict⟩ := hverdicts _ u
        apply (accepts_iff hsteady w').mpr
        rw [← hverdict]
        exact hkept.resolve_left (by rw [hsame]; exact Bool.false_ne_true)

theorem output_accepted_iff_site :
    (∀ u ∈ [("http://example.com/" : Text)], Accepts siteNet false u) ↔
      ∀ u ∈ selected siteNet.urls siteDocs ⟨none, false, false, false, 10⟩ "example.com"
        [("http://example.com/" : Text)],
        sameHost siteNet.urls siteDocs "example.com" u = true → HttpText siteNet.urls u :=
  output_accepted_iff siteNet siteDocs ⟨none, false, false, false, 10⟩ false 4 siteVerdicts
    [.start, .finish 0, .emit] ["http://example.com/"] [] ["http://example.com/"] "http://example.com/"
    ⟨"http://example.com/", "http", some (.domain "example.com"), some 80⟩ World.initial
    (fun _ _ _ _ => rfl) siteDocs_hostLaws (fun _ _ => ⟨World.initial, rfl⟩) rfl rfl

/-- **An entry of the start host skips the scheme check too**: the `ftp` URL is listed, and `validate_url`
    rejects it. -/
theorem web_map_lists_ftp :
    (webMap siteNet siteDocs (Config.default ⟨4, fun _ => .error [], fun _ => []⟩) 4 siteVerdicts
      [.start, .finish 0, .emit] (some (.object [("url", .string "http://example.com/")]))
      World.initial).1 = .ok (some (mapContent ["ftp://example.com/pub"])) ∧
      ¬ Accepts siteNet false "ftp://example.com/pub" := by
  refine ⟨rfl, ?_⟩
  intro haccepts
  exact absurd (haccepts World.initial) (by decide)

end Actions
end McpWebSearch
