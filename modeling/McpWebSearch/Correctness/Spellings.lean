import McpWebSearch.Correctness.Map

/-!
# `Correctness.Spellings` — when `web_map` lists a page under two spellings

The set of seen strings is shared by the two sources, but not the form of what goes into it: a link is the serialisation
of its URL (`canonical_of_mem_collectLinks`), an entry of the sitemap is listed as it is written. So what can go wrong is an entry
that is not in serialised form, of a URL that the page links to or another entry spells otherwise (`SpelledOnce`); nothing else
does (`nodup_urls_iff`).
-/

namespace McpWebSearch

open Utf8

/-- `url` as documented: the serialisation of a URL parses to that URL. -/
structure UrlParser.Stable (urls : UrlParser) : Prop where
  parse_join : ∀ base href url, urls.join base href = .ok url → urls.parse url.asStr = .ok url

namespace Actions

variable {urls : UrlParser} {docs : Documents} {opts : MapOptions} {baseHost : Text}

/-- The URL a string parses to, by the serialisation `Url` is compared by. -/
def urlOf (urls : UrlParser) (u : Text) : Option Text := (urls.parse u).toOption.map Url.asStr

/-- A string in the serialised form of its URL. -/
def Canonical (urls : UrlParser) (u : Text) : Prop := urlOf urls u = some u

instance (u : Text) : Decidable (Canonical urls u) := inferInstanceAs (Decidable (_ = _))

section Inputs

variable (urls : UrlParser) (docs : Documents) (opts : MapOptions) (baseHost : Text) (validated : Nat → Text → Bool)

/-- The strings in scope that stand before `u`, each once. -/
def before (us : List Text) (u : Text) : List Text := Firsts.before (inScope urls docs opts baseHost) us u

/-- What the loop and the validation pass ask of an entry or a link: it is in scope, fewer than `limit` strings in scope stand before
    it, and it has the start host, or `validate_url` accepts it as the candidate it then is. -/
def Passes (us : List Text) (u : Text) : Prop :=
  InScope urls docs opts baseHost u ∧ (before urls docs opts baseHost us u).length < opts.limit ∧
    (sameHost urls docs baseHost u = true ∨ validated (before urls docs opts baseHost us u).length u = true)

/-- An entry of the sitemap that is not in the serialised form `s` of its URL is alone with it: the page does not link to `s`, and
    no other entry has that URL, among those that pass. -/
def SpelledOnce (locs links : List Text) : Prop :=
  ∀ loc ∈ locs, Passes urls docs opts baseHost validated (locs ++ links) loc → ∀ s, urlOf urls loc = some s → s ≠ loc →
    (s ∈ links → ¬ Passes urls docs opts baseHost validated (locs ++ links) s) ∧
      ∀ loc' ∈ locs, loc' ≠ loc → urlOf urls loc' = some s → ¬ Passes urls docs opts baseHost validated (locs ++ links) loc'

end Inputs

/-! ## Links -/

/-- A link pushed by `collect_links_doc` is the serialisation of a URL that was joined. -/
theorem mem_pushLinks {base : Url} {hrefs : List Text} {out : List Text} {u : Text}
    (h : u ∈ hrefs.foldl (pushLink urls base) out) : u ∈ out ∨ ∃ href url, urls.join base href = .ok url ∧ u = url.asStr := by
  induction hrefs generalizing out with
  | nil => exact .inl h
  | cons href hrefs ih =>
      rcases ih h with hout | hjoined
      · unfold pushLink at hout
        cases hjoin : urls.join base href with
        | error e =>
            rw [hjoin] at hout
            exact .inl hout
        | ok url =>
            rw [hjoin] at hout
            dsimp only at hout
            split at hout
            · exact .inl hout
            · rcases List.mem_append.mp hout with hold | hnew
              · exact .inl hold
              · exact .inr ⟨href, url, hjoin, List.mem_singleton.mp hnew⟩
      · exact .inr hjoined

/-- **The links of a page are in serialised form.** -/
theorem canonical_of_mem_collectLinks (hurls : urls.Stable) {html u : Text} {base : Url}
    (h : u ∈ collectLinks docs urls html base) : Canonical urls u := by
  rcases mem_pushLinks h with hnone | ⟨href, url, hjoin, rfl⟩
  · cases hnone
  · unfold Canonical urlOf
    rw [hurls.parse_join base href url hjoin]
    rfl

/-- What `web_map` takes from pages: the links of one, or nothing. -/
def FromPage (docs : Documents) (urls : UrlParser) (links : List Text) : Prop :=
  links = [] ∨ ∃ html base, links = collectLinks docs urls html base

theorem PageLinks.fromPage {net : Net} {config : Config} {startUrl : Url} {w w' : World} {links : List Text}
    (h : PageLinks net docs config opts startUrl w links w') : FromPage docs net.urls links := by
  cases h with
  | sitemapOnly _ => exact .inl rfl
  | unavailable _ _ => exact .inl rfl
  | fetched _ _ => exact .inr ⟨_, _, rfl⟩

theorem canonical_of_fromPage (hurls : urls.Stable) {links : List Text} {u : Text} (hlinks : FromPage docs urls links)
    (h : u ∈ links) : Canonical urls u := by
  rcases hlinks with rfl | ⟨html, base, rfl⟩
  · cases h
  · exact canonical_of_mem_collectLinks hurls h

/-- Two strings of one URL in serialised form are one string. -/
theorem Canonical.unique {u v : Text} (hu : Canonical urls u) (hv : Canonical urls v) (hsame : urlOf urls u = urlOf urls v) :
    u = v := by
  have heq : some u = some v := by
    calc some u = urlOf urls u := hu.symm
      _ = urlOf urls v := hsame
      _ = some v := hv
  exact Option.some.inj heq

/-! ## The output -/

/-- **A string is selected** exactly if it is one of the sources', in scope, and not too late; and its place says so. -/
theorem mem_selected_iff {us : List Text} {u : Text} :
    u ∈ selected urls docs opts baseHost us ↔
      u ∈ us ∧ InScope urls docs opts baseHost u ∧ (before urls docs opts baseHost us u).length < opts.limit := by
  rw [selected_eq_firsts, Firsts.mem_firsts_iff]
  unfold inScope before
  rw [decide_eq_true_iff]
  rfl

theorem idxOf_selected {us : List Text} {u : Text} (h : u ∈ selected urls docs opts baseHost us) :
    (selected urls docs opts baseHost us).idxOf u = (before urls docs opts baseHost us u).length := Firsts.idxOf_firsts h

/-- What the output consists of: the entries and links that pass. -/
theorem mem_output_iff_passes {cpus : Nat} {validated : Nat → Text → Bool} {sched : List Buffered.Move}
    {locs links out : List Text} {u : Text}
    (h : mapUrls urls docs opts baseHost cpus validated sched locs links = some out) :
    u ∈ out ↔ u ∈ locs ++ links ∧ Passes urls docs opts baseHost validated (locs ++ links) u := by
  rw [mem_output_iff h]
  unfold Passes verdict
  constructor
  · rintro ⟨hselected, hkept⟩
    obtain ⟨hus, hscope, hlt⟩ := mem_selected_iff.mp hselected
    rw [idxOf_selected hselected] at hkept
    exact ⟨hus, hscope, hlt, hkept⟩
  · rintro ⟨hus, hscope, hlt, hkept⟩
    have hselected := mem_selected_iff.mpr ⟨hus, hscope, hlt⟩
    rw [idxOf_selected hselected]
    exact ⟨hselected, hkept⟩

/-- A string in scope parses to a URL. -/
theorem urlOf_of_inScope {u : Text} (h : InScope urls docs opts baseHost u) : ∃ s, urlOf urls u = some s := by
  obtain ⟨⟨host, hhost, -⟩, -⟩ := h
  unfold parsedHost at hhost
  unfold urlOf
  cases hparse : urls.parse u with
  | error e =>
      rw [hparse] at hhost
      cases hhost
  | ok url => exact ⟨url.asStr, rfl⟩

/-- **When the listed strings have different URLs.** -/
theorem nodup_urls_iff (hurls : urls.Stable) {cpus : Nat} {validated : Nat → Text → Bool} {sched : List Buffered.Move}
    {locs links out : List Text} (hlinks : FromPage docs urls links)
    (h : mapUrls urls docs opts baseHost cpus validated sched locs links = some out) :
    (out.map (urlOf urls)).Nodup ↔ SpelledOnce urls docs opts baseHost validated locs links := by
  have hmem : ∀ u, u ∈ out ↔ u ∈ locs ++ links ∧ Passes urls docs opts baseHost validated (locs ++ links) u :=
    fun u => mem_output_iff_passes h
  have hnodup : out.Nodup := by
    rw [mapUrls_eq_spec h]
    exact (selected_nodup _).sublist List.filter_sublist
  rw [List.nodup_map_iff_inj_on hnodup]
  constructor
  · intro hinj loc hloc hpasses s hs hne
    have hout : loc ∈ out := (hmem loc).mpr ⟨List.mem_append_left _ hloc, hpasses⟩
    refine ⟨fun hlink hpass => ?_, fun loc' hloc' hne' hs' hpass => ?_⟩
    · have hcanonical : urlOf urls s = some s := canonical_of_fromPage hurls hlinks hlink
      exact hne (hinj s ((hmem s).mpr ⟨List.mem_append_right _ hlink, hpass⟩) loc hout (hcanonical.trans hs.symm))
    · exact hne' (hinj loc' ((hmem loc').mpr ⟨List.mem_append_left _ hloc', hpass⟩) loc hout (hs'.trans hs.symm))
  · intro honce
    -- a string of the output that is not in serialised form comes from the sitemap, and is alone with its URL
    have halone : ∀ v ∈ out, ¬ Canonical urls v → ∀ u ∈ out, urlOf urls u = urlOf urls v → u = v := by
      intro v hv hnot u hu hsame
      obtain ⟨hvsource, hvpasses⟩ := (hmem v).mp hv
      obtain ⟨husource, hupasses⟩ := (hmem u).mp hu
      obtain ⟨s, hs⟩ := urlOf_of_inScope hvpasses.1
      have hne : s ≠ v := fun heq => hnot (heq ▸ hs)
      have hvloc : v ∈ locs :=
        (List.mem_append.mp hvsource).resolve_right fun hlink => hnot (canonical_of_fromPage hurls hlinks hlink)
      obtain ⟨hlink, hloc⟩ := honce v hvloc hvpasses s hs hne
      by_contra huv
      rcases List.mem_append.mp husource with husource | husource
      · exact hloc u husource huv (hsame.trans hs) hupasses
      · have hcanonical : urlOf urls u = some u := canonical_of_fromPage hurls hlinks husource
        obtain rfl : u = s := Option.some.inj (hcanonical.symm.trans (hsame.trans hs))
        exact hlink husource hupasses
    intro u hu v hv hsame
    by_cases hcu : Canonical urls u
    · by_cases hcv : Canonical urls v
      · exact hcu.unique hcv hsame
      · exact halone v hv hcv u hu hsame
    · exact (halone u hu hcu v hv hsame.symm).symm

/-- **When `web_map` reports each page once.** Whatever the sitemap, the page, the verdicts and the schedule of the
    validation pass: the listed strings parse to different URLs exactly if no entry of the sitemap that is not in serialised form
    has the URL of a link or of another entry, among those that pass; and a run puts out what is so listed of the sitemap and the
    page it fetches. -/
theorem each_page_once_iff (net : Net) (docs : Documents) (config : Config) (cpus : Nat)
    (validated : Nat → Text → Bool) (args : Option Value) (hurls : net.urls.Stable) :
    (∀ baseHost locs links sched out, FromPage docs net.urls links →
      mapUrls net.urls docs (mapOptions docs config args) baseHost cpus validated sched locs links = some out →
      ((out.map (urlOf net.urls)).Nodup ↔
        SpelledOnce net.urls docs (mapOptions docs config args) baseHost validated locs links)) ∧
    ∀ w w₁ start startUrl, getStrArg args "url" = .ok start →
      validateUrl net start config.allowPrivateHosts w = (.ok startUrl, w₁) →
      ∃ locs links w₂ w₃, SitemapEntries net docs config (mapOptions docs config args) startUrl w₁ locs w₂ ∧
        PageLinks net docs config (mapOptions docs config args) startUrl w₂ links w₃ ∧ FromPage docs net.urls links ∧
        ∀ sched, webMap net docs config cpus validated sched args w =
          (.ok ((mapUrls net.urls docs (mapOptions docs config args) ((docs.hostStr startUrl).getD []) cpus
            validated sched locs links).map mapContent), w₃) := by
  refine ⟨?_, ?_⟩
  · intro baseHost locs links sched out hlinks h
    exact nodup_urls_iff hurls hlinks h
  · intro w w₁ start startUrl hstart hvalid
    obtain ⟨locs, links, w₂, w₃, hsitemap, hpage, hrun⟩ := webMap_run hstart hvalid
    exact ⟨locs, links, w₂, w₃, hsitemap, hpage, hpage.fromPage, hrun⟩

/-! ## A sitemap that lists the start page without its slash -/

def spellingParse (raw : Text) : Except Text Url :=
  siteParse (if raw = "http://example.com" then "http://example.com/" else raw)

/-- The site's page links to itself. -/
def spellingNet : Net where
  urls := ⟨spellingParse, fun _ link => siteParse ("http://example.com" ++ link)⟩
  lookupHost _ _ port := .ok [⟨.v4 ⟨93, 184, 216, 34⟩, port⟩]
  build _ := .ok ()
  connects _ := documentedConnects
  send _ _ _ url :=
    if url.asStr = "http://example.com/sitemap.xml" then
      .received ⟨200, [], [.ok (bytes "<loc>http://example.com</loc>")]⟩
    else .received ⟨200, [], [.ok (bytes "<a href=/>Home</a>")]⟩
  canonicalReason _ := none

def spellingDocs : Documents :=
  { siteDocs with
    events := fun body =>
      if body = "<loc>http://example.com</loc>" then
        [.start "loc", .text (some "http://example.com"), .close "loc"]
      else []
    hrefs := fun body => if body = "<a href=/>Home</a>" then ["/"] else [] }

theorem spellingNet_stable : spellingNet.urls.Stable where
  parse_join base href url h := by
    have hparse : siteParse ("http://example.com" ++ href) = .ok url := h
    unfold siteParse at hparse
    cases hfind : siteUrls.find? (fun url => url.asStr = "http://example.com" ++ href) with
    | none =>
        rw [hfind] at hparse
        cases hparse
    | some url' =>
        rw [hfind] at hparse
        obtain rfl := Except.ok.inj hparse
        have hmem := List.mem_of_find?_eq_some hfind
        simp only [siteUrls, List.mem_cons, List.not_mem_nil, or_false] at hmem
        rcases hmem with rfl | rfl | rfl | rfl
        · rfl
        · rfl
        · rfl
        · rfl

theorem each_page_once_iff_site :
    (([("http://example.com" : Text), "http://example.com/"] : List Text).map (urlOf spellingNet.urls)).Nodup ↔
      SpelledOnce spellingNet.urls spellingDocs
        (mapOptions spellingDocs (Config.default ⟨4, fun _ => .error [], fun _ => []⟩) none) "example.com" siteVerdicts
        [("http://example.com" : Text)] [("http://example.com/" : Text)] :=
  (each_page_once_iff spellingNet spellingDocs (Config.default ⟨4, fun _ => .error [], fun _ => []⟩) 4 siteVerdicts none
    spellingNet_stable).1 "example.com" [("http://example.com" : Text)] [("http://example.com/" : Text)]
    [.start, .start, .finish 1, .finish 0, .emit, .emit] [("http://example.com" : Text), "http://example.com/"]
    (.inr ⟨"<a href=/>Home</a>", ⟨"http://example.com/", "http", some (.domain "example.com"), some 80⟩, rfl⟩) rfl

/-- **One page, listed twice**: once as the sitemap spells it, and once as the page links to it. -/
theorem web_map_lists_twice :
    (webMap spellingNet spellingDocs (Config.default ⟨4, fun _ => .error [], fun _ => []⟩) 4 siteVerdicts
      [.start, .start, .finish 0, .finish 1, .emit, .emit] (some (.object [("url", .string "http://example.com/")]))
      World.initial).1 = .ok (some (mapContent [("http://example.com" : Text), "http://example.com/"])) ∧
      spellingNet.urls.parse "http://example.com" = spellingNet.urls.parse "http://example.com/" ∧
      ¬ (([("http://example.com" : Text), "http://example.com/"] : List Text).map (urlOf spellingNet.urls)).Nodup := by
  refine ⟨rfl, rfl, ?_⟩
  decide

end Actions
end McpWebSearch
