import McpWebSearch.Actions.Extract
import McpWebSearch.Correctness.Client
import McpWebSearch.Correctness.Targets

/-!
# `Correctness.Bulk` — when `web_extract` and `web_check_links` lose and duplicate nothing

Both collect what their futures yield in the order of completion. Each piece names its URL, so the order does not
matter to a reader: under every schedule the pieces are those of the URLs, each processed alone (`Lossless`). The two
differ in the stream they collect from, and each stream has its own lemma for that in the library.

A page can make its conversion panic. Where panics unwind that is one failed section among the others; where they abort it is the
end of the process, and no section of any URL is left. `bulk_tools_lossless_iff` says that nothing else goes wrong.
-/

namespace McpWebSearch
namespace Actions

open Utf8 Scrape

variable {config : Config} {args : Option Value} {urls : List Text}

/-! ## The argument -/

/-- A list that is not empty and within the limit is accepted. -/
theorem bulkUrls_eq_ok (hurls : getStrArray args "urls" = some urls) (hne : urls ≠ [])
    (hmax : urls.length ≤ config.server.maxExtractUrls) : bulkUrls config args = .ok urls := by
  have hkept : (!urls.isEmpty) = true := by simpa using hne
  unfold bulkUrls
  rw [hurls, Option.filter_some, if_pos hkept]
  exact if_neg (Nat.not_lt.mpr hmax)

/-! ## One URL -/

/-- The text begins with one of the heads, then the URL, then the separator. -/
def Names (heads : List String) (sep url text : Text) : Prop :=
  ∃ head ∈ heads, ∃ rest, text = head.toList ++ url ++ sep ++ rest

/-- The section of a page names its URL in the heading. -/
theorem names_pageSection (url : Text) (converted : Option Text) :
    Names ["## Content from ", "## Failed to extract from "] "\n\n" url (pageSection url converted) := by
  unfold pageSection
  cases converted with
  | none => exact ⟨"## Failed to extract from ", by simp, "Error: parse task panicked", by simp⟩
  | some md => exact ⟨"## Content from ", by simp, md, rfl⟩

/-- A section names its URL in the heading. -/
theorem names_extractSection {panic : PanicStrategy} {net : Net} {lib : ScrapeLib} {cancelled : Bool} {config : Config}
    {url s : Text} (h : extractSection panic net lib cancelled config url = .returned s) :
    Names ["## Content from ", "## Failed to extract from "] "\n\n" url s := by
  unfold extractSection at h
  cases hfetch : (fetchPage net config url World.initial).1 with
  | error e =>
      rw [hfetch] at h
      obtain rfl := Ended.returned.inj h
      exact ⟨"## Failed to extract from ", by simp, "Error: ".toList ++ e.display, by simp⟩
  | ok page =>
      rw [hfetch] at h
      dsimp only at h
      cases hconvert : convertBlocking panic lib cancelled page.body with
      | aborted =>
          rw [hconvert] at h
          cases h
      | returned converted =>
          rw [hconvert] at h
          obtain rfl := Ended.returned.inj h
          exact names_pageSection url converted

/-- The page of a URL makes its conversion panic on a target, if there is one and the conversion is not cancelled: a text of its
    main content trips the collapser. -/
def Trapped (target : Target) (net : Net) (lib : ScrapeLib) (cancelled : Bool) (config : Config) (url : Text) : Prop :=
  cancelled = false ∧ ∃ page, (fetchPage net config url World.initial).1 = .ok page ∧
    ∃ t ∈ collapsedTexts (lib.parseDocument page.body).mainNodes, target.Trips t

/-- A URL comes to a section, unless the build aborts on a panic and its page makes the conversion panic. -/
theorem extractSection_returns_iff {panic : PanicStrategy} {target : Target} {net : Net} {lib : ScrapeLib} {cancelled : Bool}
    {config : Config} {url : Text} :
    (∃ s, extractSection panic net (lib.on target) cancelled config url = .returned s) ↔
      (panic = .unwind ∨ ¬ Trapped target net lib cancelled config url) := by
  unfold extractSection Trapped
  cases hfetch : (fetchPage net config url World.initial).1 with
  | error e => simp
  | ok page =>
      have hconverts := (converts_main target (lib.parseDocument page.body)).ok_iff
      have hmain : mainToMarkdown (lib.on target) page.body =
          mainToMarkdownDoc target.collapse (lib.parseDocument page.body) := rfl
      dsimp only
      unfold convertBlocking
      rw [hmain]
      cases cancelled with
      | true => simp [Ended.map]
      | false =>
          cases hmd : mainToMarkdownDoc target.collapse (lib.parseDocument page.body) with
          | ok md =>
              have hnone := hconverts.mp ⟨md, hmd⟩
              refine ⟨fun _ => .inr ?_, fun _ => ⟨_, rfl⟩⟩
              rintro ⟨-, page', hpage, t, ht, htrips⟩
              obtain rfl := Except.ok.inj hpage
              exact hnone t ht htrips
          | error p =>
              have hsome : ∃ t ∈ collapsedTexts (lib.parseDocument page.body).mainNodes, target.Trips t := by
                by_contra hnone
                obtain ⟨md, hok⟩ := hconverts.mpr fun t ht htrips => hnone ⟨t, ht, htrips⟩
                rw [hmd] at hok
                cases hok
              cases panic with
              | unwind => exact ⟨fun _ => .inl rfl, fun _ => ⟨_, rfl⟩⟩
              | abort =>
                  constructor
                  · rintro ⟨s, hs⟩
                    cases hs
                  · rintro (h | h)
                    · cases h
                    · exact absurd ⟨rfl, page, rfl, hsome⟩ h

/-- A line names its URL after the icon. -/
theorem names_linkLine (net : Net) (url : Text) (sent : Sent) :
    Names ["✓ ", "✗ ", "⚠ "] " — " url (linkLine net url sent) := by
  cases sent with
  | elapsed => exact ⟨"⚠ ", by simp, "Timeout", by simp [linkLine]⟩
  | failed isTimeout isConnect e =>
      rw [linkLine]
      split
      · exact ⟨"⚠ ", by simp, "Timeout", by simp⟩
      · split
        · exact ⟨"✗ ", by simp, "Connection failed", by simp⟩
        · exact ⟨"✗ ", by simp, e, rfl⟩
  | received resp =>
      rw [linkLine]
      by_cases hok : resp.status < 400
      · exact ⟨"✓ ", by simp, decimal resp.status ++ " " ++ (net.canonicalReason resp.status).getD "Unknown", by simp [hok]⟩
      · exact ⟨"✗ ", by simp, decimal resp.status ++ " " ++ (net.canonicalReason resp.status).getD "Unknown", by simp [hok]⟩

/-- `check_one_link` returns a line, whatever happens, and the line names the URL. -/
theorem checkOneLink_names (net : Net) (config : Config) (url : Text) (w : World) :
    ∃ line w', checkOneLink net config url w = (.ok line, w') ∧ Names ["✓ ", "✗ ", "⚠ "] " — " url line := by
  unfold checkOneLink
  rcases hvalid : validateUrl net url config.allowPrivateHosts w with ⟨r, w₁⟩
  rw [Prog.bind_ok (Prog.attempt_of_run hvalid)]
  cases r with
  | error e => exact ⟨_, w₁, rfl, "✗ ", by simp, e.display, rfl⟩
  | ok current =>
      dsimp only
      rcases hclient : clientFor net config current w₁ with ⟨r, w₂⟩
      rw [Prog.bind_ok (Prog.attempt_of_run hclient)]
      cases r with
      | error e => exact ⟨_, w₂, rfl, "✗ ", by simp, e.display, rfl⟩
      | ok client => exact ⟨_, _, rfl, names_linkLine net url _⟩

theorem names_linkCheck (net : Net) (config : Config) (url : Text) :
    Names ["✓ ", "✗ ", "⚠ "] " — " url (linkCheck net config url) := by
  obtain ⟨line, w', hrun, hnames⟩ := checkOneLink_names net config url World.initial
  unfold linkCheck
  rw [hrun]
  exact hnames

/-! ## All URLs -/

/-- **A bulk call that loses and duplicates nothing**: whatever the schedule, it returns the pieces in some order, each
    once; and some schedule completes it. -/
structure Lossless {σ : Type} (call : σ → Option (Ended (Result Value))) (sep : Text) (pieces : List Text) : Prop where
  gathers : ∀ schedule result, call schedule = some result →
    ∃ out, result = .returned (.ok (textContent (join sep out))) ∧ out.Perm pieces
  completes : ∃ schedule result, call schedule = some result

/-- Sections that have all come in. -/
theorem sectionsOf_map_returned (out : List Text) : sectionsOf (out.map Ended.returned) = .returned out := by
  induction out with
  | nil => rfl
  | cons s out ih => rw [List.map_cons, sectionsOf, ih]; rfl

/-- Sections that have come in have all returned. -/
theorem returned_of_sectionsOf {out : List (Ended Text)} {sections : List Text} (h : sectionsOf out = .returned sections) :
    ∀ e ∈ out, ∃ s, e = .returned s := by
  induction out generalizing sections with
  | nil => exact fun e he => absurd he List.not_mem_nil
  | cons e out ih =>
      cases e with
      | aborted => cases h
      | returned s =>
          cases hout : sectionsOf out with
          | aborted =>
              rw [sectionsOf, hout] at h
              cases h
          | returned rest => exact List.forall_mem_cons.mpr ⟨⟨s, rfl⟩, ih hout⟩

/-- What is among pieces that all return is a list of pieces. -/
theorem exists_map_returned {es : List (Ended Text)} (h : ∀ e ∈ es, ∃ s, e = .returned s) :
    ∃ out : List Text, es = out.map Ended.returned := by
  induction es with
  | nil => exact ⟨[], rfl⟩
  | cons e es ih =>
      obtain ⟨s, rfl⟩ := h e List.mem_cons_self
      obtain ⟨out, rfl⟩ := ih fun e he => h e (List.mem_cons_of_mem _ he)
      exact ⟨s :: out, rfl⟩

variable {panic : PanicStrategy} {nets : Nat → Net} {lib : ScrapeLib} {cancelled : Nat → Bool} {cpus : Nat}

theorem returned_injective : Function.Injective (Ended.returned : Text → Ended Text) := fun _ _ h => Ended.returned.inj h

/-- Where every URL comes to a section, sections are all that is put out. -/
theorem out_returned {n : Nat} {sections : List Text} {schedule : List Buffered.PoolMove} {s : Buffered.Pool (Ended Text)}
    (hsections : urls.mapIdx (extractedSection panic nets lib cancelled config) = sections.map Ended.returned)
    (hrun : (Buffered.bufferUnordered n (extractedSection panic nets lib cancelled config) urls).exec Buffered.Pool.initial
      schedule = some s) : ∃ out : List Text, s.out = out.map Ended.returned := by
  refine exists_map_returned fun e he => ?_
  have hmem := Buffered.Pool.mem_of_mem_out hrun he
  rw [hsections] at hmem
  obtain ⟨t, -, ht⟩ := List.mem_map.mp hmem
  exact ⟨t, ht.symm⟩

/-- Where every URL comes to a section. -/
theorem lossless_webExtract (hurls : bulkUrls config args = .ok urls) {sections : List Text}
    (hsections : urls.mapIdx (extractedSection panic nets lib cancelled config) = sections.map Ended.returned) :
    Lossless (webExtract panic nets lib cancelled cpus config args) "\n\n---\n\n" sections where
  gathers schedule result h := by
    unfold webExtract at h
    rw [hurls] at h
    obtain ⟨s, hrun, hresult⟩ := Option.bind_eq_some_iff.mp h
    obtain ⟨out, hout⟩ := out_returned hsections hrun
    rw [hout, sectionsOf_map_returned] at hresult
    obtain ⟨hfinished, heq⟩ := Option.ite_none_right_eq_some.mp hresult
    refine ⟨out, (Option.some.inj heq).symm, ?_⟩
    have hperm := Buffered.Pool.out_perm hrun hfinished
    rw [hout, hsections] at hperm
    exact (List.map_perm_map_iff returned_injective).mp hperm
  completes := by
    have hpositive : 0 < max (cpus * 2) 4 := by omega
    obtain ⟨schedule, s, hrun, hfinished⟩ := @Buffered.Pool.exists_finished _ _ _
      (extractedSection panic nets lib cancelled config) urls hpositive
    obtain ⟨out, hout⟩ := out_returned hsections hrun
    refine ⟨schedule, .returned (.ok (textContent (join "\n\n---\n\n" out))), ?_⟩
    unfold webExtract
    rw [hurls]
    dsimp only
    rw [hrun, Option.bind_some, hout, sectionsOf_map_returned]
    exact if_pos hfinished

/-- By position in the list of URLs, or by URL and position. -/
theorem map_checkedLink (nets : Nat → Net) (config : Config) (urls : List Text) :
    (List.range urls.length).map (checkedLink nets config urls) =
      urls.mapIdx fun i url => linkCheck (nets i) config url := by
  apply List.ext_getElem
  · simp
  · intro i hi hi'
    simp only [List.length_map, List.length_range] at hi
    simp [checkedLink, hi]

theorem lossless_webCheckLinks (nets : Nat → Net) {cpus : Nat} (hcpus : 0 < cpus)
    (hurls : bulkUrls config args = .ok urls) :
    Lossless (fun schedule => (webCheckLinks nets cpus config args schedule).map .returned) "\n"
      (urls.mapIdx fun i url => linkCheck (nets i) config url) where
  gathers schedule result h := by
    obtain ⟨r, hcall, rfl⟩ := Option.map_eq_some_iff.mp h
    unfold webCheckLinks at hcall
    rw [hurls] at hcall
    obtain ⟨s, hrun, hresult⟩ := Option.bind_eq_some_iff.mp hcall
    obtain ⟨hfinished, heq⟩ := Option.ite_none_right_eq_some.mp hresult
    refine ⟨s.out, congrArg _ (Option.some.inj heq).symm, ?_⟩
    rw [← map_checkedLink]
    exact Drain.out_perm hrun hfinished
  completes := by
    have hpermits : 0 < cpus * 2 := by omega
    obtain ⟨schedule, s, hrun, hfinished⟩ :=
      @Drain.exists_finished _ (checkedLink nets config urls) _ urls.length hpermits
    refine ⟨schedule, .returned (.ok (textContent (join "\n" s.out))), ?_⟩
    unfold webCheckLinks
    rw [hurls]
    dsimp only
    rw [hrun, Option.bind_some, if_pos hfinished]
    rfl

/-- One piece in some order is that piece. -/
theorem Lossless.single {σ : Type} {call : σ → Option (Ended (Result Value))} {sep piece : Text}
    (h : Lossless call sep [piece]) {schedule : σ} {result : Ended (Result Value)} (hcall : call schedule = some result) :
    result = .returned (.ok (textContent piece)) := by
  obtain ⟨out, rfl, hperm⟩ := h.gathers schedule result hcall
  rw [List.perm_singleton.mp hperm]
  exact congrArg (fun t => Ended.returned (Except.ok (textContent t))) (List.append_nil piece)

/-- **The bulk tools lose and duplicate nothing** of a list of URLs, whatever happens to each of them and in whatever order they
    complete: `web_extract` succeeds with the sections of the URLs, each once, and `web_check_links` with their lines. Section `i`
    is what URL `i` comes to, and a call for that URL and no other returns it; each piece names its URL. -/
structure BulkLossless (panic : PanicStrategy) (nets : Nat → Net) (lib : ScrapeLib) (cancelled : Nat → Bool) (cpus : Nat)
    (config : Config) (args : Option Value) (urls sections : List Text) : Prop where
  returned : urls.mapIdx (fun i url => extractSection panic (nets i) lib (cancelled i) config url) = sections.map Ended.returned
  extract : Lossless (webExtract panic nets lib cancelled cpus config args) "\n\n---\n\n" sections
  links : Lossless (fun schedule => (webCheckLinks nets cpus config args schedule).map .returned) "\n"
    (urls.mapIdx fun i url => linkCheck (nets i) config url)
  extractAlone : ∀ (i : Nat) (url s : Text) (args' : Option Value), urls[i]? = some url → sections[i]? = some s →
    getStrArray args' "urls" = some [url] → ∀ schedule result,
      webExtract panic (fun _ => nets i) lib (fun _ => cancelled i) cpus config args' schedule = some result →
        result = .returned (.ok (textContent s))
  linksAlone : ∀ (i : Nat) (url : Text) (args' : Option Value), urls[i]? = some url → getStrArray args' "urls" = some [url] →
    ∀ schedule result, webCheckLinks (fun _ => nets i) cpus config args' schedule = some result →
      result = .ok (textContent (linkCheck (nets i) config url))
  named : ∀ (i : Nat) (url : Text), urls[i]? = some url →
    (∃ s, sections[i]? = some s ∧ Names ["## Content from ", "## Failed to extract from "] "\n\n" url s) ∧
      Names ["✓ ", "✗ ", "⚠ "] " — " url (linkCheck (nets i) config url)

/-- The section of a URL is what it comes to. -/
theorem section_of_sections {sections : List Text}
    (h : urls.mapIdx (fun i url => extractSection panic (nets i) lib (cancelled i) config url) = sections.map Ended.returned) {i : Nat}
    {url : Text} (hurl : urls[i]? = some url) :
    ∃ s, sections[i]? = some s ∧ extractSection panic (nets i) lib (cancelled i) config url = .returned s := by
  have hget := congrArg (·[i]?) h
  simp only [List.getElem?_mapIdx, hurl, List.getElem?_map, Option.map_some] at hget
  obtain ⟨s, hs, hreturned⟩ := Option.map_eq_some_iff.mp hget.symm
  exact ⟨s, hs, hreturned.symm⟩

/-- The sections, where every URL comes to one. -/
theorem exists_sections
    (h : ∀ (i : Nat) (url : Text), urls[i]? = some url →
      ∃ s, extractSection panic (nets i) lib (cancelled i) config url = .returned s) :
    ∃ sections : List Text,
      urls.mapIdx (fun i url => extractSection panic (nets i) lib (cancelled i) config url) = sections.map Ended.returned := by
  refine exists_map_returned fun e he => ?_
  obtain ⟨i, hi, rfl⟩ := List.mem_mapIdx.mp he
  exact h i urls[i] (List.getElem?_eq_getElem hi)

theorem bulkLossless {sections : List Text} (hcpus : 0 < cpus) (hbulk : bulkUrls config args = .ok urls)
    (hone : 1 ≤ config.server.maxExtractUrls)
    (h : urls.mapIdx (fun i url => extractSection panic (nets i) lib (cancelled i) config url) = sections.map Ended.returned) :
    BulkLossless panic nets lib cancelled cpus config args urls sections where
  returned := h
  extract := lossless_webExtract hbulk h
  links := lossless_webCheckLinks nets hcpus hbulk
  extractAlone i url s args' hurl hs hargs' schedule result hcall := by
    obtain ⟨s', hs', hreturned⟩ := section_of_sections h hurl
    obtain rfl := Option.some.inj (hs.symm.trans hs')
    have hbulk' := bulkUrls_eq_ok hargs' (List.cons_ne_nil url []) hone
    have hsections : [url].mapIdx (extractedSection panic (fun _ => nets i) lib (fun _ => cancelled i) config) =
        [s].map Ended.returned := by
      rw [List.mapIdx_cons, List.mapIdx_nil]
      exact congrArg (fun e => [e]) hreturned
    exact (lossless_webExtract hbulk' hsections).single hcall
  linksAlone i url args' hurl hargs' schedule result hcall := by
    have hbulk' := bulkUrls_eq_ok hargs' (List.cons_ne_nil url []) hone
    have hsingle := (lossless_webCheckLinks (fun _ => nets i) hcpus hbulk').single (congrArg (Option.map Ended.returned) hcall)
    exact Ended.returned.inj hsingle
  named i url hurl := by
    obtain ⟨s, hs, hreturned⟩ := section_of_sections h hurl
    exact ⟨⟨s, hs, names_extractSection hreturned⟩, names_linkCheck (nets i) config url⟩

/-- What is lost where the pieces are not: the page of a URL has ended the process. -/
theorem BulkLossless.not_trapped {target : Target} {sections : List Text}
    (h : BulkLossless panic nets (lib.on target) cancelled cpus config args urls sections) :
    panic = .unwind ∨ ∀ i url, urls[i]? = some url → ¬ Trapped target (nets i) lib (cancelled i) config url := by
  by_cases hpanic : panic = .unwind
  · exact .inl hpanic
  · refine .inr fun i url hurl => ?_
    obtain ⟨s, -, hs⟩ := section_of_sections h.returned hurl
    exact (extractSection_returns_iff.mp ⟨s, hs⟩).resolve_left hpanic

/-- **When the bulk tools lose and duplicate nothing.** For every list of URLs that is not empty and within the limit, whatever
    happens to each of them: exactly if panics unwind, or no page of a URL that is converted makes its conversion panic. -/
theorem bulk_tools_lossless_iff (panic : PanicStrategy) (target : Target) (nets : Nat → Net) (lib : ScrapeLib)
    (cancelled : Nat → Bool) (cpus : Nat) (config : Config) (args : Option Value) (urls : List Text) (hcpus : 0 < cpus)
    (hurls : getStrArray args "urls" = some urls) (hne : urls ≠ []) (hmax : urls.length ≤ config.server.maxExtractUrls) :
    (∃ sections, BulkLossless panic nets (lib.on target) cancelled cpus config args urls sections) ↔
      (panic = .unwind ∨ ∀ i url, urls[i]? = some url → ¬ Trapped target (nets i) lib (cancelled i) config url) := by
  constructor
  · rintro ⟨sections, h⟩
    exact h.not_trapped
  · intro hreturns
    have hcomes : ∃ sections : List Text, urls.mapIdx (fun i url =>
        extractSection panic (nets i) (lib.on target) (cancelled i) config url) = sections.map Ended.returned :=
      exists_sections fun i url hurl => extractSection_returns_iff.mpr (hreturns.imp id fun h => h i url hurl)
    obtain ⟨sections, hsections⟩ := hcomes
    exact ⟨sections, bulkLossless hcpus (bulkUrls_eq_ok hurls hne hmax)
      (Nat.le_trans (List.length_pos_of_ne_nil hne) hmax) hsections⟩

/-- Where such a page aborts, every call ends the process, and the sections of the other URLs are lost with it. -/
theorem webExtract_of_trapped {target : Target} (hurls : bulkUrls config args = .ok urls) {i : Nat} {url : Text}
    (hurl : urls[i]? = some url) (htrapped : Trapped target (nets i) lib (cancelled i) config url)
    {schedule : List Buffered.PoolMove} {result : Ended (Result Value)}
    (h : webExtract .abort nets (lib.on target) cancelled cpus config args schedule = some result) : result = .aborted := by
  unfold webExtract at h
  rw [hurls] at h
  obtain ⟨s, hrun, hresult⟩ := Option.bind_eq_some_iff.mp h
  cases hout : sectionsOf s.out with
  | aborted =>
      rw [hout] at hresult
      exact (Option.some.inj hresult).symm
  | returned sections =>
      -- a call that returns has put out the section of this URL, which has none
      rw [hout] at hresult
      obtain ⟨hfinished, -⟩ := Option.ite_none_right_eq_some.mp hresult
      have hmem : extractSection .abort (nets i) (lib.on target) (cancelled i) config url ∈ s.out := by
        obtain ⟨hi, rfl⟩ := List.getElem?_eq_some_iff.mp hurl
        exact (Buffered.Pool.out_perm hrun hfinished).mem_iff.mpr (List.mem_mapIdx.mpr ⟨i, hi, rfl⟩)
      obtain ⟨section', hreturned⟩ := returned_of_sectionsOf hout _ hmem
      have hcan := extractSection_returns_iff.mp ⟨section', hreturned⟩
      exact absurd htrapped (hcan.resolve_left (by decide))

/-- A site whose page has a paragraph of fifteen letters and a space. -/
def loneNet : Net :=
  { redirectNet with send := fun _ _ _ _ => .received ⟨200, [], [.ok (bytes "<p>aaaaaaaaaaaaaaa </p>")]⟩ }

/-- The parser on that page. -/
def loneLib : ScrapeLib where
  parseDocument body :=
    if body = "<p>aaaaaaaaaaaaaaa </p>".toList then
      ⟨[.elem "html" [] [.elem "head" [] [], .elem "body" [] [.elem "p" [] [.text "aaaaaaaaaaaaaaa "]]]], none, []⟩
    else ⟨[], none, []⟩
  collapse := .ok
  joinError _ := "task 1 panicked"

theorem trapped_lone :
    Trapped (.x86_64 .release) loneNet loneLib false (Config.default ⟨1, fun _ => .error [], fun _ => []⟩)
      "http://example.com/" := by
  refine ⟨rfl, ⟨⟨"http://example.com/", "http", some (.domain "example.com"), some 80⟩, "<p>aaaaaaaaaaaaaaa </p>"⟩, rfl,
    "aaaaaaaaaaaaaaa ", by decide, 0, by decide⟩

/-- **One page ends the call, and the process.** In the release build on `x86_64`: the other URL, which the guard rejects, has a
    section of its own, and the call never returns it. -/
theorem bulk_tools_lose_sections :
    (¬ ∃ sections, BulkLossless .abort (fun _ => loneNet) (loneLib.on (.x86_64 .release)) (fun _ => false) 1
      (Config.default ⟨1, fun _ => .error [], fun _ => []⟩)
      (some (.object [("urls", .array [.string "http://example.com/", .string "http://10.0.0.1/"])]))
      ["http://example.com/", "http://10.0.0.1/"] sections) ∧
    ∀ schedule result, webExtract .abort (fun _ => loneNet) (loneLib.on (.x86_64 .release)) (fun _ => false) 1
      (Config.default ⟨1, fun _ => .error [], fun _ => []⟩)
      (some (.object [("urls", .array [.string "http://example.com/", .string "http://10.0.0.1/"])])) schedule =
        some result → result = .aborted := by
  constructor
  · rintro ⟨sections, h⟩
    exact h.not_trapped.elim (fun h => by cases h) fun h => h 0 "http://example.com/" rfl trapped_lone
  · intro schedule result hcall
    have hbulk : bulkUrls (Config.default ⟨1, fun _ => .error [], fun _ => []⟩)
        (some (.object [("urls", .array [.string "http://example.com/", .string "http://10.0.0.1/"])])) =
        .ok ["http://example.com/", "http://10.0.0.1/"] := by decide
    exact webExtract_of_trapped (i := 0) hbulk rfl trapped_lone hcall

/-- The same two URLs in a build whose panics unwind. -/
theorem bulk_tools_lossless_iff_unwind :
    ∃ sections, BulkLossless .unwind (fun _ => loneNet) (loneLib.on (.x86_64 .debug)) (fun _ => false) 1
      (Config.default ⟨1, fun _ => .error [], fun _ => []⟩)
      (some (.object [("urls", .array [.string "http://example.com/", .string "http://10.0.0.1/"])]))
      ["http://example.com/", "http://10.0.0.1/"] sections :=
  (bulk_tools_lossless_iff .unwind (.x86_64 .debug) (fun _ => loneNet) loneLib (fun _ => false) 1
    (Config.default ⟨1, fun _ => .error [], fun _ => []⟩)
    (some (.object [("urls", .array [.string "http://example.com/", .string "http://10.0.0.1/"])]))
    ["http://example.com/", "http://10.0.0.1/"] (by decide) rfl (by decide) (by decide)).mpr (.inl rfl)

end Actions
end McpWebSearch
