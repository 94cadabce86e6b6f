import McpWebSearch.Providers.DuckDuckGo
import McpWebSearch.Correctness.Verdict

/-!
# `Correctness.DuckDuckGo` — which result links become usable URLs

The results are the first ones, up to the limit, whose link is decoded to something (`parseResults_eq`). What a link is
decoded to is an http(s) URL if the link says so itself: in its `uddg` parameter, which is taken as it is, or in its
whole, of which only the first four letters are looked at (`usable_iff`).
-/

namespace McpWebSearch
namespace DuckDuckGo

open Utf8 Actions

variable {urls : QueryParser}

/-! ## One link -/

/-- The link leads to an http(s) URL: by its `uddg` parameter, if it has one and it is not empty, or else by itself, if
    it looks like one. -/
def LeadsToHttp (urls : QueryParser) (href : Text) : Prop :=
  match uddg urls (absoluteHref href) with
  | some val => val = [] ∨ HttpText urls.toUrlParser val
  | none => "http".toList <+: absoluteHref href → HttpText urls.toUrlParser (absoluteHref href)

/-- The link is decoded to something. -/
def yields (urls : QueryParser) (href : Text) : Bool :=
  match uddg urls (absoluteHref href) with
  | some val => !val.isEmpty
  | none => "http".toList.isPrefixOf (absoluteHref href)

theorem isEmpty_decodeRedirect (href : Text) : (decodeRedirect urls href).isEmpty = !yields urls href := by
  unfold decodeRedirect yields
  cases uddg urls (absoluteHref href) with
  | some val => exact (Bool.not_not _).symm
  | none =>
      dsimp only
      by_cases hhttp : "http".toList.isPrefixOf (absoluteHref href) = true
      · rw [if_pos hhttp, hhttp]
        obtain ⟨rest, hrest⟩ := List.isPrefixOf_iff_prefix.mp hhttp
        rw [← hrest]
        rfl
      · rw [if_neg hhttp, Bool.eq_false_iff.mpr hhttp]
        rfl

/-- **What a link is decoded to**: nothing, or an http(s) URL, exactly if the link leads to one. -/
theorem usable_iff (href : Text) :
    decodeRedirect urls href = [] ∨ HttpText urls.toUrlParser (decodeRedirect urls href) ↔ LeadsToHttp urls href := by
  unfold decodeRedirect LeadsToHttp
  cases uddg urls (absoluteHref href) with
  | some val => exact Iff.rfl
  | none =>
      dsimp only
      by_cases hhttp : "http".toList.isPrefixOf (absoluteHref href) = true
      · have hprefix := List.isPrefixOf_iff_prefix.mp hhttp
        have hne : absoluteHref href ≠ [] := by
          obtain ⟨rest, hrest⟩ := hprefix
          rw [← hrest]
          exact List.cons_ne_nil _ _
        rw [if_pos hhttp, or_iff_right hne]
        exact ⟨fun h _ => h, fun h => h hprefix⟩
      · rw [if_neg hhttp]
        exact ⟨fun _ hprefix => absurd (List.isPrefixOf_iff_prefix.mpr hprefix) hhttp, fun _ => .inl rfl⟩

/-! ## A page -/

/-- **The loop**: the results of the nodes, up to the limit. -/
theorem parseLoop_eq (limit : Nat) (out : List SearchResult) (nodes : List ResultNode) (hout : out.length ≤ limit) :
    parseLoop urls limit out nodes = (out ++ nodes.filterMap (parseResult urls)).take limit := by
  induction nodes generalizing out with
  | nil => rw [parseLoop, List.filterMap_nil, List.append_nil, List.take_of_length_le hout]
  | cons node nodes ih =>
      rw [parseLoop]
      by_cases hfull : out.length ≥ limit
      · rw [if_pos hfull, List.take_append_of_le_length hfull, List.take_of_length_le hout]
      · rw [if_neg hfull]
        cases hresult : parseResult urls node with
        | none => rw [ih out hout, List.filterMap_cons_none hresult]
        | some r =>
            have hroom : (out ++ [r]).length ≤ limit := by simp; omega
            dsimp only
            rw [ih (out ++ [r]) hroom, List.filterMap_cons_some hresult, List.append_assoc, List.singleton_append]

theorem parseResults_eq (nodes : List ResultNode) (limit : Nat) :
    parseResults urls nodes limit = (nodes.filterMap (parseResult urls)).take limit :=
  parseLoop_eq limit [] nodes (Nat.zero_le limit)

/-- The links of a page, in order. -/
def hrefs (nodes : List ResultNode) : List Text := nodes.filterMap fun node => node.link.map fun link => link.2.getD []

/-- The URLs of the results are the decoded links. -/
theorem map_url_filterMap (nodes : List ResultNode) :
    (nodes.filterMap (parseResult urls)).map SearchResult.url =
      ((hrefs nodes).filter (yields urls)).map (decodeRedirect urls) := by
  induction nodes with
  | nil => rfl
  | cons node nodes ih =>
      obtain ⟨link, snippet⟩ := node
      rcases link with _ | ⟨text, href⟩
      · exact ih
      · have hempty := @isEmpty_decodeRedirect urls (href.getD [])
        have hhrefs : hrefs (⟨some (text, href), snippet⟩ :: nodes) = href.getD [] :: hrefs nodes := rfl
        rw [hhrefs]
        cases hyields : yields urls (href.getD []) with
        | true =>
            rw [hyields] at hempty
            rw [List.filterMap_cons_some (by rw [parseResult]; exact if_neg (by rw [hempty]; decide)),
              List.filter_cons_of_pos hyields, List.map_cons, List.map_cons, ih]
        | false =>
            rw [hyields] at hempty
            rw [List.filterMap_cons_none (by rw [parseResult]; exact if_pos hempty),
              List.filter_cons_of_neg (by rw [hyields]; decide), ih]

/-- **Which pages give usable URLs only.** A link is decoded to nothing or an http(s) URL exactly if it leads to one; a
    page gives no more results than the limit, and all of them have http(s) URLs exactly if the first links that are
    decoded to something, up to the limit, lead to such. -/
theorem result_urls_usable_iff (urls : QueryParser) :
    (∀ href, (decodeRedirect urls href = [] ∨ HttpText urls.toUrlParser (decodeRedirect urls href)) ↔
      LeadsToHttp urls href) ∧
    ∀ nodes limit, (parseResults urls nodes limit).length ≤ limit ∧
      ((∀ r ∈ parseResults urls nodes limit, HttpText urls.toUrlParser r.url) ↔
        ∀ href ∈ ((hrefs nodes).filter (yields urls)).take limit, LeadsToHttp urls href) := by
  refine ⟨usable_iff, fun nodes limit => ⟨?_, ?_⟩⟩
  · rw [parseResults_eq]
    exact List.length_take_le _ _
  · have hurls : (parseResults urls nodes limit).map SearchResult.url =
        (((hrefs nodes).filter (yields urls)).take limit).map (decodeRedirect urls) := by
      rw [parseResults_eq, List.map_take, map_url_filterMap, List.map_take]
    have hmap : (∀ r ∈ parseResults urls nodes limit, HttpText urls.toUrlParser r.url) ↔
        ∀ url ∈ (parseResults urls nodes limit).map SearchResult.url, HttpText urls.toUrlParser url :=
      List.forall_mem_map.symm
    rw [hmap, hurls, List.forall_mem_map]
    refine forall₂_congr fun href hmem => ?_
    have hyields : yields urls href = true := (List.mem_filter.mp (List.mem_of_mem_take hmem)).2
    have hne : decodeRedirect urls href ≠ [] := by
      intro hnil
      have hempty := @isEmpty_decodeRedirect urls href
      rw [hnil, hyields] at hempty
      cases hempty
    rw [← usable_iff, or_iff_right hne]

/-- The parser on the two URLs of the example. -/
def scriptUrls : QueryParser where
  parse raw :=
    if raw = "https://duckduckgo.com/l/?uddg=javascript%3Aalert(1)" then
      .ok ⟨raw, "https", some (.domain "duckduckgo.com"), some 443⟩
    else if raw = "javascript:alert(1)" then .ok ⟨raw, "javascript", none, none⟩
    else .error "relative URL without a base"
  join _ _ := .error "relative URL without a base"
  queryPairs url :=
    if url.asStr = "https://duckduckgo.com/l/?uddg=javascript%3Aalert(1)" then [("uddg", "javascript:alert(1)")] else []

/-- **A script in the parameter** is the URL of the result. -/
theorem script_link_emitted :
    parseResults scriptUrls [⟨some ("Result", some "//duckduckgo.com/l/?uddg=javascript%3Aalert(1)"), none⟩] 10 =
        [⟨"Result", "javascript:alert(1)", []⟩] ∧
      ¬ (decodeRedirect scriptUrls "//duckduckgo.com/l/?uddg=javascript%3Aalert(1)" = [] ∨
        HttpText scriptUrls.toUrlParser
          (decodeRedirect scriptUrls "//duckduckgo.com/l/?uddg=javascript%3Aalert(1)")) := by
  have hdecoded : decodeRedirect scriptUrls "//duckduckgo.com/l/?uddg=javascript%3Aalert(1)" =
      "javascript:alert(1)".toList := by decide
  refine ⟨by decide, ?_⟩
  rw [hdecoded]
  rintro (h | ⟨url, hparse, hscheme⟩)
  · exact List.cons_ne_nil _ _ h
  · obtain rfl := Except.ok.inj (show Except.ok _ = Except.ok url from hparse)
    rcases hscheme with h | h
    · exact absurd h (by decide)
    · exact absurd h (by decide)

end DuckDuckGo
end McpWebSearch
