import McpWebSearch.Client
import McpWebSearch.Actions.Scrape.Links
import McpWebSearch.Lib.Buffered

/-!
# `Actions.Map` — `web_map` (`src/actions/map.rs`)

The URLs of a site, from its sitemap and the links of its start page. The candidates are picked one by one
(`consider`), then the ones of another host are validated, several at a time and in order. The schedule of that
pass and the verdicts of its `validate_url` calls are parameters, so that nothing depends on when they are
made.

## Contents
- `parseSitemapFast`: the `loc` elements of a sitemap.
- `consider` / `mapUrls`: from the two lists of URLs to the output.
- `webMap`: where the two lists come from.
-/

namespace McpWebSearch

open Utf8

namespace Actions

/-! ## `parse_sitemap_fast` -/

/-- One round of the loop of `parse_sitemap_fast`, on `in_loc` and `out`. -/
def parseSitemapStep (st : Bool × List Text) : Xml.Event → Bool × List Text
  | .start name | .empty name => if name = "loc" then (true, st.2) else st
  | .text decoded =>
      match decoded with
      | some text =>
          let s := trim text
          if st.1 && !s.isEmpty then (st.1, st.2 ++ [s]) else st
      | none => st  -- `unescape` failed
  | .close name => if name = "loc" then (false, st.2) else st
  | .cdata _ | .other => st

/-- `parse_sitemap_fast`, on the events of the reader. -/
def parseSitemapFast (es : List Xml.Event) : List Text := (es.foldl parseSitemapStep (false, [])).2

/-! ## Candidates -/

/-- The arguments of `web_map` besides the URL. -/
structure MapOptions where
  filter : Option Text
  ignoreSitemap : Bool
  sitemapOnly : Bool
  includeSubdomains : Bool
  limit : Nat

def mapOptions (docs : Documents) (config : Config) (args : Option Value) : MapOptions where
  filter := (getOptStr args "search").map docs.toLowercase
  ignoreSitemap := (getOptBool args "ignoreSitemap").getD false
  sitemapOnly := (getOptBool args "sitemapOnly").getD false
  includeSubdomains := (getOptBool args "includeSubdomains").getD false
  limit := min ((getOptUsize args "limit").getD config.server.maxMapUrls) config.server.maxMapUrls

/-- `host_allowed_host`. -/
def hostAllowedHost (host baseHost : Text) (includeSubdomains : Bool) : Bool :=
  host == baseHost || (includeSubdomains && (".".toList ++ baseHost).isSuffixOf host)

/-- The host of a URL string, if it parses and has one. -/
def parsedHost (urls : UrlParser) (docs : Documents) (url : Text) : Option Text :=
  (urls.parse url).toOption.bind docs.hostStr

/-- The candidates picked so far, each with whether it needs a DNS check, and the URLs seen. -/
structure Candidates where
  candidates : List (Text × Bool)
  seen : List Text

/-- The closure `consider`. -/
def consider (urls : UrlParser) (docs : Documents) (opts : MapOptions) (baseHost : Text) (st : Candidates)
    (url : Text) : Candidates :=
  if st.candidates.length ≥ opts.limit then st
  else
    match parsedHost urls docs url with
    | none => st
    | some host =>
        if !hostAllowedHost host baseHost opts.includeSubdomains then st
        else if opts.filter.any (fun f => !contains (docs.toLowercase url) f) then st
        else
          let needsDns := host != baseHost
          if st.seen.contains url then st
          else { candidates := st.candidates ++ [(url, needsDns)], seen := url :: st.seen }

/-! ## The validation pass -/

/-- What the future of a candidate comes to; `validated i u` is the verdict on candidate `i`. -/
def keepCandidate (validated : Nat → Text → Bool) (i : Nat) : Text × Bool → Option Text
  | (u, needsDns) => if !needsDns then some u else if validated i u then some u else none

/-- The validation pass, as the stream scheduled by `sched`; no result unless the schedule finishes it. -/
def validationPass (cpus : Nat) (validated : Nat → Text → Bool) (sched : List Buffered.Move)
    (candidates : List (Text × Bool)) : Option (List Text) :=
  let concurrency := max (cpus * 2) 8
  ((Buffered.buffered concurrency (keepCandidate validated) candidates).exec .initial sched).bind (fun s =>
    if s.out.length = candidates.length then some (s.out.filterMap id) else none)

/-- The output list of `web_map`, from the entries of the sitemap and the links of the page. -/
def mapUrls (urls : UrlParser) (docs : Documents) (opts : MapOptions) (baseHost : Text) (cpus : Nat)
    (validated : Nat → Text → Bool) (sched : List Buffered.Move) (locs links : List Text) :
    Option (List Text) :=
  let st := locs.foldl (consider urls docs opts baseHost) ⟨[], []⟩
  let st := links.foldl (consider urls docs opts baseHost) st
  validationPass cpus validated sched st.candidates

/-! ## `web_map` -/

/-- The entries of the sitemap: none if it is ignored or cannot be fetched. -/
def sitemapLocs (net : Net) (docs : Documents) (config : Config) (opts : MapOptions) (startUrl : Url) :
    NetM (List Text) :=
  if opts.ignoreSitemap then return []
  else
    match net.urls.join startUrl "/sitemap.xml" with
    | .error _ => return []
    | .ok origin => do
        match ← Prog.attempt (fetchPage net config origin.asStr) with
        | .error _ => return []
        | .ok page => return parseSitemapFast (docs.events page.body)

/-- The links of the page itself: none if only the sitemap is asked for, or the page cannot be fetched. -/
def pageLinks (net : Net) (docs : Documents) (config : Config) (opts : MapOptions) (startUrl : Url) :
    NetM (List Text) :=
  if opts.sitemapOnly then return []
  else do
    match ← Prog.attempt (fetchPage net config startUrl.asStr) with
    | .error _ => return []
    | .ok page => return collectLinks docs net.urls page.body page.finalUrl

/-- The `Ok` value of `web_map`. -/
def mapContent (out : List Text) : Value :=
  textContent (if out.isEmpty then "No URLs discovered." else join "\n" out)

/-- `web_map`; its result is `none` while the schedule of the validation pass is not finished. -/
def webMap (net : Net) (docs : Documents) (config : Config) (cpus : Nat) (validated : Nat → Text → Bool)
    (sched : List Buffered.Move) (args : Option Value) : NetM (Option Value) := do
  let start ← Prog.ofExcept (getStrArg args "url")
  let opts := mapOptions docs config args
  let startUrl ← validateUrl net start config.allowPrivateHosts
  let baseHost := (docs.hostStr startUrl).getD []
  let locs ← sitemapLocs net docs config opts startUrl
  let links ← pageLinks net docs config opts startUrl
  return (mapUrls net.urls docs opts baseHost cpus validated sched locs links).map mapContent

end Actions
end McpWebSearch
