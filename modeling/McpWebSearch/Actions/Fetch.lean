import McpWebSearch.Client
import McpWebSearch.Actions.Scrape.Links
import McpWebSearch.Lib.Drain

/-!
# `Actions.Fetch` — header fetches, link checks and sitemaps (`src/actions/fetch.rs`)

`web_fetch_headers` follows redirects with HEAD requests; `check_one_link` sends one HEAD request and turns every
outcome into a line of text, and `web_check_links` does that for many URLs at once, its lines in the order of completion;
`web_sitemap` lists the URLs of a sitemap, with a parser of its own.
-/

namespace McpWebSearch

open Utf8

namespace Actions

/-! ## `web_fetch_headers` -/

/-- The response to a HEAD request of `web_fetch_headers`, or its error. -/
def headResponse (current : Url) : Sent → Result HttpResponse
  | .elapsed => .error (.timeout ("HEAD " ++ current.asStr))
  | .failed isTimeout isConnect e =>
      if isTimeout then .error (.timeout ("HEAD " ++ current.asStr ++ " timed out"))
      else if isConnect then
        .error (.httpError ("connection to " ++ current.asStr ++ " failed: " ++ e))
      else .error (.httpError ("HEAD " ++ current.asStr ++ " failed: " ++ e))
  | .received r => .ok r

/-- The line of one header; a value that is not text is left out. -/
def headerLine : Text × List UInt8 → Text
  | (name, value) =>
      match HeaderMap.toStr value with
      | some v => name ++ ": " ++ v ++ "\n"
      | none => []

/-- The text `web_fetch_headers` returns: the final URL, the status and the headers. -/
def headerLines (net : Net) (current : Url) (resp : HttpResponse) : Text :=
  "URL: " ++ current.asStr ++ "\nStatus: " ++ decimal resp.status ++ " " ++
    (net.canonicalReason resp.status).getD "Unknown" ++ "\n\nHeaders:\n" ++
    resp.headers.flatMap headerLine

/-- The loop of `web_fetch_headers`, with the number of hops left. -/
def headLoop (net : Net) (config : Config) (url : Text) : Nat → Nat → Url → NetM Value
  | 0, _, _ =>
      Prog.fail (.httpError ("exceeded " ++ decimal config.maxRedirects ++ " redirects from " ++ url))
  | left + 1, hop, current => do
      let client ← clientFor net config current
      let resp ← Prog.ofExcept (headResponse current (← sendRequest net client.asRef .head current))
      if resp.isRedirection then do
        let next ← Prog.ofExcept (redirectTarget net.urls hop current resp)
        -- also on the last hop, whose target is validated but never requested
        let current ← validateUrl net next.asStr config.allowPrivateHosts
        headLoop net config url left (hop + 1) current
      else return textContent (headerLines net current resp)

/-- `web_fetch_headers`. -/
def webFetchHeaders (net : Net) (config : Config) (args : Option Value) : NetM Value := do
  let url ← Prog.ofExcept (getStrArg args "url")
  let current ← validateUrl net url config.allowPrivateHosts
  headLoop net config url (config.maxRedirects + 1) 0 current

/-! ## `check_one_link` -/

/-- The line for the outcome of the HEAD request. -/
def linkLine (net : Net) (url : Text) : Sent → Text
  | .received resp =>
      let icon : Text := if resp.status < 400 then "✓" else "✗"
      icon ++ " " ++ url ++ " — " ++ decimal resp.status ++ " " ++
        (net.canonicalReason resp.status).getD "Unknown"
  | .failed isTimeout isConnect e =>
      if isTimeout then "⚠ " ++ url ++ " — Timeout"
      else if isConnect then "✗ " ++ url ++ " — Connection failed"
      else "✗ " ++ url ++ " — " ++ e
  | .elapsed => "⚠ " ++ url ++ " — Timeout"

/-- `check_one_link`: it never fails. -/
def checkOneLink (net : Net) (config : Config) (url : Text) : NetM Text := do
  match ← Prog.attempt (validateUrl net url config.allowPrivateHosts) with
  | .error e => return "✗ " ++ url ++ " — " ++ e.display
  | .ok current => do
      match ← Prog.attempt (clientFor net config current) with
      | .error e => return "✗ " ++ url ++ " — " ++ e.display
      | .ok client => do
          let sent ← sendRequest net client.asRef .head current
          return linkLine net url sent

/-! ## `web_check_links` -/

/-- The URLs of a bulk call: `web_check_links` and `web_extract` read them alike. -/
def bulkUrls (config : Config) (args : Option Value) : Result (List Text) :=
  match (getStrArray args "urls").filter (fun u => !u.isEmpty) with
  | none => .error (.invalidParams "Missing 'urls' parameter")
  | some urls =>
      let maxUrls := config.server.maxExtractUrls
      if urls.length > maxUrls then
        .error (.invalidParams ("Too many URLs: provided " ++ decimal urls.length ++ ", maximum is " ++ decimal maxUrls))
      else .ok urls

/-- What `check_one_link` comes to on a network of its own; it never fails. -/
def linkCheck (net : Net) (config : Config) (url : Text) : Text :=
  (checkOneLink net config url World.initial).1.toOption.getD []

/-- What the future of link `i` yields; `nets i` is the network as it finds it. -/
def checkedLink (nets : Nat → Net) (config : Config) (urls : List Text) (i : Nat) : Text :=
  linkCheck (nets i) config ((urls[i]?).getD [])

/-- `web_check_links` under a schedule of its futures; no result if the schedule does not complete them. -/
def webCheckLinks (nets : Nat → Net) (cpus : Nat) (config : Config) (args : Option Value)
    (schedule : List Drain.Event) : Option (Result Value) :=
  match bulkUrls config args with
  | .error e => some (.error e)
  | .ok urls =>
      ((Drain.drain (checkedLink nets config urls)).exec (Drain.start (cpus * 2) urls.length) schedule).bind fun s =>
        if s.finished then some (.ok (textContent (join "\n" s.out))) else none

/-! ## `web_sitemap` -/

/-- One round of the parser inside `web_sitemap`, on `in_loc` and `out`. -/
def webSitemapStep (limit : Nat) (st : Bool × List Text) : Xml.Event → Bool × List Text
  | .start name | .empty name => if name = "loc" then (true, st.2) else st
  | .text decoded =>
      let text := decoded.getD []
      if st.1 && !text.isEmpty && st.2.length < limit then (st.1, st.2 ++ [text]) else st
  -- the end tag of any element
  | .close _ => (false, st.2)
  | .cdata _ | .other => st

/-- The parser inside `web_sitemap`, on the events of the reader. -/
def webSitemapUrls (limit : Nat) (es : List Xml.Event) : List Text :=
  (es.foldl (webSitemapStep limit) (false, [])).2

/-- `web_sitemap`. -/
def webSitemap (net : Net) (docs : Documents) (config : Config) (args : Option Value) : NetM Value := do
  let url ← Prog.ofExcept (getStrArg args "url")
  let limit := min ((getOptUsize args "limit").getD config.server.maxMapUrls) config.server.maxMapUrls
  let startUrl ← validateUrl net url config.allowPrivateHosts
  match net.urls.parse (docs.origin startUrl) with
  | .error _ => Prog.fail (.httpError "invalid origin URL")
  | .ok origin =>
      match net.urls.join origin "/sitemap.xml" with
      | .error _ => Prog.fail (.httpError "invalid sitemap URL")
      | .ok sitemapUrl => do
          match ← Prog.attempt (fetchPage net config sitemapUrl.asStr) with
          | .error e => return textContent ("Failed to fetch sitemap: " ++ e.display)
          | .ok page =>
              let out := webSitemapUrls limit (docs.events page.body)
              return textContent (if out.isEmpty then "No URLs found in sitemap" else join "\n" out)

end Actions
end McpWebSearch
