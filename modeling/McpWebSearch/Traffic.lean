import McpWebSearch.Dispatch
import McpWebSearch.Actions.Extract
import McpWebSearch.Actions.Map
import McpWebSearch.Actions.WebSearch
import McpWebSearch.Actions.Browser
import McpWebSearch.Actions.Scrape.WebFetch
import McpWebSearch.Lib.Interleave

/-!
# `Traffic` — what the tools do on the network, together

A call of a tool runs a network program (`src/actions/`), or one for each URL of a bulk tool, or asks a provider of `providers`;
here they are as tasks. The tasks of all calls run concurrently, each on the network as it finds it, and each may be dropped where
it waits, when the request times out. `Traffic` is what can happen then. What Chrome does is not a task (`Actions.Browser`); the
check of the URL before it is asked is one. How reqwest reaches a provider is its own business.
-/

namespace McpWebSearch
namespace Server

open Utf8 Actions Scrape

/-- What the handlers use of their libraries. -/
structure Libraries where
  scrape : ScrapeLib
  docs : Documents
  api : Providers.Api
  cpus : Nat

/-- What the server does outside of itself: something on the network, or a request to a provider. -/
inductive Outgoing
  | net (e : NetEvent)
  | ask (r : Providers.ApiRequest)

/-- A network program, and the network as it finds it, or a program that asks a provider. -/
inductive Task
  | fetch (net : Net) (program : NetM Unit)
  | ask (program : Providers.ApiM Unit)

/-- What the task does if nothing cuts it off. -/
def Task.trace : Task → List Outgoing
  | .fetch _ program => (program World.initial).2.trace.map .net
  | .ask program => (program []).2.map .ask

/-- A program for each URL, as a bulk tool spawns them. -/
def perUrl (nets : Nat → Net) (program : Net → Text → NetM Unit) (urls : List Text) : List Task :=
  urls.mapIdx fun i url => .fetch (nets i) (program (nets i) url)

/-- `web_map` up to its validation pass. -/
def mapCandidates (net : Net) (docs : Documents) (config : Config) (args : Option Value) : NetM (List (Text × Bool)) := do
  let start ← Prog.ofExcept (getStrArg args "url")
  let opts := mapOptions docs config args
  let startUrl ← validateUrl net start config.allowPrivateHosts
  let baseHost := (docs.hostStr startUrl).getD []
  let locs ← sitemapLocs net docs config opts startUrl
  let links ← pageLinks net docs config opts startUrl
  let st := locs.foldl (consider net.urls docs opts baseHost) ⟨[], []⟩
  return (links.foldl (consider net.urls docs opts baseHost) st).candidates

/-- The candidates that the validation pass of `web_map` looks up. -/
def candidatesToCheck (net : Net) (docs : Documents) (config : Config) (args : Option Value) : List Text :=
  let candidates := (mapCandidates net docs config args World.initial).1.toOption.getD []
  (candidates.filter (·.2)).map Prod.fst

/-- `web_search_scrape` on a network, for its plan. -/
def scrapeEnv (libs : Libraries) (nets : Nat → Net) (config : Config) : ScrapeEnv where
  search := providerResults libs.api
  fetchPage i url := (fetchPage (nets i) config url World.initial).1
  mainToMarkdown body := (Actions.mainToMarkdown libs.scrape body).toOption
  cpus := libs.cpus

/-- The results whose pages `web_search_scrape` fetches. -/
def scrapedUrls (libs : Libraries) (nets : Nat → Net) (config : Config) (args : Option Value) : List Text :=
  match planScrape (scrapeEnv libs nets config) config args with
  | .ok (.inr plan) => (plan.results.take plan.toScrape).map SearchResult.url
  | _ => []

/-- `web_search_scrape` up to the answer of its provider. -/
def scrapeSearch (api : Providers.Api) (config : Config) (args : Option Value) : Providers.ApiM Unit := do
  let query ← Prog.ofExcept (getStrArg args "query")
  if (trim query).isEmpty then return ()
  else (Providers.search api config.provider (scrapeRequest config args query)).discard

/-- The tasks of a call of a tool. -/
def tasks (libs : Libraries) (config : Config) (nets : Nat → Net) (args : Option Value) : Tool → List Task
  | .webScrape => [.fetch (nets 0) (webScrape (nets 0) libs.scrape config args).discard]
  | .webFetch => [.fetch (nets 0) (webFetch (nets 0) libs.scrape config args).discard]
  | .webFetchText => [.fetch (nets 0) (webFetchText (nets 0) libs.scrape config args).discard]
  | .webFetchHeaders => [.fetch (nets 0) (webFetchHeaders (nets 0) config args).discard]
  | .webSitemap => [.fetch (nets 0) (webSitemap (nets 0) libs.docs config args).discard]
  | .webMap =>
      .fetch (nets 0) (mapCandidates (nets 0) libs.docs config args).discard ::
        perUrl (fun i => nets (i + 1)) (fun net u => (validateUrl net u config.allowPrivateHosts).discard)
          (candidatesToCheck (nets 0) libs.docs config args)
  | .webExtract =>
      perUrl nets (fun net url => (fetchPage net config url).discard) ((bulkUrls config args).toOption.getD [])
  | .webCheckLinks =>
      perUrl nets (fun net url => (checkOneLink net config url).discard) ((bulkUrls config args).toOption.getD [])
  | .webSearchScrape =>
      .ask (scrapeSearch libs.api config args) ::
        perUrl nets (fun net url => (fetchPage net config url).discard) (scrapedUrls libs nets config args)
  | .webSearch => [.ask (webSearch libs.api config args).discard]
  | .browserScrape | .browserScreenshot => [.fetch (nets 0) (browserCheck (nets 0) config args)]

/-- A request, and the network as the tasks of its call find it. -/
structure Call where
  req : JsonRpcRequest
  nets : Nat → Net

/-- The tasks of a request: those of the handlers it runs. -/
def Call.tasks (h : Handlers) (libs : Libraries) (config : Config) (c : Call) : List Task :=
  (processRequest h config c.req).2.flatMap (Server.tasks libs config c.nets (callArgs c.req))

/-- What can go out, each event marked with its task: the tasks of the calls take turns, and each goes as
    far as it gets. -/
def Traffic (h : Handlers) (libs : Libraries) (config : Config) (calls : List Call) (trace : List (Nat × Outgoing)) : Prop :=
  Interleave.Of ((calls.flatMap (Call.tasks h libs config)).map Task.trace) trace

end Server
end McpWebSearch
