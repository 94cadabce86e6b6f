import McpWebSearch.Client
import McpWebSearch.Lib.Drain

/-!
# `Actions.Search` — search, then scrape the first results (`src/actions/search.rs`)

`web_search_scrape` asks the provider, scrapes the first results concurrently and prints all results, the scraped
ones with their content. The scraping futures are a `Drain`: each takes a permit, fetches its page, gives the
permit back, converts the page, and is pushed on `sections` when it completes.
-/

namespace McpWebSearch
namespace Actions

open Utf8

/-- `SearchRequest`. -/
structure SearchRequest where
  query : Text
  limit : Nat
  language : Text
  categories : Text
  timeRange : Text
  safeSearch : Nat
  engines : Text
  timeoutMs : Nat
  apiKey : Text
  apiUrl : Option Text

/-- `SearchResult`, as far as it is printed. -/
structure SearchResult where
  title : Text
  url : Text
  snippet : Text
  deriving DecidableEq

/-- What `web_search_scrape` runs on: the provider, the outcome of each fetch by its position, the conversion of a
    body to markdown (`none` if the task is cancelled, or panics and the panic unwinds) and the CPU count. -/
structure ScrapeEnv where
  search : SearchProvider → SearchRequest → Result (List SearchResult)
  fetchPage : Nat → Text → Result FetchedPage
  mainToMarkdown : Text → Option Text
  cpus : Nat

def clamp (lo hi n : Nat) : Nat := max lo (min n hi)

/-- The request of `web_search_scrape`: of its arguments, only the query and the limit. -/
def scrapeRequest (config : Config) (args : Option Value) (query : Text) : SearchRequest :=
  let d := config.search
  { query := query
    limit := clamp 1 20 ((getOptUsize args "limit").getD 5)
    language := d.language
    categories := d.categories
    timeRange := d.timeRange
    safeSearch := min d.safeSearch 2
    engines := d.engines
    timeoutMs := d.timeout
    apiKey := config.apiKey.getD []
    apiUrl := config.apiUrl }

/-- The results to print and how many of them to scrape. -/
structure Plan where
  results : List SearchResult
  toScrape : Nat

/-- `web_search_scrape` up to the scraping: an answer, or a plan. -/
def planScrape (env : ScrapeEnv) (config : Config) (args : Option Value) : Result (Value ⊕ Plan) :=
  match getStrArg args "query" with
  | .error e => .error e
  | .ok query =>
      let scrapeLimit := clamp 1 10 ((getOptUsize args "scrapeLimit").getD 3)
      -- a blank query is an answer, not an error
      if (trim query).isEmpty then .ok (.inl (textContent "No search query provided."))
      else
        match env.search config.provider (scrapeRequest config args query) with
        | .error e => .error e
        | .ok results =>
            if results.isEmpty then .ok (.inl (textContent "No results found."))
            else .ok (.inr { results := results, toScrape := min results.length scrapeLimit })

/-- What the future of result `i` yields: its page as markdown, or the failure text. -/
def scrapedContent (env : ScrapeEnv) (results : List SearchResult) (i : Nat) : Text :=
  match env.fetchPage i ((results[i]?.map SearchResult.url).getD []) with
  | .ok page => (env.mainToMarkdown page.body).getD []
  | .error e => "[Failed to fetch: " ++ e.display ++ "]"

/-- A printed result, with the content printed under it if it was scraped. -/
structure Block where
  result : SearchResult
  content : Option Text
  deriving DecidableEq

def Block.format (b : Block) : Text :=
  match b.content with
  | some content =>
      "## " ++ b.result.title ++ " — " ++ b.result.url ++ "\n\n" ++ b.result.snippet ++ "\n\n" ++
        content ++ "\n\n---\n\n"
  | none =>
      "## " ++ b.result.title ++ " — " ++ b.result.url ++ "\n\n" ++ b.result.snippet ++ "\n\n---\n\n"

/-- The two output loops: scraped results with `sections[i]` under result `i`, then the rest. -/
def Plan.blocks (plan : Plan) (sections : List Text) : List Block :=
  -- by position: the order in which the sections were pushed is not looked at
  ((plan.results.take plan.toScrape).zip sections).map (fun (r, content) => ⟨r, some content⟩) ++
    (plan.results.drop plan.toScrape).map (fun r => ⟨r, none⟩)

def Plan.output (plan : Plan) (sections : List Text) : Value :=
  let output := (plan.blocks sections).flatMap Block.format
  textContent (if output.isEmpty then "No results found." else output)

/-- The scraping futures of a plan. -/
def Plan.futures (plan : Plan) (env : ScrapeEnv) : Machine (Drain.State Text) Drain.Event :=
  Drain.drain (scrapedContent env plan.results)

/-- The state before any future has been polled. -/
def Plan.unstarted (plan : Plan) (env : ScrapeEnv) : Drain.State Text :=
  Drain.start (env.cpus * 2) plan.toScrape

/-- `web_search_scrape` under a schedule of its futures; no result if the schedule does not complete them. -/
def webSearchScrape (env : ScrapeEnv) (config : Config) (args : Option Value)
    (schedule : List Drain.Event) : Option (Result Value) :=
  match planScrape env config args with
  | .error e => some (.error e)
  | .ok (.inl answer) => some (.ok answer)
  | .ok (.inr plan) =>
      match (plan.futures env).exec (plan.unstarted env) schedule with
      | some s => if s.finished then some (.ok (plan.output s.out)) else none
      | none => none

end Actions
end McpWebSearch
