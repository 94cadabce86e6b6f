import McpWebSearch.Providers.Backends

/-!
# `Actions.WebSearch` — `web_search` (`src/actions/search.rs`)

The arguments, with the defaults of the configuration, make a request; the backend of the configuration answers it; its results
are printed. `web_search_scrape` (`Actions.Search`) asks the same backends.
-/

namespace McpWebSearch
namespace Actions

open Utf8

/-- The request of `web_search`. -/
def searchRequest (config : Config) (args : Option Value) (query : Text) : SearchRequest :=
  let d := config.search
  { query := query
    limit := clamp 1 100 ((getOptUsize args "limit").getD d.limit)
    language := (getOptStr args "language").getD d.language
    categories := (getOptStr args "categories").getD d.categories
    timeRange := (getOptStr args "timeRange").getD d.timeRange
    safeSearch := min ((getOptU8 args "safeSearch").getD d.safeSearch) 2
    engines := (getOptStr args "engines").getD d.engines
    timeoutMs := d.timeout
    apiKey := config.apiKey.getD []
    apiUrl := config.apiUrl }

/-- A result as `format_results` prints it. -/
def formatResult (r : Providers.SearchResult) : Text :=
  let block := "Title: " ++ r.title ++ "\nURL: " ++ r.url ++ "\nDescription: " ++ r.snippet
  match r.markdown with
  | some md => if !md.isEmpty then block ++ "\nContent: " ++ md else block
  | none => block

/-- `format_results`. -/
def formatResults (results : List Providers.SearchResult) : Text :=
  if results.isEmpty then "No results found." else join "\n\n" (results.map formatResult)

/-- `web_search`. -/
def webSearch (api : Providers.Api) (config : Config) (args : Option Value) : Providers.ApiM Value := do
  let query ← Prog.ofExcept (getStrArg args "query")
  if (trim query).isEmpty then return textContent "No search query provided."
  else do
    let resp ← Providers.search api config.provider (searchRequest config args query)
    return textContent (formatResults resp.results)

/-- What `web_search_scrape` gets of the backends: the results as far as it prints them. -/
def providerResults (api : Providers.Api) (provider : SearchProvider) (req : SearchRequest) :
    Result (List SearchResult) :=
  (Providers.search api provider req []).1.map fun resp => resp.results.map Providers.SearchResult.toSearchResult

end Actions
end McpWebSearch
