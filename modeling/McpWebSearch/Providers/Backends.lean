import McpWebSearch.Providers.Types

/-!
# `Providers.Backends` — the eight search backends and their dispatch (`src/providers/`)

Each backend is what it has of its own: its name and endpoint, its checks, where the key goes, what of the request it
passes on, and where the results are in its answer. DuckDuckGo answers with a page and has a `search` of its own.
-/

namespace McpWebSearch
namespace Providers

open Utf8 Actions

/-- A `usize` or `u64` in a payload. -/
def jsonNat (n : Nat) : Value := .number (.posInt (UInt64.ofNat n))

/-- Whether a language was asked for. -/
def hasLanguage (req : SearchRequest) : Bool := req.language != "auto" && !req.language.isEmpty

/-! ## `google` -/

def Google.endpoint : Text := "https://www.googleapis.com/customsearch/v1"

def Google.request (req : SearchRequest) : Result ApiRequest := do
  checkQuery req
  checkApiKey "Google" req
  let cx ← match req.apiUrl with
    | some cx => .ok cx
    | none => .error (.configError "Google requires SEARCH_API_URL set to the CSE id")
  -- the only backend whose key is part of the URL
  pure {
    method := .get
    url := Google.endpoint
    query := ([("key", req.apiKey), ("cx", cx), ("q", req.query), ("num", decimal (min req.limit 10))] : Pairs) ++
      pairIf (hasLanguage req) "lr" ("lang_" ++ req.language)
    headers := []
    json := none }

def Google.backend : Backend where
  name := "Google"
  quotesBody := true
  request := Google.request
  apiError body := ((body.get "error").bind (·.get "message")).bind Value.asStr
  items body := (body.get "items").bind Value.asArray
  result item :=
    { SearchResult.new (strField item "title") (strField item "link") (strField item "snippet") "google" with
      source := optField item "displayLink" }

/-! ## `bing` -/

def Bing.endpoint : Text := "https://api.bing.microsoft.com/v7.0/search"

def Bing.request (req : SearchRequest) : Result ApiRequest := do
  checkQuery req
  checkApiKey "Bing" req
  let safe : Text := match req.safeSearch with
    | 2 => "Strict"
    | 1 => "Moderate"
    | _ => "Off"
  pure {
    method := .get
    url := Bing.endpoint
    query := ([("q", req.query), ("count", decimal req.limit), ("safeSearch", safe)] : Pairs) ++
      pairIf (hasLanguage req) "mkt" req.language
    headers := [("ocp-apim-subscription-key", req.apiKey)]
    json := none }

def Bing.backend : Backend where
  name := "Bing"
  quotesBody := true
  request := Bing.request
  apiError _ := none
  items body := ((body.get "webPages").bind (·.get "value")).bind Value.asArray
  result item :=
    { SearchResult.new (strField item "name") (strField item "url") (strField item "snippet") "bing" with
      source := optField item "siteName"
      thumbnailUrl := optField item "thumbnailUrl" }

/-! ## `tavily` -/

def Tavily.endpoint : Text := "https://api.tavily.com/search"

def Tavily.validTopics : List Text := ["general", "news", "finance"]

def Tavily.payload (req : SearchRequest) : Value :=
  let payload : Value := .object [("query", .string req.query), ("max_results", jsonNat req.limit)]
  let payload :=
    if Tavily.validTopics.contains req.categories then payload.set "topic" (.string req.categories) else payload
  if !req.timeRange.isEmpty ∧ req.timeRange ≠ "all" then payload.set "time_range" (.string req.timeRange) else payload

def Tavily.request (req : SearchRequest) : Result ApiRequest := do
  checkQuery req
  checkApiKey "Tavily" req
  pure {
    method := .post
    url := Tavily.endpoint
    query := []
    headers := bearerAuth req.apiKey
    json := some (Tavily.payload req) }

/-- `item.get("score").and_then(|v| v.as_f64())`: every number is one. -/
def Tavily.score (item : Value) : Option Number :=
  match item.get "score" with
  | some (.number n) => some n
  | _ => none

def Tavily.backend (api : Api) : Backend where
  name := "Tavily"
  quotesBody := true
  request := Tavily.request
  apiError _ := none
  items body := (body.get "results").bind Value.asArray
  result item :=
    let r := SearchResult.new (strField item "title") (strField item "url") (strField item "content") "tavily"
    match Tavily.score item with
    | some score => { r with snippet := "[Score: " ++ api.formatScore score ++ "] " ++ r.snippet }
    | none => r

/-! ## `zhipu` -/

def Zhipu.endpoint : Text := "https://open.bigmodel.cn/api/paas/v4/web_search"

def Zhipu.validEngines : List Text :=
  ["search_std", "search_pro", "search_pro_sogou", "search_pro_quark", "search_pro_jina", "search_pro_bing"]

def Zhipu.request (req : SearchRequest) : Result ApiRequest := do
  checkQuery req
  checkApiKey "Zhipu" req
  let engine := if Zhipu.validEngines.contains req.engines then req.engines else "search_std"
  pure {
    method := .post
    url := Zhipu.endpoint
    query := []
    headers := bearerAuth req.apiKey
    json := some (.object [("search_engine", .string engine), ("search_query", .string req.query),
      ("search_intent", .bool false), ("count", jsonNat req.limit)]) }

def Zhipu.backend : Backend where
  name := "Zhipu"
  quotesBody := true
  request := Zhipu.request
  apiError body := (body.get "msg").bind Value.asStr
  items body := (body.get "search_result").bind Value.asArray
  result item :=
    { SearchResult.new (strField item "title") (strField item "link") (strField item "content") "zhipu" with
      source := optField item "media" }

/-! ## `exa` -/

def Exa.endpoint : Text := "https://api.exa.ai/search"

/-- `TEXT_CHARS`. -/
def Exa.textChars : Nat := 10000

def Exa.request (req : SearchRequest) : Result ApiRequest := do
  checkQuery req
  checkApiKey "Exa" req
  pure {
    method := .post
    url := Exa.endpoint
    query := []
    headers := [("x-api-key", req.apiKey)]
    json := some (.object [("query", .string req.query), ("numResults", jsonNat req.limit),
      ("contents", .object [("text", .object [("maxCharacters", jsonNat Exa.textChars)])])]) }

def Exa.backend : Backend where
  name := "Exa"
  quotesBody := true
  request := Exa.request
  apiError body := (body.get "message").bind Value.asStr
  items body := (body.get "results").bind Value.asArray
  result item :=
    let text := strField item "text"
    { SearchResult.new (strField item "title") (strField item "url") text "exa" with
      -- the whole text of the page, also shown as its snippet
      markdown := if text.isEmpty then none else some text }

/-! ## `bocha` -/

def Bocha.endpoint : Text := "https://api.bocha.cn/v1/web-search"

def Bocha.request (req : SearchRequest) : Result ApiRequest := do
  checkQuery req
  checkApiKey "Bocha" req
  let freshness : Text :=
    if req.timeRange = "day" then "oneDay"
    else if req.timeRange = "week" then "oneWeek"
    else if req.timeRange = "month" then "oneMonth"
    else if req.timeRange = "year" then "oneYear"
    else "noLimit"
  pure {
    method := .post
    url := Bocha.endpoint
    query := []
    headers := bearerAuth req.apiKey
    json := some (.object [("query", .string req.query), ("count", jsonNat req.limit), ("summary", .bool true),
      ("freshness", .string freshness)]) }

/-- `first_str`: the first of the fields that is a string. -/
def firstStr (v : Value) (keys : List Text) : Text := (keys.findSome? (optField v)).getD []

def Bocha.backend : Backend where
  name := "Bocha"
  quotesBody := true
  request := Bocha.request
  apiError _ := none
  -- the first path that leads to something, array or not
  items body :=
    (((pointer body ["data", "webPages", "value"]).or (pointer body ["webPages", "value"])).or
      (body.get "results")).bind Value.asArray
  result item :=
    { SearchResult.new (firstStr item ["name", "title"]) (firstStr item ["url", "link"])
        (firstStr item ["snippet", "summary", "content"]) "bocha" with
      source := ((item.get "siteName").or (item.get "site_name")).bind Value.asStr }

/-! ## `searxng` -/

def Searxng.validTimeRanges : List Text := ["day", "month", "year"]

/-- `base.trim_end_matches('/')`. -/
def Searxng.trimSlashes (base : Text) : Text := base.rdropWhile (· = '/')

def Searxng.request (req : SearchRequest) : Result ApiRequest := do
  checkQuery req
  let base ← match req.apiUrl with
    | some base => .ok base
    | none => .error (.configError "SearXNG API URL is required")
  pure {
    method := .get
    url := Searxng.trimSlashes base ++ "/search"
    query := ([("q", req.query), ("pageno", "1"), ("categories", req.categories), ("format", "json"),
      ("safesearch", decimal req.safeSearch), ("language", req.language), ("engines", req.engines)] : Pairs) ++
        pairIf (Searxng.validTimeRanges.contains req.timeRange) "time_range" req.timeRange
    -- a key is welcome here, but not required
    headers := if req.apiKey.isEmpty then [] else bearerAuth req.apiKey
    json := none }

def Searxng.backend : Backend where
  name := "SearXNG"
  quotesBody := false
  request := Searxng.request
  apiError body := (body.get "error").bind Value.asStr
  items body := (body.get "results").bind Value.asArray
  result item :=
    { SearchResult.new (strField item "title") (strField item "url") (strField item "content")
        ((optField item "engine").getD "searxng") with
      source := optField item "source"
      thumbnailUrl := optField item "thumbnail_src" }

/-! ## `duckduckgo` -/

/-- `HTML_ENDPOINT`. -/
def Duckduckgo.htmlEndpoint : Text := "https://html.duckduckgo.com/html/"

def Duckduckgo.request (req : SearchRequest) : Result ApiRequest := do
  checkQuery req
  let kp : Text := match req.safeSearch with
    | 2 => "1"
    | 1 => "-1"
    | _ => "-2"
  pure {
    method := .get
    url := Duckduckgo.htmlEndpoint
    query := [("q", req.query), ("kp", kp)]
    headers := []
    json := none }

/-- `resp.text()`, its error wrapped. -/
def Duckduckgo.readText (resp : ApiResponse) : Result Text :=
  match resp.text with
  | .error e => .error (.providerError ("DuckDuckGo read failed: " ++ e))
  | .ok html => .ok html

/-- `parse_results` on the page, in a blocking task. -/
def Duckduckgo.read (api : Api) (limit : Nat) (html : Text) : Result SearchResponse :=
  match api.joinError with
  | some e => .error (.providerError ("parse task failed: " ++ e))
  | none =>
      .ok {
        success := true
        results := (DuckDuckGo.parseResults api.urls (api.resultNodes html) limit).map fun r =>
          SearchResult.new r.title r.url r.snippet "duckduckgo" }

def Duckduckgo.search (api : Api) (req : SearchRequest) : ApiM SearchResponse := do
  let r ← Prog.ofExcept (Duckduckgo.request req)
  let resp ← call api "DuckDuckGo" false req.timeoutMs r
  let html ← Prog.ofExcept (Duckduckgo.readText resp)
  Prog.ofExcept (Duckduckgo.read api req.limit html)

/-! ## Dispatch (`mod.rs`) -/

/-- The backend of a provider that answers in JSON. -/
def backendOf (api : Api) : SearchProvider → Option Backend
  | .searxng => some Searxng.backend
  | .duckDuckGo => none
  | .bing => some Bing.backend
  | .tavily => some (Tavily.backend api)
  | .google => some Google.backend
  | .zhipu => some Zhipu.backend
  | .exa => some Exa.backend
  | .bocha => some Bocha.backend

/-- `providers::search`. -/
def search (api : Api) (provider : SearchProvider) (req : SearchRequest) : ApiM SearchResponse :=
  match backendOf api provider with
  | some b => b.search api req
  | none => Duckduckgo.search api req

end Providers
end McpWebSearch
