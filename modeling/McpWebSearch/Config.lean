import Mathlib.Data.Rat.Defs
import Mathlib.Algebra.Order.Ring.Unbundled.Rat
import McpWebSearch.Protocol
import McpWebSearch.Tools

/-!
# `Config` — command-line arguments and the server configuration

`Args` of `src/lib.rs` and `Config::from_args` of `src/config.rs`. What `from_args` reads besides its arguments
(the CPU count, the token file, `tools.json`) is in `Env`.
-/

namespace McpWebSearch

open Utf8

/-- A `Duration`, in milliseconds. -/
abbrev Duration := Nat

def Duration.fromSecs (s : Nat) : Duration := 1000 * s

/-- `Duration::as_secs`: whole seconds, rounded down. -/
def Duration.asSecs (d : Duration) : Nat := d / 1000

/-- An `f64`, its finite values taken as the rationals they denote. -/
inductive F64
  | nan
  | negInf
  | finite (q : Rat)
  | posInf

/-- `self.max(0.0)`: a NaN yields the other operand. -/
def F64.maxZero : F64 → F64
  | .nan => .finite 0
  | .negInf => .finite 0
  | .finite q => .finite (max q 0)
  | .posInf => .posInf

/-- `SearchProvider`. -/
inductive SearchProvider
  | searxng
  | duckDuckGo
  | bing
  | tavily
  | google
  | zhipu
  | exa
  | bocha
  deriving DecidableEq

namespace SearchProvider

def requiresApiKey : SearchProvider → Bool
  | .bing | .tavily | .google | .zhipu | .exa | .bocha => true
  | _ => false

def asStr : SearchProvider → Text
  | .searxng => "searxng"
  | .duckDuckGo => "duckduckgo"
  | .bing => "bing"
  | .tavily => "tavily"
  | .google => "google"
  | .zhipu => "zhipu"
  | .exa => "exa"
  | .bocha => "bocha"

/-- The closure `needs_url` of `from_args`. -/
def needsUrl : SearchProvider → Bool
  | .searxng | .google => true
  | _ => false

end SearchProvider

/-- `Args`, less the fields only `main` reads (`stdio`, `log_level`, `worker_threads`). -/
structure Args where
  searchProvider : SearchProvider
  searchApiKey : Option Text
  searchApiUrl : Option Text
  limit : Nat
  language : Text
  categories : Text
  timeRange : Text
  safeSearch : Nat
  engines : Text
  timeout : Nat
  host : Text
  httpPort : Nat
  requestTimeout : Nat
  maxRequestBytes : Nat
  maxResponseBytes : Nat
  maxRedirects : Nat
  allowPrivateHosts : Bool
  authToken : Option Text
  authTokenFile : Option Text
  maxExtractUrls : Nat
  maxMapUrls : Nat
  rateLimit : F64
  dnsPin : Bool
  tlsCert : Option Text
  tlsKey : Option Text
  browserPath : Option Text
  browserMaxPages : Nat
  browserNavTimeoutMs : Nat
  browserDisable : Bool
  enableAll : Bool
  enableSearch : Bool
  enableScrape : Bool
  enableFetch : Bool
  enableCrawl : Bool

/-- `Args::enabled_categories`. -/
def Args.enabledCategories (args : Args) : List ToolCategory :=
  if args.enableAll then ToolCategory.all
  else
    let push (on : Bool) (cat : ToolCategory) : List ToolCategory := if on then [cat] else []
    push args.enableSearch .search ++ push args.enableScrape .scrape ++
      push args.enableFetch .fetch ++ push args.enableCrawl .crawl

structure SearchDefaults where
  limit : Nat
  language : Text
  categories : Text
  timeRange : Text
  safeSearch : Nat
  engines : Text
  timeout : Duration

structure ServerConfig where
  host : Text
  httpPort : Nat
  requestTimeout : Duration
  maxRequestBytes : Nat
  maxExtractUrls : Nat
  maxMapUrls : Nat
  authToken : Option Text
  rateLimit : F64
  enabledCategories : List ToolCategory
  tlsCert : Option Text
  tlsKey : Option Text

structure BrowserSettings where
  disabled : Bool
  maxPages : Nat
  navTimeout : Duration
  chromePath : Option Text

structure Config where
  provider : SearchProvider
  apiKey : Option Text
  apiUrl : Option Text
  search : SearchDefaults
  server : ServerConfig
  maxResponseBytes : Nat
  maxRedirects : Nat
  allowPrivateHosts : Bool
  dnsPin : Bool
  browser : BrowserSettings
  toolsList : Value

/-- What `from_args` reads from its surroundings: `num_cpus`, `std::fs::read_to_string` (a file's text or the
    text of the error) and the members of the tool definitions. -/
structure Env where
  cpus : Nat
  readToString : Text → Except Text Text
  toolDetails : Text → List (Text × Value)

namespace Config

/-- The `auth_token` block of `from_args`: the inline token as it is, or else the trimmed token file. -/
def loadAuthToken (env : Env) (args : Args) : Result (Option Text) :=
  match args.authToken with
  | some t => .ok (some t)  -- neither trimmed nor checked for being empty
  | none =>
      match args.authTokenFile with
      | some path =>
          match env.readToString path with
          | .error e =>
              .error (.configError ("failed to read --auth-token-file '" ++ path ++ "': " ++ e))
          | .ok contents =>
              let token := trim contents
              -- fail closed: a misconfigured file must not start the server without authentication
              if token.isEmpty then
                .error (.configError ("--auth-token-file '" ++ path ++
                  "' is empty; refusing to start with authentication disabled"))
              else .ok (some token)
      | none => .ok none

/-- The `Ok` value of `from_args`, once its checks have passed and the token is loaded. -/
def ofArgs (env : Env) (args : Args) (authToken : Option Text) : Config where
  provider := args.searchProvider
  apiKey := args.searchApiKey
  apiUrl := args.searchApiUrl
  search := {
    limit := args.limit
    language := args.language
    categories := args.categories
    timeRange := args.timeRange
    safeSearch := args.safeSearch
    engines := args.engines
    timeout := args.timeout }
  server := {
    host := args.host
    httpPort := args.httpPort
    requestTimeout := Duration.fromSecs args.requestTimeout
    maxRequestBytes := args.maxRequestBytes
    maxExtractUrls := if args.maxExtractUrls > 0 then args.maxExtractUrls else max (env.cpus * 2) 100
    maxMapUrls :=
      if args.maxMapUrls > 0 then args.maxMapUrls else max 1000 (min (env.cpus * 100) 100000)
    authToken := authToken
    rateLimit := args.rateLimit.maxZero
    enabledCategories := args.enabledCategories
    tlsCert := args.tlsCert.filter (!·.isEmpty)
    tlsKey := args.tlsKey.filter (!·.isEmpty) }
  maxResponseBytes := args.maxResponseBytes
  maxRedirects := args.maxRedirects
  allowPrivateHosts := args.allowPrivateHosts
  dnsPin := args.dnsPin
  browser := {
    disabled := args.browserDisable
    maxPages := if args.browserMaxPages > 0 then args.browserMaxPages else max (env.cpus * 2) 4
    navTimeout := args.browserNavTimeoutMs
    chromePath := args.browserPath.filter (!·.isEmpty) }
  toolsList := Tools.buildToolsList env.toolDetails args.enabledCategories

/-- `Config::from_args`. -/
def fromArgs (env : Env) (args : Args) : Result Config :=
  let provider := args.searchProvider
  if provider.requiresApiKey && (args.searchApiKey.getD []).isEmpty then
    .error (.configError ("provider '" ++ provider.asStr ++
      "' requires SEARCH_API_KEY (--search-api-key)"))
  else if provider.needsUrl && args.searchApiUrl.isNone then
    let hint : Text := match provider with
      | .searxng => "SearXNG base URL"
      | .google => "Google Custom Search Engine id"
      | _ => "API URL"
    .error (.configError ("provider '" ++ provider.asStr ++
      "' requires SEARCH_API_URL (--search-api-url) set to the " ++ hint))
  else if (args.tlsCert.filter (!·.isEmpty)).isSome != (args.tlsKey.filter (!·.isEmpty)).isSome then
    .error (.configError
      "--tls-cert and --tls-key must be provided together (or both omitted for plaintext HTTP)")
  -- the token is loaded last, inside the struct literal; no other field can fail
  else (loadAuthToken env args).map (ofArgs env args)

/-- `Config::default`. -/
def default (env : Env) : Config where
  provider := .duckDuckGo
  apiKey := none
  apiUrl := none
  search := {
    limit := 10
    language := "auto"
    categories := "general"
    timeRange := []
    safeSearch := 0
    engines := "all"
    timeout := 10000 }
  server := {
    host := "127.0.0.1"
    httpPort := 3001
    requestTimeout := Duration.fromSecs 30
    maxRequestBytes := 1024 * 1024
    maxExtractUrls := max (env.cpus * 2) 100
    maxMapUrls := max 1000 (min (env.cpus * 100) 100000)
    authToken := none
    rateLimit := .finite 0
    enabledCategories := []
    tlsCert := none
    tlsKey := none }
  maxResponseBytes := 8 * 1024 * 1024
  maxRedirects := 5
  allowPrivateHosts := false
  dnsPin := true
  browser := {
    disabled := false
    maxPages := max (env.cpus * 2) 4
    navTimeout := 30000
    chromePath := none }
  toolsList := Tools.buildToolsList env.toolDetails []

end Config

end McpWebSearch
