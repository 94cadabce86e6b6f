import McpWebSearch.Server

/-!
# `Dispatch` — `process_request` and the tools (`src/server.rs`)

The methods a request may name, and the dispatch of `tools/call`: name, category gate, handler table, and the
wrapping of what the handler comes to. The handlers stand here as `Handlers`, by what they compute before
they wrap it, so that any outcome of any handler is one value of it. Besides its outcome a request has the list
of handlers it ran.
-/

namespace McpWebSearch
namespace Server

open Utf8

/-! ## `initialize` -/

/-- Newest first. -/
def supportedProtocolVersions : List Text := ["2025-11-25", "2025-06-18", "2025-03-26", "2024-11-05"]

def latestProtocolVersion : Text := "2025-11-25"

/-- `CARGO_PKG_VERSION`. -/
def packageVersion : Text := "2.3.0"

def serverInstructions : Text :=
  "Web search and fetch MCP server. Use `web_search` to find pages (results are ranked by relevance) and " ++
  "`web_scrape`/`web_fetch` for full page content as markdown. These tools reach the live internet. Tool " ++
  "failures (provider errors, timeouts, HTTP 429) are returned with `isError: true` rather than as protocol " ++
  "errors — read the message and, for rate limits, back off and retry."

def handleInitialize (req : JsonRpcRequest) : Result Value :=
  let requested := (req.params.bind (·.get "protocolVersion")).bind Value.asStr
  let protocolVersion :=
    (requested.filter (supportedProtocolVersions.contains ·)).getD latestProtocolVersion
  .ok (.object [("protocolVersion", .string protocolVersion),
    ("capabilities", .object [("tools", .object [("listChanged", .bool false)]), ("logging", .object [])]),
    ("serverInfo", .object [("name", .string "mcp-web-search"), ("version", .string packageVersion)]),
    ("instructions", .string serverInstructions)])

/-! ## The handlers -/

/-- The handlers of `src/actions/`. -/
inductive Tool
  | webSearch
  | webScrape
  | webMap
  | webExtract
  | webFetch
  | webFetchText
  | webFetchHeaders
  | webSearchScrape
  | webSitemap
  | webCheckLinks
  | browserScrape
  | browserScreenshot
  deriving DecidableEq

/-- The `match` of `handle_tools_call`. -/
def toolTable : List (Text × Tool) :=
  [("web_search", .webSearch),
   ("web_scrape", .webScrape),
   ("web_map", .webMap),
   ("web_extract", .webExtract),
   ("web_fetch", .webFetch),
   ("web_fetch_text", .webFetchText),
   ("web_fetch_headers", .webFetchHeaders),
   ("web_search_scrape", .webSearchScrape),
   ("web_sitemap", .webSitemap),
   ("web_check_links", .webCheckLinks),
   ("browser_scrape", .browserScrape),
   ("browser_screenshot", .browserScreenshot)]

/-- What the handlers come to on their arguments, before the `Ok` value is wrapped as tool content; each may
    be cut off by the request timeout. -/
structure Handlers where
  webSearch : Option Value → Timeout (Result Text)
  webScrape : Option Value → Timeout (Result Text)
  webMap : Option Value → Timeout (Result Text)
  webExtract : Option Value → Timeout (Result Text)
  webFetch : Option Value → Timeout (Result Text)
  webFetchText : Option Value → Timeout (Result Text)
  webFetchHeaders : Option Value → Timeout (Result Text)
  webSearchScrape : Option Value → Timeout (Result Text)
  webSitemap : Option Value → Timeout (Result Text)
  webCheckLinks : Option Value → Timeout (Result Text)
  browserScrape : Option Value → Timeout (Result (List ContentBlock))
  browserScreenshot : Option Value → Timeout (Result Text)

/-- Wrap the `Ok` value of an outcome. -/
def Timeout.wrap {α : Type} (f : α → Value) : Timeout (Result α) → Timeout (Result Value)
  | .done r => .done (r.map f)
  | .elapsed => .elapsed

/-- A handler call, with its `Ok` value as the handler returns it. -/
def Handlers.call (h : Handlers) (args : Option Value) : Tool → Timeout (Result Value)
  | .webSearch => (h.webSearch args).wrap textContent
  | .webScrape => (h.webScrape args).wrap textContent
  | .webMap => (h.webMap args).wrap textContent
  | .webExtract => (h.webExtract args).wrap textContent
  | .webFetch => (h.webFetch args).wrap textContent
  | .webFetchText => (h.webFetchText args).wrap textContent
  | .webFetchHeaders => (h.webFetchHeaders args).wrap textContent
  | .webSearchScrape => (h.webSearchScrape args).wrap textContent
  | .webSitemap => (h.webSitemap args).wrap textContent
  | .webCheckLinks => (h.webCheckLinks args).wrap textContent
  | .browserScrape => (h.browserScrape args).wrap scrapeContent
  | .browserScreenshot => (h.browserScreenshot args).wrap screenshotContent

/-! ## Requests -/

def handleToolsList (config : Config) : Result Value := .ok config.toolsList

/-- The success branch of the result wrapper: content without an `isError` gets `isError: false`. -/
def markSuccess (value : Value) : Value :=
  if (value.get "content").isSome && (value.get "isError").isNone then value.set "isError" (.bool false)
  else value

/-- The `match` on the result at the end of `handle_tools_call`. -/
def wrapResult : Timeout (Result Value) → Timeout (Result Value)
  | .done (.ok value) => .done (.ok (markSuccess value))
  | .done (.error e) => .done (.ok (toolError e.display))
  | .elapsed => .elapsed  -- the call is dropped where it stands

/-- The tool a `tools/call` names. -/
def callName (req : JsonRpcRequest) : Option Text :=
  req.params.bind (fun p => (p.get "name").bind Value.asStr)

/-- The arguments of a `tools/call`. -/
def callArgs (req : JsonRpcRequest) : Option Value := req.params.bind (·.get "arguments")

/-- `handle_tools_call`. -/
def handleToolsCall (h : Handlers) (config : Config) (req : JsonRpcRequest) :
    Timeout (Result Value) × List Tool :=
  match callName req with
  | none => (.done (.error (.invalidParams "Missing 'name' parameter")), [])
  | some toolName =>
      -- a tool of a disabled category is as unknown as one that does not exist
      if !Tools.isToolAvailable toolName config.server.enabledCategories then
        (.done (.error (.methodNotFound toolName)), [])
      else
        match toolTable.lookup toolName with
        | some tool => (wrapResult (h.call (callArgs req) tool), [tool])
        | none => (wrapResult (.done (.error (.methodNotFound toolName))), [])

/-- `process_request`. -/
def processRequest (h : Handlers) (config : Config) (req : JsonRpcRequest) :
    Timeout (Result Value) × List Tool :=
  if req.method = "initialize" then (.done (handleInitialize req), [])
  else if req.method = "tools/list" then (.done (handleToolsList config), [])
  else if req.method = "tools/call" then handleToolsCall h config req
  else if req.method = "logging/setLevel" then (.done (.ok (.object [])), [])
  else if req.method = "ping" then (.done (.ok .null), [])
  else if ("notifications/" : Text).isPrefixOf req.method then (.done (.ok .null), [])
  else (.done (.error (.methodNotFound req.method)), [])

/-- `process_request` as the two transports use it. -/
def requestProcess (h : Handlers) (config : Config) : Process := fun req => (processRequest h config req).1

end Server
end McpWebSearch
