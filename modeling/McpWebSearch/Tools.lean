import McpWebSearch.Json

/-!
# `Tools` — the tool table and its categories (`src/tools.rs`)

`tools.json` is a list of definitions, kept apart from `ALL_TOOLS`. Only the name of a definition is read; its
other members (description, schema, annotations) are served as they are, and stand here as the parameter
`details`.
-/

namespace McpWebSearch

open Utf8

/-- Capability groups, enabled one by one at startup. -/
inductive ToolCategory
  | search
  | scrape
  | fetch
  | crawl
  deriving DecidableEq

/-- `ToolCategory::ALL`. -/
def ToolCategory.all : List ToolCategory := [.search, .scrape, .fetch, .crawl]

namespace Tools

/-- `ToolMeta`; its behaviour flags (`write`, `idempotent`, `destructive`) are the same for every tool. -/
structure ToolMeta where
  name : Text
  category : ToolCategory
  deriving DecidableEq

/-- `ALL_TOOLS`. -/
def allTools : List ToolMeta :=
  [⟨"web_search", .search⟩,
   ⟨"web_scrape", .scrape⟩,
   ⟨"web_map", .crawl⟩,
   ⟨"web_extract", .scrape⟩,
   ⟨"web_fetch", .fetch⟩,
   ⟨"web_fetch_text", .fetch⟩,
   ⟨"web_fetch_headers", .fetch⟩,
   ⟨"web_search_scrape", .search⟩,
   ⟨"web_sitemap", .crawl⟩,
   ⟨"web_check_links", .crawl⟩,
   ⟨"browser_scrape", .scrape⟩,
   ⟨"browser_screenshot", .scrape⟩]

/-- The `name` members of `tools.json`. -/
def toolsJson : List Text :=
  ["web_search", "web_scrape", "web_map", "web_extract", "web_fetch", "web_fetch_text",
   "web_fetch_headers", "web_search_scrape", "web_sitemap", "web_check_links", "browser_scrape",
   "browser_screenshot"]

/-- `ALL_TOOL_DEFS`: the definitions of `tools.json`. -/
def allToolDefs (details : Text → List (Text × Value)) : List Value :=
  toolsJson.map (fun name => .object (("name", .string name) :: details name))

def lookup (name : Text) : Option ToolMeta := allTools.find? (·.name = name)

def categoryOf (name : Text) : Option ToolCategory := (lookup name).map ToolMeta.category

/-- A tool is available if it exists and its category is enabled. -/
def isToolAvailable (name : Text) (enabled : List ToolCategory) : Bool :=
  (categoryOf name).any (fun c => enabled.contains c)

/-- `build_tools_list`: the `tools/list` payload, filtered to the enabled categories. -/
def buildToolsList (details : Text → List (Text × Value)) (enabled : List ToolCategory) : Value :=
  .object [("tools", .array ((allToolDefs details).filter
    (fun t => ((t.get "name").bind Value.asStr).any (fun name => isToolAvailable name enabled))))]

end Tools

end McpWebSearch
