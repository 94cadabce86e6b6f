import McpWebSearch.Lib.Utf8
import McpWebSearch.Lib.Text
import McpWebSearch.Lib.Firsts
import McpWebSearch.Lib.Machine
import McpWebSearch.Lib.Framing
import McpWebSearch.Json
import McpWebSearch.Protocol
import McpWebSearch.Tools
import McpWebSearch.Config
import McpWebSearch.Server
import McpWebSearch.Ratelimit
import McpWebSearch.Http
import McpWebSearch.Browser
import McpWebSearch.Correctness.Browser
import McpWebSearch.Correctness.ReadLine
import McpWebSearch.Correctness.Stdio
import McpWebSearch.Correctness.Http
import McpWebSearch.Validation
import McpWebSearch.Client
import McpWebSearch.Actions.Fetch
import McpWebSearch.Correctness.Client
import McpWebSearch.Correctness.Validation
import McpWebSearch.Actions.Search
import McpWebSearch.Correctness.Search
import McpWebSearch.Actions.Scrape.Collapse
import McpWebSearch.Correctness.Collapse
import McpWebSearch.Actions.Scrape.Markdown
import McpWebSearch.Correctness.Markdown
import McpWebSearch.Lib.Meter
import McpWebSearch.Correctness.Ratelimit
import McpWebSearch.Correctness.Pinning
import McpWebSearch.Correctness.Answers
import McpWebSearch.Correctness.Messages
import McpWebSearch.Providers.DuckDuckGo
import McpWebSearch.Correctness.DuckDuckGo
import McpWebSearch.Dispatch
import McpWebSearch.Correctness.Dispatch
import McpWebSearch.Lib.Xml
import McpWebSearch.Actions.Map
import McpWebSearch.Correctness.Sitemap
import McpWebSearch.Lib.History
import McpWebSearch.Correctness.Locs
import McpWebSearch.Correctness.Map
import McpWebSearch.Lib.Buffered
import McpWebSearch.Correctness.Verdict
import McpWebSearch.Actions.Browser
import McpWebSearch.Correctness.Navigation
import McpWebSearch.Correctness.VisibleText
import McpWebSearch.Correctness.Public
import McpWebSearch.Correctness.Token
import McpWebSearch.Actions.Scrape.WebScrape
import McpWebSearch.Correctness.Redirects
import McpWebSearch.Actions.Extract
import McpWebSearch.Correctness.Bulk
import McpWebSearch.Correctness.WebScrape
import McpWebSearch.Correctness.InlineText
import McpWebSearch.Correctness.Neon
import McpWebSearch.Correctness.Layout
import McpWebSearch.Correctness.Scanner
import McpWebSearch.Correctness.BlockMarkers
import McpWebSearch.Correctness.BlockText
import McpWebSearch.Lib.Seek
import McpWebSearch.Correctness.ListItems
import McpWebSearch.Lib.Fences
import McpWebSearch.Correctness.Preformatted
import McpWebSearch.Correctness.Spellings
import McpWebSearch.Actions.Scrape.Text
import McpWebSearch.Correctness.PlainText
import McpWebSearch.Actions.Scrape.Counters
import McpWebSearch.Lib.Runs
import McpWebSearch.Lib.Inserted
import McpWebSearch.Correctness.Cleanup
import McpWebSearch.Correctness.Scoping
import McpWebSearch.Providers.Backends
import McpWebSearch.Providers.Types
import McpWebSearch.Actions.WebSearch
import McpWebSearch.Correctness.Providers
import McpWebSearch.Lib.Interleave
import McpWebSearch.Actions.Scrape.WebFetch
import McpWebSearch.Traffic
import McpWebSearch.Correctness.Budget
import McpWebSearch.Correctness.Traffic
import McpWebSearch.Correctness.Pages
import McpWebSearch.Correctness.InFlight
import McpWebSearch.Correctness.PagePool
import McpWebSearch.Correctness.Session
import McpWebSearch.Correctness.Endpoint
import McpWebSearch.Correctness.Rendering
import McpWebSearch.Correctness.Targets
import McpWebSearch.Correctness.Growth
import McpWebSearch.Handlers
import McpWebSearch.Correctness.Internal
import McpWebSearch.Correctness.Handlers
