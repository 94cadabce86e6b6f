import McpWebSearch.Traffic
import McpWebSearch.Actions.Browser

/-!
# `Handlers` — the tools as the handlers of the dispatcher

`Dispatch` takes what the handlers come to as given. Here it is worked out: each tool of `src/actions/` is run to its end on
what its call meets outside of the code (`Surroundings`), and its value read back as what the dispatcher wraps.
-/

namespace McpWebSearch
namespace Server

open Utf8 Actions Scrape

/-- What a call meets outside of the code. -/
structure Surroundings where
  libs : Libraries
  /-- The network, as each task of the call finds it. -/
  nets : Nat → Net
  chrome : Chrome
  render : Renderers
  /-- Whether the blocking task for a URL of `web_extract` is cancelled. -/
  cancelled : Nat → Bool
  /-- How the futures of a bulk tool get on. -/
  drained : List Drain.Event
  buffered : List Buffered.Move
  pooled : List Buffered.PoolMove
  /-- Whether the request timeout comes before the handler ends. -/
  late : Bool

namespace Surroundings

/-- Does `validate_url` accept candidate `i` in the validation pass of `web_map`? -/
def validated (env : Surroundings) (config : Config) (i : Nat) (u : Text) : Bool :=
  (validateUrl (env.nets (i + 1)) u config.allowPrivateHosts World.initial).1.isOk

/-- What a tool comes to, in a build whose panics unwind; nothing, if its futures are not all done. -/
def run (env : Surroundings) (config : Config) (args : Option Value) : Tool → Option (Result Value)
  | .webSearch => some (webSearch env.libs.api config args []).1
  | .webScrape => some (webScrape (env.nets 0) env.libs.scrape config args World.initial).1
  | .webMap =>
      match (webMap (env.nets 0) env.libs.docs config env.libs.cpus (env.validated config) env.buffered args World.initial).1 with
      | .ok out => out.map .ok
      | .error e => some (.error e)
  | .webExtract =>
      (webExtract .unwind env.nets env.libs.scrape env.cancelled env.libs.cpus config args env.pooled).bind Ended.value?
  | .webFetch => some (webFetch (env.nets 0) env.libs.scrape config args World.initial).1
  | .webFetchText => some (webFetchText (env.nets 0) env.libs.scrape config args World.initial).1
  | .webFetchHeaders => some (webFetchHeaders (env.nets 0) config args World.initial).1
  | .webSearchScrape => webSearchScrape (scrapeEnv env.libs env.nets config) config args env.drained
  | .webSitemap => some (webSitemap (env.nets 0) env.libs.docs config args World.initial).1
  | .webCheckLinks => webCheckLinks env.nets env.libs.cpus config args env.drained
  | .browserScrape =>
      some (browserScrape (env.nets 0) env.chrome env.libs.docs env.render config args (.start World.initial)).1
  | .browserScreenshot =>
      some (browserScreenshot (env.nets 0) env.chrome env.render config args (.start World.initial)).1

/-- The same under the request timeout. -/
def outcome (env : Surroundings) (config : Config) (args : Option Value) (tool : Tool) : Timeout (Result Value) :=
  if env.late then .elapsed
  else
    match env.run config args tool with
    | some r => .done r
    | none => .elapsed  -- still under way

end Surroundings

/-! ## Reading values back -/

/-- The blocks of a tool's content. -/
def contentItems (value : Value) : List Value := ((value.get "content").bind Value.asArray).getD []

/-- A string member of a block, or nothing. -/
def memberText (block : Value) (key : Text) : Text := ((block.get key).bind Value.asStr).getD []

/-- The text of a value that `text_content` has made. -/
def contentText (value : Value) : Text := ((contentItems value).head?.map (memberText · "text")).getD []

/-- The image of a value that `browser_screenshot` has made. -/
def contentData (value : Value) : Text := ((contentItems value).head?.map (memberText · "data")).getD []

/-- A block that `browser_scrape` has made. -/
def contentBlock (block : Value) : ContentBlock :=
  if memberText block "type" = "image" then .png (memberText block "data") else .text (memberText block "text")

/-- Read the `Ok` value of an outcome. -/
def Timeout.read {α : Type} (f : Value → α) : Timeout (Result Value) → Timeout (Result α)
  | .done r => .done (r.map f)
  | .elapsed => .elapsed

/-- The handlers of `handle_tools_call`, as the tools of the code. -/
def Surroundings.handlers (env : Surroundings) (config : Config) : Handlers where
  webSearch args := (env.outcome config args .webSearch).read contentText
  webScrape args := (env.outcome config args .webScrape).read contentText
  webMap args := (env.outcome config args .webMap).read contentText
  webExtract args := (env.outcome config args .webExtract).read contentText
  webFetch args := (env.outcome config args .webFetch).read contentText
  webFetchText args := (env.outcome config args .webFetchText).read contentText
  webFetchHeaders args := (env.outcome config args .webFetchHeaders).read contentText
  webSearchScrape args := (env.outcome config args .webSearchScrape).read contentText
  webSitemap args := (env.outcome config args .webSitemap).read contentText
  webCheckLinks args := (env.outcome config args .webCheckLinks).read contentText
  browserScrape args := (env.outcome config args .browserScrape).read fun value => (contentItems value).map contentBlock
  browserScreenshot args := (env.outcome config args .browserScreenshot).read contentData

/-- `process_request` with these handlers. -/
def Surroundings.process (env : Surroundings) (config : Config) : Process := requestProcess (env.handlers config) config

end Server
end McpWebSearch
