import McpWebSearch.Actions.Scrape.Text
import McpWebSearch.Actions.Scrape.WebScrape

/-!
# `Actions.Scrape.WebFetch` — `web_fetch` and `web_fetch_text` (`src/actions/scrape.rs`)

One fetch and one conversion of the whole body, to markdown or to plain text, in a blocking task.
-/

namespace McpWebSearch
namespace Scrape

open Utf8

/-- Both tools: they differ in the conversion. -/
def fetchAs (convert : Html → Except Panic Text) (net : Net) (lib : ScrapeLib) (config : Config) (args : Option Value) :
    NetM Value := do
  let url ← Prog.ofExcept (getStrArg args "url")
  let page ← fetchPage net config url
  match convert (lib.parseDocument page.body) with
  | .error p => Prog.fail (.providerError ("parse task failed: " ++ lib.joinError (.conversion p)))
  | .ok text => return textContent (if text.isEmpty then "No content found" else text)

/-- `web_fetch`, with `dom_to_markdown`. -/
def webFetch (net : Net) (lib : ScrapeLib) (config : Config) (args : Option Value) : NetM Value :=
  fetchAs (fun doc => domToMarkdownDoc lib.collapse doc.root) net lib config args

/-- `web_fetch_text`, with `html_to_text`. -/
def webFetchText (net : Net) (lib : ScrapeLib) (config : Config) (args : Option Value) : NetM Value :=
  fetchAs (fun doc => htmlToText lib.collapse doc.root) net lib config args

end Scrape
end McpWebSearch
