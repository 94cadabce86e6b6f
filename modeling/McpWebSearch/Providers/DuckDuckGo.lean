import McpWebSearch.Actions.Search

/-!
# `Providers.DuckDuckGo` — the results of the HTML endpoint (`src/providers/duckduckgo.rs`)

`parse_results` takes the results off a page, `decode_redirect` the target out of a result link. What the CSS selectors
find on the page is the input of the first, and `Url::parse` with `query_pairs` are those of the `url` crate.
-/

namespace McpWebSearch
namespace DuckDuckGo

open Utf8 Actions

/-- The URL parser with `Url::query_pairs`: the decoded pairs of the query. -/
structure QueryParser extends UrlParser where
  queryPairs : Url → List (Text × Text)

/-- A result as the selectors find it: the text and the `href` of its first `a.result__a`, and the text of its first
    `a.result__snippet`. -/
structure ResultNode where
  link : Option (Text × Option Text)
  snippet : Option Text

/-- The link with a scheme, if it begins with `//`. -/
def absoluteHref (href : Text) : Text :=
  match stripPrefix "//" href with
  | some stripped => "https://" ++ stripped
  | none => href

/-- The first `uddg` parameter of a URL, if it parses. -/
def uddg (urls : QueryParser) (absolute : Text) : Option Text :=
  match urls.parse absolute with
  | .ok parsed => (urls.queryPairs parsed).lookup "uddg".toList
  | .error _ => none

/-- `decode_redirect`. -/
def decodeRedirect (urls : QueryParser) (href : Text) : Text :=
  match uddg urls (absoluteHref href) with
  -- whatever the parameter says
  | some val => val
  | none => if "http".toList.isPrefixOf (absoluteHref href) then absoluteHref href else []

/-- What the loop of `parse_results` makes of a node: nothing without a link, or with an empty URL. -/
def parseResult (urls : QueryParser) (node : ResultNode) : Option SearchResult :=
  match node.link with
  | none => none
  | some (text, href) =>
      let url := decodeRedirect urls (href.getD [])
      if url.isEmpty then none
      else some { title := trim text, url := url, snippet := (node.snippet.map trim).getD [] }

/-- The loop of `parse_results`. -/
def parseLoop (urls : QueryParser) (limit : Nat) (out : List SearchResult) : List ResultNode → List SearchResult
  | [] => out
  | node :: nodes =>
      if out.length ≥ limit then out
      else
        match parseResult urls node with
        | none => parseLoop urls limit out nodes
        | some r => parseLoop urls limit (out ++ [r]) nodes

/-- `parse_results`, on the nodes that match `div.result`. -/
def parseResults (urls : QueryParser) (nodes : List ResultNode) (limit : Nat) : List SearchResult :=
  parseLoop urls limit [] nodes

end DuckDuckGo
end McpWebSearch
