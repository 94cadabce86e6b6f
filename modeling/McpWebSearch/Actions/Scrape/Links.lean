import McpWebSearch.Validation
import McpWebSearch.Lib.Casing
import McpWebSearch.Lib.Xml

/-!
# `Actions.Scrape.Links` — documents, and the links of a page

What the code uses of its libraries on a fetched body and on a URL is `Documents`: `quick_xml` for sitemaps,
`scraper` for the `a[href]` elements of a page, some accessors of `url`, and the case data of the standard library.
`collect_links` is that of `src/actions/scrape.rs`.
-/

namespace McpWebSearch

open Utf8

structure Documents where
  /-- The events of `quick_xml::Reader` with `trim_text(true)`, up to the end or the first error. -/
  events : Text → List Xml.Event
  /-- The `href` attributes of the `a[href]` elements of a page, in document order. -/
  hrefs : Text → List Text
  /-- `Url::host_str`. -/
  hostStr : Url → Option Text
  /-- `Url::origin().ascii_serialization()`. -/
  origin : Url → Text
  /-- The Unicode tables behind `str::to_lowercase`. -/
  caseData : CaseData

/-- `str::to_lowercase`. -/
def Documents.toLowercase (docs : Documents) (s : Text) : Text := docs.caseData.toLowercase s

namespace Actions

/-- One round of the loop of `collect_links_doc`, on the links pushed so far; `seen` holds the same strings. -/
def pushLink (urls : UrlParser) (base : Url) (out : List Text) (href : Text) : List Text :=
  match urls.join base href with
  | .error _ => out
  | .ok abs => if out.contains abs.asStr then out else out ++ [abs.asStr]

/-- `collect_links`. -/
def collectLinks (docs : Documents) (urls : UrlParser) (html : Text) (base : Url) : List Text :=
  (docs.hrefs html).foldl (pushLink urls base) []

end Actions
end McpWebSearch
