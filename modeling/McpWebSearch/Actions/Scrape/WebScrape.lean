import McpWebSearch.Client
import McpWebSearch.Actions.Scrape.Links
import McpWebSearch.Actions.Scrape.Markdown

/-!
# `Actions.Scrape.WebScrape` — `web_scrape` (`src/actions/scrape.rs`)

One fetch, at most one parse, and a section of text for each requested format. The body is moved into the last section
that wants all of it, and cloned for earlier ones. What is outside the crate is `ScrapeLib`: the HTML parser, the collapser of
the target, and how a panic of the blocking task is reported in a build whose panics unwind (see `Actions.Extract`).
-/

namespace McpWebSearch

open Utf8 Dom

namespace Scrape

/-- A `scraper::Html`, as far as the code looks at it: the children of the root, the first match of
    `main, article, [role=main]` with its serialization, and the `href` attributes of the `a[href]` elements. -/
structure Html where
  root : List Node
  main : Option (Node × Text)
  hrefs : List Text

/-- How the blocking task panics. -/
inductive TaskPanic
  | expect (msg : Text)
  | unreachable
  | conversion (p : Panic)
  deriving DecidableEq

structure ScrapeLib where
  parseDocument : Text → Html
  collapse : Text → Except Panic Text
  joinError : TaskPanic → Text

/-! ## Over a parsed document -/

/-- `main_to_markdown_doc`; its capacity hint, like that of `dom_to_markdown_doc`, has no effect on the text. -/
def mainToMarkdownDoc (collapse : Text → Except Panic Text) (doc : Html) : Except Panic Text := do
  let st ← match doc.main with
    | some (main, _) => walkElement collapse main { md := [], listDepth := 0 }
    | none => walkElements collapse doc.root { md := [], listDepth := 0 }
  cleanupMd st.md

/-- `extract_main_doc`. -/
def extractMainDoc (doc : Html) (fallback : Text) : Text :=
  match doc.main with
  | some (_, html) => html
  | none => fallback

/-- `collect_links_doc`. -/
def collectLinksDoc (urls : UrlParser) (doc : Html) (base : Url) : List Text :=
  doc.hrefs.foldl (Actions.pushLink urls base) []

/-! ## Formats -/

/-- One round of the validation of the formats. -/
def checkFormat (fmt : Text) : Result Unit :=
  if oneOf fmt ["markdown", "extract", "html", "rawHtml", "links"] then .ok ()
  else if oneOf fmt ["screenshot", "screenshot@fullPage"] then
    .error (.invalidParams "screenshot formats require a browser and are not supported")
  else .error (.invalidParams ("unknown format '" ++ fmt ++ "'"))

/-- The validation of the formats, before any IO. -/
def checkFormats : List Text → Result Unit
  | [] => .ok ()
  | fmt :: fmts =>
      match checkFormat fmt with
      | .error e => .error e
      | .ok () => checkFormats fmts

/-- `Iterator::rposition`: the position of the last element that satisfies `p`. -/
def rposition {α : Type} (p : α → Bool) : List α → Option Nat
  | [] => none
  | x :: xs =>
      match rposition p xs with
      | some i => some (i + 1)
      | none => if p x then some 0 else none

section Task

variable (lib : ScrapeLib) (urls : UrlParser) (formats : List Text) (onlyMain : Bool) (body : Text) (finalUrl : Url)

/-- Whether some format reads the parsed document. -/
def needsDom : Bool :=
  formats.any fun f => oneOf f ["markdown", "extract", "links"] || (oneOf f ["html"] && onlyMain)

/-- Whether a format emits the original body. -/
def isRawPassthrough (f : Text) : Bool := oneOf f ["rawHtml"] || (oneOf f ["html"] && !onlyMain)

/-- The position of the section that the body is moved into. -/
def lastRaw : Option Nat :=
  -- as a fallback for "html" with only the main content, the body must stay
  let needsBodyBorrow := onlyMain && formats.any fun f => oneOf f ["html"]
  if needsBodyBorrow then none else rposition (isRawPassthrough onlyMain) formats

/-- `doc.as_ref().expect("dom parsed")`. -/
def expectDoc (doc : Option Html) : Except TaskPanic Html :=
  match doc with
  | some doc => .ok doc
  | none => .error (.expect "dom parsed")

/-- One round of the loop over the formats: the section, and what is left of the body. -/
def scrapeSection (doc : Option Html) (last : Option Nat) (idx : Nat) (fmt : Text) (bodyOpt : Option Text) :
    Except TaskPanic (Text × Option Text) :=
  if oneOf fmt ["markdown", "extract"] then do
    let doc ← expectDoc doc
    let md ← (if onlyMain then mainToMarkdownDoc lib.collapse doc else domToMarkdownDoc lib.collapse doc.root).mapError
      TaskPanic.conversion
    pure (md, bodyOpt)
  else if oneOf fmt ["html"] && onlyMain then do
    let doc ← expectDoc doc
    pure (extractMainDoc doc (bodyOpt.getD []), bodyOpt)
  else if oneOf fmt ["html", "rawHtml"] then
    -- `take` for the last of them, a clone for the others
    if some idx = last then pure (bodyOpt.getD [], none) else pure (bodyOpt.getD [], bodyOpt)
  else if oneOf fmt ["links"] then do
    let doc ← expectDoc doc
    pure (join "\n" (collectLinksDoc urls doc finalUrl), bodyOpt)
  else .error .unreachable

/-- The loop over the formats, from position `idx`. -/
def scrapeLoop (doc : Option Html) (last : Option Nat) :
    Nat → List Text → Option Text → List Text → Except TaskPanic (List Text)
  | _, [], _, sections => pure sections
  | idx, fmt :: fmts, bodyOpt, sections => do
      let (s, bodyOpt) ← scrapeSection lib urls onlyMain finalUrl doc last idx fmt bodyOpt
      scrapeLoop doc last (idx + 1) fmts bodyOpt (sections ++ [s])

/-- The sections of the blocking task. -/
def scrapeSections : Except TaskPanic (List Text) :=
  let doc := if needsDom formats onlyMain then some (lib.parseDocument body) else none
  scrapeLoop lib urls onlyMain finalUrl doc (lastRaw formats onlyMain) 0 formats (some body) []

end Task

/-- `web_scrape`. -/
def webScrape (net : Net) (lib : ScrapeLib) (config : Config) (args : Option Value) : NetM Value := do
  let url ← Prog.ofExcept (getStrArg args "url")
  let formats := (getStrArray args "formats").getD ["markdown"]
  let onlyMain := (getOptBool args "onlyMainContent").getD false
  Prog.ofExcept (checkFormats formats)
  let page ← fetchPage net config url
  match scrapeSections lib net.urls formats onlyMain page.body page.finalUrl with
  | .error p => Prog.fail (.providerError ("parse task failed: " ++ lib.joinError p))
  | .ok sections =>
      let text := join "\n\n" sections
      return textContent (if text.isEmpty then "No content found" else text)

end Scrape
end McpWebSearch
