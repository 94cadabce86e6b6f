import McpWebSearch.Client
import McpWebSearch.Actions.Scrape.Links

/-!
# `Actions.Browser` — the browser tools (`src/actions/browser.rs`)

`browser_scrape` and `browser_screenshot`: validate a URL, have Chrome navigate to it, and return what the tab then
shows. Chrome resolves names and follows redirects itself, and a loaded page may go on to other URLs at any
time, so what the tab shows is the choice of Chrome and the sites, renewed at each operation on the page.

The page pool is the machine of `Browser`; here a page is acquired or not, and closing one has no effect.

## Contents
- `Chrome`: what is outside the process.
- `Session`: a call, with the documents whose content it returns on record.
- `browserScrape` / `browserScreenshot`.
-/

namespace McpWebSearch

open Utf8

namespace Actions

/-! ## Chrome -/

/-- An operation on the page. -/
inductive PageOp
  | goto (url : Url)
  | evaluate (js : Text)
  | findElement (selector : Text) (timeoutMs : Nat)
  | content
  | screenshot (captureBeyondViewport : Option Bool)

/-- How `timeout(nav_timeout, page.goto(url))` ends. -/
inductive Navigation
  | elapsed
  | failed (e : Text)
  | loaded

/-- Chrome and the sites. What they do may depend on all the operations on the page so far, the present one
    included. -/
structure Chrome where
  acquirePage : Result Unit
  goto : Url → Navigation
  /-- The URLs the tab has gone to after the one it was asked for: by redirects, and by what its pages do. -/
  followed : List PageOp → List Url
  /-- The address a URL was reached at. -/
  reach : List PageOp → Url → IpAddr
  content : List PageOp → Except Text Text
  screenshot : List PageOp → Except Text (List UInt8)

/-- What a tab shows: a URL, reached at an address. -/
structure Document where
  url : Url
  ip : IpAddr
  deriving DecidableEq

/-- The document in the tab after these operations, the first of which was to go to `asked`. -/
def Chrome.document (chrome : Chrome) (asked : Url) (ops : List PageOp) : Document :=
  let url := (chrome.followed ops).getLast?.getD asked
  ⟨url, chrome.reach ops url⟩

/-! ## Sessions -/

/-- The state of a call: the world of `validate_url`, the operations on its page, and the documents whose content
    is in its result. -/
structure Session where
  world : World
  ops : List PageOp
  returned : List Document

/-- The session of a call that has done nothing yet. -/
def Session.start (w : World) : Session := ⟨w, [], []⟩

abbrev BrowserM := Prog Session WebSearchError

/-- `validate_url`, in a session. -/
def validateAsked (net : Net) (config : Config) (raw : Text) : BrowserM Url :=
  Prog.onPart Session.world (fun w s => { s with world := w }) (validateUrl net raw config.allowPrivateHosts)

/-- An operation on the page; the operations so far. -/
def operate (op : PageOp) : BrowserM (List PageOp) := do
  Prog.change (fun s => { s with ops := s.ops ++ [op] })
  Prog.observe Session.ops

/-- Put content of a document into the result. -/
def giveBack (doc : Option Document) : BrowserM Unit :=
  Prog.change (fun s => { s with returned := s.returned ++ doc.toList })

/-- `page.content().await.unwrap_or_default()`, with the document it is of. -/
def pageContent (chrome : Chrome) (asked : Url) : BrowserM (Option Document × Text) := do
  let ops ← operate .content
  match chrome.content ops with
  | .error _ => return (none, [])
  | .ok html => return (some (chrome.document asked ops), html)

/-- `page.screenshot(params).await`, with the document it is of. -/
def pageScreenshot (chrome : Chrome) (asked : Url) (beyond : Option Bool) :
    BrowserM (Except Text (Document × List UInt8)) := do
  let ops ← operate (.screenshot beyond)
  return (chrome.screenshot ops).map (fun bytes => (chrome.document asked ops, bytes))

/-- Navigate with the pool's nav timeout. -/
def navigate (chrome : Chrome) (config : Config) (url : Url) : BrowserM Unit := do
  let _ ← operate (.goto url)
  match chrome.goto url with
  | .elapsed =>
      Prog.fail (.timeout ("browser navigation to " ++ url.asStr ++ " timed out after " ++
        decimal (config.browser.navTimeout / 1000) ++ "s"))
  | .failed e => Prog.fail (.httpError ("browser navigation to " ++ url.asStr ++ " failed: " ++ e))
  | .loaded => return ()

/-- An operation whose outcome is ignored. -/
def perform (op : PageOp) : BrowserM Unit := do
  let _ ← operate op
  return ()

/-- Scroll, to trigger lazy-loaded content. -/
def scrollPage (args : Option Value) : BrowserM Unit :=
  if (getOptBool args "scrollToBottom").getD false then
    perform (.evaluate "window.scrollTo(0, document.body.scrollHeight)")
  else return ()

/-- Wait for a CSS selector. -/
def waitForSelector (args : Option Value) : BrowserM Unit :=
  match getOptStr args "waitFor" with
  | some selector => perform (.findElement selector ((getOptUsize args "waitTimeoutMs").getD 5000))
  | none => return ()

/-- Evaluate the caller's script. -/
def evaluateScript (args : Option Value) : BrowserM Unit :=
  match getOptStr args "javascript" with
  | some js => perform (.evaluate js)
  | none => return ()

/-- The error of `get_pool` returning `None`. -/
def browserDisabled : WebSearchError :=
  .configError "Headless browser is disabled. Install Chrome/Chromium or use web_scrape for static pages."

/-- What the two tools do first, as far as it is on the network: the page they then acquire is Chrome's. -/
def browserCheck (net : Net) (config : Config) (args : Option Value) : NetM Unit :=
  if config.browser.disabled then Prog.fail browserDisabled
  else do
    let raw ← Prog.ofExcept (getStrArg args "url")
    (validateUrl net raw config.allowPrivateHosts).discard

/-! ## `browser_scrape` -/

/-- How page content is put into text: `dom_to_markdown`, `main_to_markdown` and `BASE64.encode`. -/
structure Renderers where
  domToMarkdown : Text → Text
  mainToMarkdown : Text → Text
  base64 : List UInt8 → Text

/-- The blocks of one format. -/
def formatBlocks (net : Net) (chrome : Chrome) (docs : Documents) (render : Renderers) (asked : Url)
    (onlyMain : Bool) (fmt : Text) : BrowserM (List ContentBlock) :=
  if fmt = "rawHtml" ∨ fmt = "html" then do
    let (doc, html) ← pageContent chrome asked
    giveBack doc
    return [.text html]
  else if fmt = "links" then do
    let (doc, html) ← pageContent chrome asked
    match net.urls.parse asked.asStr with
    | .error _ => return []
    | .ok base => do
        giveBack doc
        return [.text (join "\n" (collectLinks docs net.urls html base))]
  else if fmt = "screenshot" then do
    match ← pageScreenshot chrome asked none with
    | .error _ => return []
    | .ok (doc, bytes) => do
        giveBack doc
        return [.png (render.base64 bytes)]
  else do
    let (doc, html) ← pageContent chrome asked
    giveBack doc
    return [.text (if onlyMain then render.mainToMarkdown html else render.domToMarkdown html)]

/-- The loop over the formats. -/
def scrapeBlocks (net : Net) (chrome : Chrome) (docs : Documents) (render : Renderers) (asked : Url)
    (onlyMain : Bool) : List Text → BrowserM (List ContentBlock)
  | [] => return []
  | fmt :: formats => do
      let block ← formatBlocks net chrome docs render asked onlyMain fmt
      let blocks ← scrapeBlocks net chrome docs render asked onlyMain formats
      return block ++ blocks

/-- `browser_scrape`. -/
def browserScrape (net : Net) (chrome : Chrome) (docs : Documents) (render : Renderers) (config : Config)
    (args : Option Value) : BrowserM Value := do
  if config.browser.disabled then Prog.fail browserDisabled
  else
    let raw ← Prog.ofExcept (getStrArg args "url")
    -- the one check of the call: nothing after it looks at where the tab goes
    let url ← validateAsked net config raw
    Prog.ofExcept chrome.acquirePage
    navigate chrome config url
    scrollPage args
    waitForSelector args
    evaluateScript args
    let blocks ← scrapeBlocks net chrome docs render url ((getOptBool args "onlyMainContent").getD false)
      ((getStrArray args "formats").getD ["markdown"])
    return scrapeContent blocks

/-! ## `browser_screenshot` -/

/-- `browser_screenshot`; the `width` and `height` arguments are read and not used. -/
def browserScreenshot (net : Net) (chrome : Chrome) (render : Renderers) (config : Config)
    (args : Option Value) : BrowserM Value := do
  if config.browser.disabled then Prog.fail browserDisabled
  else
    let raw ← Prog.ofExcept (getStrArg args "url")
    let url ← validateAsked net config raw
    Prog.ofExcept chrome.acquirePage
    navigate chrome config url
    waitForSelector args
    match ← pageScreenshot chrome url (some ((getOptBool args "fullPage").getD false)) with
    | .error e => Prog.fail (.httpError ("screenshot failed: " ++ e))
    | .ok (doc, bytes) => do
        giveBack (some doc)
        return screenshotContent (render.base64 bytes)

end Actions
end McpWebSearch
