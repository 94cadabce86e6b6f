import McpWebSearch.Config
import McpWebSearch.Validation
import McpWebSearch.Lib.Prog

/-!
# `Client` — the network, URL validation against it, and page fetches

`validate_url` of `src/validation.rs` and `src/client.rs`, as programs over a `World` that counts lookups and
requests and records what happens on the network. `Net` is everything outside the process: the URL parser,
the DNS (a separate answer for each lookup), the connections a request opens and the replies it gets.

## Contents
- `validateUrl`: scheme, host and address check, with its verdict on record.
- `clientFor` / `buildPinnedClient`: the client a request goes out on.
- `fetchPage`: a page by GET, redirects followed by hand.
-/

namespace McpWebSearch

open Utf8

/-! ## The network -/

/-- A `reqwest::Client`, as its resolve overrides. -/
structure Client where
  overrides : List (Text × SocketAddr)
  deriving DecidableEq

/-- The shared client `HTTP`: no overrides. -/
def Client.shared : Client := ⟨[]⟩

/-- `ClientBuilder::resolve`: an override replaces an earlier one of its domain. -/
def Client.resolve (c : Client) (domain : Text) (addr : SocketAddr) : Client :=
  ⟨(domain, addr) :: c.overrides.filter (fun o => o.1 ≠ domain)⟩

/-- `ClientOrPinned`. -/
inductive ClientOrPinned
  | shared
  | pinned (c : Client)
  deriving DecidableEq

def ClientOrPinned.asRef : ClientOrPinned → Client
  | .shared => Client.shared
  | .pinned c => c

inductive Method
  | get
  | head
  deriving DecidableEq

/-- A response: its status, its headers and the chunks its body arrives in. -/
structure HttpResponse where
  status : Nat
  headers : HeaderMap
  body : List (Except Text (List UInt8))

namespace HttpResponse

def isRedirection (r : HttpResponse) : Bool := 300 ≤ r.status && r.status < 400

def isSuccess (r : HttpResponse) : Bool := 200 ≤ r.status && r.status < 300

end HttpResponse

/-- What `timeout(request_timeout, client.method(url).send())` comes to. -/
inductive Sent
  | elapsed
  | failed (isTimeout isConnect : Bool) (e : Text)
  | received (r : HttpResponse)

/-- Everything outside the process. The numbers count lookups and requests from the start of the run, so that no
    two need have the same answer. -/
structure Net where
  urls : UrlParser
  lookupHost : Nat → Text → UInt16 → Except Text (List SocketAddr)
  build : Client → Except Text Unit
  connects : Nat → Client → Url → List IpAddr
  send : Nat → Client → Method → Url → Sent
  canonicalReason : Nat → Option Text

/-- What happens on the network, and the verdicts of `validate_url`. -/
inductive NetEvent
  | lookup (domain : Text) (port : UInt16)
  | accepted (url : Url)
  | rejected (raw : Text)
  | request (method : Method) (url : Url)
  | connect (url : Url) (ip : IpAddr)
  deriving DecidableEq

structure World where
  lookups : Nat
  requests : Nat
  trace : List NetEvent

/-- The world before anything has happened. -/
def World.initial : World := ⟨0, 0, []⟩

/-- An `async` function that uses the network. -/
abbrev NetM := Prog World WebSearchError

def record (e : NetEvent) : NetM Unit := Prog.change (fun w => { w with trace := w.trace ++ [e] })

/-- `tokio::net::lookup_host`. -/
def lookupHost (net : Net) (domain : Text) (port : UInt16) : NetM (Except Text (List SocketAddr)) := do
  let n ← Prog.observe World.lookups
  Prog.change (fun w => { w with lookups := w.lookups + 1, trace := w.trace ++ [.lookup domain port] })
  return net.lookupHost n domain port

/-- Send a request on a client, under the request timeout. -/
def sendRequest (net : Net) (client : Client) (method : Method) (url : Url) : NetM Sent := do
  let n ← Prog.observe World.requests
  Prog.change (fun w =>
    { w with
      requests := w.requests + 1
      trace := w.trace ++ .request method url :: (net.connects n client url).map (.connect url) })
  return net.send n client method url

/-! ## Validation -/

/-- `check_host_async`. -/
def checkHostAsync (net : Net) (url : Url) : NetM Unit :=
  match url.host with
  | some (.ipv4 ip) => Prog.ofExcept (guardIpv4 ip)
  | some (.ipv6 ip) => Prog.ofExcept (guardIpv6 ip)
  | some (.domain domain) => do
      match ← lookupHost net domain 0 with
      | .error e => Prog.fail (.urlNotAllowed ("cannot resolve host '" ++ domain ++ "': " ++ e))
      | .ok addrs => Prog.ofExcept (checkAddrs addrs domain)
  | none => return ()

/-- The body of `validate_url`. -/
def checkUrl (net : Net) (raw : Text) (allowPrivate : Bool) : NetM Url := do
  let url ← Prog.ofExcept (parseAndCheckSchemeHost net.urls raw)
  if allowPrivate then return url
  else do
    checkHostAsync net url
    return url

/-- `validate_url`, its verdict recorded. -/
def validateUrl (net : Net) (raw : Text) (allowPrivate : Bool) : NetM Url := do
  match ← Prog.attempt (checkUrl net raw allowPrivate) with
  | .ok url => do
      record (.accepted url)
      return url
  | .error e => do
      record (.rejected raw)
      Prog.fail e

/-! ## Choosing a client -/

/-- The check of the pinned addresses in `build_pinned_client`. -/
def checkPinned (domain : Text) (allowPrivate : Bool) : List SocketAddr → Result Unit
  | [] => .ok ()
  | addr :: addrs =>
      match validateIp addr.ip allowPrivate with
      | .error _ => .error (nonPublicDomain domain)
      | .ok () => checkPinned domain allowPrivate addrs

/-- The builder loop of `build_pinned_client`. -/
def pinAll (domain : Text) (builder : Client) (addrs : List SocketAddr) : Client :=
  addrs.foldl (fun b addr => b.resolve domain addr) builder

/-- `builder.build()`, its error wrapped. -/
def finishBuild (net : Net) (builder : Client) : Result Client :=
  match net.build builder with
  | .error e => .error (.httpError ("failed to build pinned client: " ++ e))
  | .ok () => .ok builder

/-- `build_pinned_client`. -/
def buildPinnedClient (net : Net) (config : Config) (url : Url) : NetM Client :=
  match url.host with
  | some (.domain domain) => do
      let port := url.portOrKnownDefault.getD 0
      -- a second lookup, after that of `validate_url`; its answer is the one that is pinned
      match ← lookupHost net domain port with
      | .error e =>
          Prog.fail (.urlNotAllowed ("DNS pinning: cannot resolve '" ++ domain ++ "': " ++ e))
      | .ok addrs => do
          Prog.ofExcept (checkPinned domain config.allowPrivateHosts addrs)
          Prog.ofExcept (finishBuild net (pinAll domain Client.shared addrs))
  | _ => Prog.fail (.urlNotAllowed "DNS pinning only applies to domain hosts")

/-- `client_for`. -/
def clientFor (net : Net) (config : Config) (url : Url) : NetM ClientOrPinned :=
  match url.host with
  | some (.domain _) =>
      if config.dnsPin then do
        let c ← buildPinnedClient net config url
        return .pinned c
      else return .shared
  | _ => return .shared

/-! ## Fetching a page -/

structure FetchedPage where
  finalUrl : Url
  body : Text

/-- The streaming loop of `read_capped`. -/
def readChunks (max : Nat) : List UInt8 → Nat → List (Except Text (List UInt8)) → Result (List UInt8)
  | buf, _, [] => .ok buf
  | _, _, .error e :: _ => .error (.httpError ("body stream error: " ++ e))
  | buf, total, .ok chunk :: chunks =>
      let total := total + chunk.length
      if total > max then
        .error (.responseTooLarge ("response body exceeds " ++ decimal max ++ " bytes"))
      else readChunks max (buf ++ chunk) total chunks

/-- `read_capped`. -/
def readCapped (resp : HttpResponse) (max : Nat) : Result Text :=
  (readChunks max [] 0 resp.body).map (fun buf =>
    match fromUtf8? buf with
    | some s => s
    | none => fromUtf8Lossy buf)

/-- The response to a GET of `fetch_page`, or its error. -/
def fetchResponse (current : Url) : Sent → Result HttpResponse
  | .elapsed => .error (.timeout ("fetching " ++ current.asStr))
  | .failed isTimeout isConnect e =>
      if isTimeout then .error (.timeout ("request to " ++ current.asStr ++ " timed out"))
      else if isConnect then
        .error (.httpError ("connection to " ++ current.asStr ++ " failed: " ++ e))
      else .error (.httpError ("request to " ++ current.asStr ++ " failed: " ++ e))
  | .received r => .ok r

/-- The target of redirect number `hop`: its `Location`, resolved against the current URL. -/
def redirectTarget (urls : UrlParser) (hop : Nat) (current : Url) (resp : HttpResponse) : Result Url :=
  match (resp.headers.get "location").bind HeaderMap.toStr with
  | none => .error (.httpError ("redirect #" ++ decimal hop ++ " from " ++ current.asStr ++
      " without Location header"))
  | some location =>
      match urls.join current location with
      | .error e => .error (.httpError ("invalid redirect target '" ++ location ++ "': " ++ e))
      | .ok next => .ok next

/-- The `for hop in 0..=max_redirects` loop of `fetch_page`, with the number of hops left. -/
def fetchLoop (net : Net) (config : Config) (start : Text) : Nat → Nat → Url → NetM FetchedPage
  | 0, _, _ =>
      Prog.fail (.httpError ("exceeded " ++ decimal config.maxRedirects ++ " redirects from " ++ start))
  | left + 1, hop, current => do
      let client ← clientFor net config current
      let resp ← Prog.ofExcept (fetchResponse current (← sendRequest net client.asRef .get current))
      if resp.isRedirection then
        if hop = config.maxRedirects then
          Prog.fail (.httpError
            ("exceeded " ++ decimal config.maxRedirects ++ " redirects from " ++ start))
        else do
          let next ← Prog.ofExcept (redirectTarget net.urls hop current resp)
          -- the next round connects to no URL that has not passed validation
          let current ← validateUrl net next.asStr config.allowPrivateHosts
          fetchLoop net config start left (hop + 1) current
      else if !resp.isSuccess then
        Prog.fail (.httpError (current.asStr ++ " returned HTTP " ++ decimal resp.status))
      else do
        let body ← Prog.ofExcept (readCapped resp config.maxResponseBytes)
        return { finalUrl := current, body := body }

/-- `fetch_page`. -/
def fetchPage (net : Net) (config : Config) (start : Text) : NetM FetchedPage := do
  let current ← validateUrl net start config.allowPrivateHosts
  fetchLoop net config start (config.maxRedirects + 1) 0 current

end McpWebSearch
