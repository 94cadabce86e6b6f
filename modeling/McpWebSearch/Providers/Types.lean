import McpWebSearch.Providers.DuckDuckGo
import McpWebSearch.Lib.Prog

/-!
# `Providers.Types` — search results, and the HTTP calls of the backends (`src/providers/`)

The backends share what comes here: the result type, the field getters, and the steps of a call (send under the
timeout of the request, check the status, read the body). A backend that answers in JSON is a `Backend`, by what it does
of its own. `Api` is what answers: any number of services, each answer its own.
-/

namespace McpWebSearch
namespace Providers

open Utf8 Actions

/-! ## Results -/

/-- `SearchResult`; what is printed of it is `Actions.SearchResult`. -/
structure SearchResult extends Actions.SearchResult where
  source : Option Text
  thumbnailUrl : Option Text
  markdown : Option Text
  engine : Text
  deriving DecidableEq

/-- `SearchResult::new`. -/
def SearchResult.new (title url snippet engine : Text) : SearchResult :=
  { title, url, snippet, source := none, thumbnailUrl := none, markdown := none, engine }

structure SearchResponse where
  results : List SearchResult
  success : Bool

/-- `v.get(key).and_then(|x| x.as_str())`. -/
def optField (v : Value) (key : Text) : Option Text := (v.get key).bind Value.asStr

/-- `str_field`. -/
def strField (v : Value) (key : Text) : Text := (optField v key).getD []

/-- `Value::pointer`, on paths of names: `None` as soon as something is not an object. -/
def pointer (v : Value) (path : List Text) : Option Value := path.foldlM Value.get v

/-! ## Calls -/

inductive ApiMethod
  | get
  | post
  deriving DecidableEq

/-- Query parameters, or headers. -/
abbrev Pairs := List (Text × Text)

/-- A pair that is pushed on a condition. -/
def pairIf (on : Bool) (key value : Text) : Pairs := if on then [(key, value)] else []

/-- A request as `RequestBuilder` puts it together: the pairs of `query`, the headers that carry a credential and the
    body of `json`. -/
structure ApiRequest where
  method : ApiMethod
  url : Text
  query : Pairs
  headers : Pairs
  json : Option Value

/-- `bearer_auth`. -/
def bearerAuth (token : Text) : Pairs := [("authorization", "Bearer " ++ token)]

/-- A response: its status, and what `text` and `json` make of its body. -/
structure ApiResponse where
  status : Nat
  text : Except Text Text
  json : Except Text Value

def ApiResponse.isSuccess (resp : ApiResponse) : Bool := 200 ≤ resp.status && resp.status < 300

/-- What `timeout(timeout_ms, builder.send())` comes to. The text of a failure is reqwest's, and quotes the URL with its
    query. -/
inductive Reply
  | elapsed
  | failed (e : Text)
  | received (resp : ApiResponse)

/-- What is outside the process: why reqwest does not send to the URL of a request (it does not parse, has no host or is not
    of HTTP), if it does not, the services, with an answer for each request sent, `StatusCode::canonical_reason`, the
    parser and the selectors of DuckDuckGo's page, `{:.2}` of a number as an `f64`, and how a blocking task that does not
    come to its end is reported. -/
structure Api where
  urlError : ApiRequest → Option Text
  send : Nat → Nat → ApiRequest → Reply
  canonicalReason : Nat → Option Text
  urls : DuckDuckGo.QueryParser
  resultNodes : Text → List DuckDuckGo.ResultNode
  formatScore : Number → Text
  joinError : Option Text

/-- A program that sends requests: its state is the requests sent. -/
abbrev ApiM := Prog (List ApiRequest) WebSearchError

/-- Whether a text can be the value of a header (`HeaderValue::try_from`). -/
def headerValueOk (value : Text) : Bool := (bytes value).all fun b => b == 9 || (32 ≤ b && b != 127)

/-- The error a `RequestBuilder` holds from the steps that put the request together, if one of them failed. -/
def builderError (api : Api) (r : ApiRequest) : Option Text :=
  (api.urlError r).or (if r.headers.all fun header => headerValueOk header.2 then none else some "builder error")

/-- Send a request, under the timeout. A builder that holds an error returns it, and nothing is sent. -/
def send (api : Api) (timeoutMs : Nat) (r : ApiRequest) : ApiM Reply :=
  match builderError api r with
  | some e => return .failed e
  | none => do
      let n ← Prog.observe List.length
      Prog.change (· ++ [r])
      return api.send n timeoutMs r

/-- The two `map_err`s after `send`. -/
def readReply (name : Text) : Reply → Result ApiResponse
  | .elapsed => .error (.timeout (name ++ " search timeout"))
  | .failed e => .error (.providerError (name ++ " request failed: " ++ e))
  | .received resp => .ok resp

/-- `Display` of a `StatusCode`. -/
def statusText (api : Api) (status : Nat) : Text :=
  decimal status ++ " " ++ (api.canonicalReason status).getD "<unknown status code>"

/-- `if !resp.status().is_success()`; some backends quote the body. -/
def checkStatus (api : Api) (name : Text) (quotesBody : Bool) (resp : ApiResponse) : Result Unit :=
  if !resp.isSuccess then
    .error (.providerError (name ++ " returned HTTP " ++ statusText api resp.status ++
      if quotesBody then ": " ++ resp.text.toOption.getD [] else []))
  else .ok ()

/-- The response to a request, if it is a success. -/
def call (api : Api) (name : Text) (quotesBody : Bool) (timeoutMs : Nat) (r : ApiRequest) : ApiM ApiResponse := do
  let resp ← Prog.ofExcept (readReply name (← send api timeoutMs r))
  Prog.ofExcept (checkStatus api name quotesBody resp)
  return resp

/-- `resp.json()`, its error wrapped. -/
def readJson (name : Text) (resp : ApiResponse) : Result Value :=
  match resp.json with
  | .error e => .error (.providerError (name ++ " invalid JSON: " ++ e))
  | .ok body => .ok body

/-! ## Backends that answer in JSON -/

structure Backend where
  name : Text
  quotesBody : Bool
  /-- The checks of the request, and what is sent. -/
  request : SearchRequest → Result ApiRequest
  /-- An error reported in the body. -/
  apiError : Value → Option Text
  items : Value → Option (List Value)
  result : Value → SearchResult

/-- The check that all backends begin with. -/
def checkQuery (req : SearchRequest) : Result Unit :=
  if (trim req.query).isEmpty then .error (.invalidParams "query cannot be empty") else .ok ()

def checkApiKey (name : Text) (req : SearchRequest) : Result Unit :=
  if req.apiKey.isEmpty then .error (.configError (name ++ " API key is required")) else .ok ()

/-- What a backend makes of a body: the error it reports, or the results of the first items, up to the limit. -/
def Backend.read (b : Backend) (limit : Nat) (body : Value) : Result SearchResponse :=
  match b.apiError body with
  | some msg => .error (.providerError (b.name ++ " API error: " ++ msg))
  | none => .ok { success := true, results := (((b.items body).getD []).take limit).map b.result }

/-- `search` of such a backend. -/
def Backend.search (b : Backend) (api : Api) (req : SearchRequest) : ApiM SearchResponse := do
  let r ← Prog.ofExcept (b.request req)
  let resp ← call api b.name b.quotesBody req.timeoutMs r
  let body ← Prog.ofExcept (readJson b.name resp)
  Prog.ofExcept (b.read req.limit body)

end Providers
end McpWebSearch
