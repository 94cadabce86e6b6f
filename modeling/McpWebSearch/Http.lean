import McpWebSearch.Server
import McpWebSearch.Ratelimit
import McpWebSearch.Lib.Machine

/-!
# `Http` — the JSON-RPC endpoint (`handle_rpc` of `src/http.rs`)

One call of the handler: authentication, rate limit, parsing, dispatch. Besides the response a call
leaves the limiter in some state and may have dispatched a request to `process_request`; both are in `Served`.
-/

namespace McpWebSearch
namespace Http

open Utf8 Server

/-- A response body: plain text, or a JSON-RPC response object. -/
inductive Body
  | text (t : Text)
  | json (r : JsonRpcResponse)

structure Response where
  status : Nat
  body : Body

/-- `HttpState`. -/
structure HttpState where
  config : Config
  rateLimiter : Option TokenBucket

/-- What one call of the handler does. -/
structure Served where
  response : Response
  rateLimiter : Option TokenBucket
  dispatched : List JsonRpcRequest

/-- The `Authorization` header as `handle_rpc` reads it. -/
def presentedCredential (headers : HeaderMap) : Text :=
  ((headers.get "authorization").bind HeaderMap.toStr).getD []

/-- Whether the auth check at the top of `handle_rpc` lets the request through. -/
def authorized (config : Config) (headers : HeaderMap) : Bool :=
  match config.server.authToken with
  | some expected => tokenMatches (presentedCredential headers) expected
  | none => true

/-- The rate-limit check: whether it admits the call, and the limiter it leaves. -/
def acquireToken (limiter : Option TokenBucket) (now : Rat) : Bool × Option TokenBucket :=
  match limiter with
  | some b => ((b.tryAcquire now).1, some (b.tryAcquire now).2)
  | none => (true, none)

/-- `handle_rpc`. -/
def handleRpc (rt : Runtime) (process : Process) (state : HttpState) (now : Rat)
    (headers : HeaderMap) (body : Bytes) : Served :=
  -- before the limiter, so that a call without credentials takes no token
  if !authorized state.config headers then
    { response := { status := 401, body := .text "Unauthorized" }
      rateLimiter := state.rateLimiter
      dispatched := [] }
  else
    let (admitted, limiter) := acquireToken state.rateLimiter now
    if !admitted then
      let err := WebSearchError.rateLimited "Rate limit exceeded. Try again later."
      let resp := JsonRpcResponse.errorWithData none err.errorCode err.display
        (err.errorData.getD .null)
      { response := { status := 429, body := .json resp }
        rateLimiter := limiter
        dispatched := [] }
    else
      match rt.fromSlice body with
      | .error e =>
          { response := { status := 400, body := .text ("Invalid JSON-RPC request: " ++ e) }
            rateLimiter := limiter
            dispatched := [] }
      | .ok req =>
          { response := { status := 200, body := .json (processRequestHttp state.config process req) }
            rateLimiter := limiter
            dispatched := [req] }

/-- The limiter `create_http_server` starts with. An infinite bucket never refuses a call, which is what
    having none comes to. -/
def newRateLimiter (config : Config) (now : Rat) : Option TokenBucket :=
  match config.server.rateLimit with
  | .finite q => if 0 < q then some (TokenBucket.new now q) else none
  | _ => none

/-- A request as the router hands it to `handle_rpc`: the instant it is served at, its headers and body, and
    what a dispatch of it comes to. -/
structure Arrival where
  now : Rat
  headers : HeaderMap
  body : Bytes
  process : Process

/-- `handle_rpc` on the requests of any number of clients, which share the limiter. -/
def served (rt : Runtime) (config : Config) (limiter : Option TokenBucket) (a : Arrival) : Served :=
  handleRpc rt a.process ⟨config, limiter⟩ a.now a.headers a.body

/-- The endpoint as a machine on its limiter. -/
def endpoint (rt : Runtime) (config : Config) : Machine (Option TokenBucket) Arrival where
  next limiter a := some (served rt config limiter a).rateLimiter

end Http
end McpWebSearch
