import McpWebSearch.Correctness.Stdio
import McpWebSearch.Http

/-!
# `Correctness.Http` — authentication from the arguments to the response, and the two transports

* **Authentication.** `fromArgs_eq_ok_iff` says when `Config::from_args` succeeds with which token, and
  `failsClosed_iff` when a configuration rejects every request without a credential: exactly when its token
  is not empty. A token file cannot yield the empty token; the inline `--auth-token` can
  (`fromArgs_failsClosed_iff`).
* **Transports.** HTTP answers a request as stdio does (`lineResponse_of_ok`), and answers a notification too
  (`transports_agree_iff`).
-/

namespace McpWebSearch

open Utf8

/-! ## Loading the configuration -/

namespace Config

variable {env : Env} {args : Args}

/-- The first check of `from_args` fails: the provider needs an API key and has none. -/
def MissingApiKey (args : Args) : Prop :=
  args.searchProvider.requiresApiKey = true ∧ args.searchApiKey.getD [] = []

/-- The second check fails: the provider needs an API URL and has none. -/
def MissingApiUrl (args : Args) : Prop :=
  args.searchProvider.needsUrl = true ∧ args.searchApiUrl = none

/-- The third check fails: one of the TLS files is given (and not empty) without the other. -/
def UnpairedTls (args : Args) : Prop :=
  (args.tlsCert.filter (!·.isEmpty)).isSome ≠ (args.tlsKey.filter (!·.isEmpty)).isSome

/-- **When `from_args` succeeds**: its three checks pass and the token loads; the configuration is then the
    one of the arguments with that token. -/
theorem fromArgs_eq_ok_iff {cfg : Config} :
    fromArgs env args = .ok cfg ↔
      ¬ MissingApiKey args ∧ ¬ MissingApiUrl args ∧ ¬ UnpairedTls args ∧
        ∃ token, loadAuthToken env args = .ok token ∧ cfg = ofArgs env args token := by
  have hkey : (args.searchProvider.requiresApiKey && (args.searchApiKey.getD []).isEmpty) = true ↔
      MissingApiKey args := by simp [MissingApiKey]
  have hurl : (args.searchProvider.needsUrl && args.searchApiUrl.isNone) = true ↔
      MissingApiUrl args := by simp [MissingApiUrl]
  have htls : ((args.tlsCert.filter (!·.isEmpty)).isSome !=
      (args.tlsKey.filter (!·.isEmpty)).isSome) = true ↔ UnpairedTls args := by
    rw [bne_iff_ne, UnpairedTls]
  rw [← hkey, ← hurl, ← htls, fromArgs]
  by_cases h1 : (args.searchProvider.requiresApiKey && (args.searchApiKey.getD []).isEmpty) = true
  · rw [if_pos h1]
    exact ⟨fun h => absurd h (by intro h; cases h), fun h => absurd h1 h.1⟩
  rw [if_neg h1]
  by_cases h2 : (args.searchProvider.needsUrl && args.searchApiUrl.isNone) = true
  · rw [if_pos h2]
    exact ⟨fun h => absurd h (by intro h; cases h), fun h => absurd h2 h.2.1⟩
  rw [if_neg h2]
  by_cases h3 : ((args.tlsCert.filter (!·.isEmpty)).isSome !=
      (args.tlsKey.filter (!·.isEmpty)).isSome) = true
  · rw [if_pos h3]
    exact ⟨fun h => absurd h (by intro h; cases h), fun h => absurd h3 h.2.2.1⟩
  rw [if_neg h3]
  cases hload : loadAuthToken env args with
  | error e =>
      constructor
      · intro h
        cases h
      · rintro ⟨-, -, -, token, htoken, -⟩
        cases htoken
  | ok token =>
      constructor
      · intro h
        exact ⟨h1, h2, h3, token, rfl, (Except.ok.inj h).symm⟩
      · rintro ⟨-, -, -, token', htoken, rfl⟩
        cases htoken
        rfl

/-- **What a token file comes to**: an error, or a token that is not empty. -/
theorem loadAuthToken_file_cases {path : Text} (hinline : args.authToken = none)
    (hfile : args.authTokenFile = some path) :
    (∃ e, loadAuthToken env args = .error e) ∨ ∃ token, token ≠ [] ∧ loadAuthToken env args = .ok (some token) := by
  simp only [loadAuthToken, hinline, hfile]
  cases env.readToString path with
  | error e => exact .inl ⟨_, rfl⟩
  | ok contents =>
      by_cases hempty : (trim contents).isEmpty = true
      · simp only [hempty, if_true]
        exact .inl ⟨_, rfl⟩
      · simp only [hempty]
        exact .inr ⟨trim contents, by simpa using hempty, rfl⟩

/-- A token file never yields the empty token. -/
theorem loadAuthToken_of_file {path token : Text} (hinline : args.authToken = none)
    (hfile : args.authTokenFile = some path) (h : loadAuthToken env args = .ok (some token)) :
    token ≠ [] := by
  rcases @loadAuthToken_file_cases env args path hinline hfile with ⟨e, herr⟩ | ⟨t, hne, hok⟩
  · rw [herr] at h
    cases h
  · rw [hok] at h
    cases h
    exact hne

/-- A configured token source leaves authentication on. -/
theorem loadAuthToken_ne_none (hsrc : args.authToken.isSome ∨ args.authTokenFile.isSome) :
    loadAuthToken env args ≠ .ok none := by
  intro h
  cases hinline : args.authToken with
  | some t =>
      simp only [loadAuthToken, hinline] at h
      cases h
  | none =>
      rw [hinline] at hsrc
      obtain ⟨path, hfile⟩ := Option.isSome_iff_exists.mp (hsrc.resolve_left (by simp))
      rcases @loadAuthToken_file_cases env args path hinline hfile with ⟨e, herr⟩ | ⟨t, -, hok⟩
      · rw [herr] at h
        cases h
      · rw [hok] at h
        cases h

end Config

/-! ## Authentication -/

namespace Http

open Server

/-- The request carries no credential: its `Authorization` header is absent, not text, empty or blank. -/
def NoCredential (headers : HeaderMap) : Prop :=
  match headers.get "authorization" with
  | none => True
  | some v =>
      match HeaderMap.toStr v with
      | none => True
      | some t => ∀ c ∈ t, isWhitespace c = true

/-- The configuration answers 401 to every request without a credential, whatever its body, and touches
    neither the limiter nor the dispatcher. -/
def FailsClosed (config : Config) : Prop :=
  ∀ (rt : Runtime) (process : Process) (limiter : Option TokenBucket) (now : Rat) (headers : HeaderMap)
    (body : Bytes), NoCredential headers →
      handleRpc rt process ⟨config, limiter⟩ now headers body =
        { response := { status := 401, body := .text "Unauthorized" }
          rateLimiter := limiter
          dispatched := [] }

theorem trim_presentedCredential {headers : HeaderMap} (h : NoCredential headers) :
    trim (presentedCredential headers) = [] := by
  unfold NoCredential at h
  unfold presentedCredential
  cases hget : headers.get "authorization" with
  | none => rfl
  | some v =>
      rw [hget] at h
      cases hstr : HeaderMap.toStr v with
      | none =>
          rw [Option.bind_some, hstr]
          rfl
      | some t =>
          rw [Option.bind_some, hstr]
          simp only [hstr] at h
          exact trim_eq_nil_iff.mpr h

/-- A blank credential matches exactly the empty token. -/
theorem tokenMatches_blank {presented expected : Text} (h : trim presented = []) :
    tokenMatches presented expected = true ↔ expected = [] := by
  have hstrip : (stripPrefix "Bearer " (trim presented)).getD (trim presented) = [] := by
    rw [h]
    rfl
  rw [tokenMatches, hstrip, trim_nil, beq_iff_eq, eq_comm]
  exact bytes_eq_nil_iff

/-- **A configured token fails closed exactly when it is not empty.** -/
theorem failsClosed_iff {config : Config} {expected : Text}
    (htoken : config.server.authToken = some expected) : FailsClosed config ↔ expected ≠ [] := by
  constructor
  · rintro hclosed rfl
    -- a request without headers and with an empty body gets past the check
    have h := hclosed ⟨fun _ => .error [], fun _ => .error [], fun _ => [], max⟩
      (fun _ => .elapsed) none 0 [] [] trivial
    have hauth : authorized config [] = true := by
      rw [authorized, htoken]
      exact (tokenMatches_blank rfl).mpr rfl
    have hstatus := congrArg (fun s => s.response.status) h
    simp [handleRpc, hauth, acquireToken] at hstatus
  · intro hne rt process limiter now headers body hcred
    have hauth : authorized config headers = false := by
      rw [authorized, htoken, Bool.eq_false_iff]
      intro hmatch
      exact hne ((tokenMatches_blank (trim_presentedCredential hcred)).mp hmatch)
    rw [handleRpc, hauth]
    rfl

/-- **Authentication fails closed, from the arguments to the response**, exactly unless the inline token is
    empty and `from_args` has no other reason to fail. -/
theorem fromArgs_failsClosed_iff (env : Env) (args : Args)
    (hsrc : args.authToken.isSome ∨ args.authTokenFile.isSome) :
    (∀ config, Config.fromArgs env args = .ok config → FailsClosed config) ↔
      args.authToken ≠ some [] ∨ Config.MissingApiKey args ∨ Config.MissingApiUrl args ∨
        Config.UnpairedTls args := by
  constructor
  · intro hclosed
    by_contra hnot
    simp only [not_or, not_not] at hnot
    obtain ⟨hempty, hkey, hurl, htls⟩ := hnot
    -- nothing stops the start, and the empty token is configured
    have hload : Config.loadAuthToken env args = .ok (some []) := by
      simp only [Config.loadAuthToken, hempty]
    have hok := Config.fromArgs_eq_ok_iff.mpr ⟨hkey, hurl, htls, some [], hload, rfl⟩
    have htoken : (Config.ofArgs env args (some [])).server.authToken = some [] := rfl
    exact (failsClosed_iff htoken).mp (hclosed _ hok) rfl
  · intro hcond config hok
    obtain ⟨hkey, hurl, htls, token, hload, rfl⟩ := Config.fromArgs_eq_ok_iff.mp hok
    have hinline : args.authToken ≠ some [] := by
      rcases hcond with h | h | h | h
      · exact h
      · exact absurd h hkey
      · exact absurd h hurl
      · exact absurd h htls
    cases token with
    | none => exact absurd hload (Config.loadAuthToken_ne_none hsrc)
    | some t =>
        have htoken : (Config.ofArgs env args (some t)).server.authToken = some t := rfl
        refine (failsClosed_iff htoken).mpr ?_
        cases hauth : args.authToken with
        | some t' =>
            simp only [Config.loadAuthToken, hauth] at hload
            cases hload
            intro hnil
            exact hinline (by rw [hauth, hnil])
        | none =>
            rw [hauth] at hsrc
            obtain ⟨path, hfile⟩ := Option.isSome_iff_exists.mp (hsrc.resolve_left (by simp))
            exact Config.loadAuthToken_of_file hauth hfile hload

/-- The smallest arguments `from_args` accepts, with the given token sources. -/
def baseArgs (authToken authTokenFile : Option Text) : Args where
  searchProvider := .duckDuckGo
  searchApiKey := none
  searchApiUrl := none
  limit := 10
  language := "auto"
  categories := "general"
  timeRange := []
  safeSearch := 0
  engines := "all"
  timeout := 10000
  host := "127.0.0.1"
  httpPort := 3001
  requestTimeout := 30
  maxRequestBytes := 1024 * 1024
  maxResponseBytes := 8 * 1024 * 1024
  maxRedirects := 5
  allowPrivateHosts := false
  authToken := authToken
  authTokenFile := authTokenFile
  maxExtractUrls := 0
  maxMapUrls := 0
  rateLimit := .finite 0
  dnsPin := true
  tlsCert := none
  tlsKey := none
  browserPath := none
  browserMaxPages := 0
  browserNavTimeoutMs := 30000
  browserDisable := false
  enableAll := false
  enableSearch := false
  enableScrape := false
  enableFetch := false
  enableCrawl := false

/-- A token file with surrounding white space. -/
theorem fromArgs_failsClosed_file :
    FailsClosed (Config.ofArgs ⟨4, fun _ => .ok "  s3cret-token\n", fun _ => []⟩
      (baseArgs none (some "/etc/token")) (some "s3cret-token")) :=
  (fromArgs_failsClosed_iff ⟨4, fun _ => .ok "  s3cret-token\n", fun _ => []⟩
    (baseArgs none (some "/etc/token")) (.inr rfl)).mpr (.inl (by decide)) _ rfl

/-- **`--auth-token ""` leaves the endpoint open**: the server starts, and a request without a credential is
    not answered 401. -/
theorem empty_inline_token_fails_open :
    ¬ ∀ config, Config.fromArgs ⟨4, fun _ => .error [], fun _ => []⟩ (baseArgs (some []) none) =
      .ok config → FailsClosed config := by
  intro h
  have hclosed := h _ rfl
  exact (failsClosed_iff rfl).mp hclosed rfl

/-! ## The shared limiter -/

/-- A request that fails the auth check leaves the limiter alone. -/
theorem served_of_unauthorized {rt : Runtime} {config : Config} {limiter : Option TokenBucket}
    {a : Arrival} (h : authorized config a.headers = false) :
    (served rt config limiter a).rateLimiter = limiter := by
  unfold served handleRpc
  simp only [h, Bool.not_false, if_true]

/-- **Unauthenticated traffic is invisible.** Deleting the requests whose credential does not match from any
    sequence of requests leaves the final limiter, and the response, limiter and dispatch of every other
    request, as they were. -/
theorem unauthenticated_traffic_invisible (rt : Runtime) (config : Config) (token : Text)
    (htoken : config.server.authToken = some token) (bucket : TokenBucket) (arrivals : List Arrival) :
    let matching := fun a : Arrival => tokenMatches (presentedCredential a.headers) token
    (endpoint rt config).exec (some bucket) (arrivals.filter matching) =
        (endpoint rt config).exec (some bucket) arrivals ∧
      (endpoint rt config).trace (served rt config) (some bucket) (arrivals.filter matching) =
        ((endpoint rt config).trace (served rt config) (some bucket) arrivals).filter
          (fun p => matching p.1) := by
  intro matching
  have hstutter : ∀ limiter a, matching a = false →
      (endpoint rt config).next limiter a = some limiter := by
    intro limiter a ha
    apply congrArg some
    apply served_of_unauthorized
    unfold authorized
    rw [htoken]
    exact ha
  constructor
  · exact Machine.exec_erase hstutter (some bucket) arrivals
  · exact Machine.trace_erase hstutter (fun _ _ => ⟨_, rfl⟩) (served rt config) (some bucket) arrivals

/-- A configuration with the token `secret123`. -/
def tokenConfig : Config :=
  let config := Config.default ⟨4, fun _ => .error [], fun _ => []⟩
  { config with server := { config.server with authToken := some "secret123" } }

/-- A request without a credential, then one with. -/
theorem unauthenticated_traffic_invisible_flood :
    let matching := fun a : Arrival => tokenMatches (presentedCredential a.headers) "secret123"
    let arrivals : List Arrival :=
      [⟨1, [], bytes (pingText none), fun _ => .elapsed⟩,
       ⟨2, [("authorization", bytes "Bearer secret123")], bytes (pingText none), fun _ => .elapsed⟩]
    (endpoint pingRuntime tokenConfig).exec (some (TokenBucket.new 0 1)) (arrivals.filter matching) =
        (endpoint pingRuntime tokenConfig).exec (some (TokenBucket.new 0 1)) arrivals ∧
      (endpoint pingRuntime tokenConfig).trace (served pingRuntime tokenConfig)
          (some (TokenBucket.new 0 1)) (arrivals.filter matching) =
        ((endpoint pingRuntime tokenConfig).trace (served pingRuntime tokenConfig)
          (some (TokenBucket.new 0 1)) arrivals).filter (fun p => matching p.1) :=
  unauthenticated_traffic_invisible pingRuntime tokenConfig "secret123" rfl (TokenBucket.new 0 1)
    [⟨1, [], bytes (pingText none), fun _ => .elapsed⟩,
     ⟨2, [("authorization", bytes "Bearer secret123")], bytes (pingText none), fun _ => .elapsed⟩]

/-! ## The two transports -/

/-- A request admitted by both transports is answered alike: with an id, by one response with that id, the
    same on stdout and in the HTTP body; without one, by no response object at all. -/
def TransportsAgree (rt : Runtime) (process : Process) (state : HttpState) (now : Rat)
    (headers : HeaderMap) (body : Bytes) (line : Text) (req : JsonRpcRequest) : Prop :=
  let http := (handleRpc rt process state now headers body).response.body
  let stdio (rs : List JsonRpcResponse) : Prop :=
    lineReplies rt state.config process line = rs ∧
      ∀ s : Session, s.input.out = line →
        (processOneLine rt state.config process s).stdout = s.stdout ++ frame rt rs
  (req.id ≠ none → ∃ r, stdio [r] ∧ http = .json r ∧ r.id = req.id) ∧
    (req.id = none → stdio [] ∧ ∀ r, http ≠ .json r)

/-- An admitted request is dispatched, and its response is the body. -/
theorem handleRpc_admitted {rt : Runtime} {process : Process} {state : HttpState} {now : Rat}
    {headers : HeaderMap} {body : Bytes} {req : JsonRpcRequest}
    (hauth : authorized state.config headers = true)
    (hlimit : (acquireToken state.rateLimiter now).1 = true) (hbody : rt.fromSlice body = .ok req) :
    (handleRpc rt process state now headers body).response =
      { status := 200, body := .json (processRequestHttp state.config process req) } := by
  rcases hlim : acquireToken state.rateLimiter now with ⟨admitted, limiter⟩
  obtain rfl : admitted = true := by
    rw [hlim] at hlimit
    exact hlimit
  simp only [handleRpc, hauth, hlim, hbody, Bool.not_true, Bool.false_eq_true, if_false]

/-- **The transports agree exactly on requests with an id.** HTTP answers a notification with a JSON-RPC
    response object; stdio does not. -/
theorem transports_agree_iff (rt : Runtime) (process : Process) (state : HttpState) (now : Rat)
    (headers : HeaderMap) (body : Bytes) (line : Text) (req : JsonRpcRequest)
    (hauth : authorized state.config headers = true)
    (hlimit : (acquireToken state.rateLimiter now).1 = true)
    (hbody : rt.fromSlice body = .ok req) (hline : parseRequest rt line = .ok req) :
    TransportsAgree rt process state now headers body line req ↔ req.id ≠ none := by
  have hhttp := @handleRpc_admitted rt process state now headers body req hauth hlimit hbody
  unfold TransportsAgree
  rw [hhttp]
  constructor
  · rintro ⟨-, hnotif⟩ hnone
    exact (hnotif hnone).2 _ rfl
  · intro hid
    refine ⟨fun _ => ⟨processRequestHttp state.config process req, ⟨?_, ?_⟩, rfl, ?_⟩, ?_⟩
    · exact lineReplies_of_id hline hid
    · intro s hs
      have hwrite := (@processOneLine_spec rt state.config process s).1
      rwa [hs, lineReplies_of_id hline hid] at hwrite
    · exact processRequestHttp_id process req
    · exact fun hnone => absurd hnone hid

/-- A ping with id 1 that times out. -/
theorem transports_agree_ping :
    TransportsAgree pingRuntime (fun _ => .elapsed)
      ⟨Config.default ⟨4, fun _ => .error [], fun _ => []⟩, none⟩ 0 [] (bytes (pingText (some 1)))
      (pingText (some 1)) (ping (some 1)) :=
  (transports_agree_iff pingRuntime (fun _ => .elapsed)
    ⟨Config.default ⟨4, fun _ => .error [], fun _ => []⟩, none⟩ 0 [] (bytes (pingText (some 1)))
    (pingText (some 1)) (ping (some 1)) rfl rfl rfl rfl).mpr (by simp [ping])

/-- **HTTP answers a notification**: a ping without id gets a JSON-RPC response object. -/
theorem http_answers_notification :
    ¬ TransportsAgree pingRuntime (fun _ => .done (.ok .null))
      ⟨Config.default ⟨4, fun _ => .error [], fun _ => []⟩, none⟩ 0 [] (bytes (pingText none))
      (pingText none) (ping none) := by
  rintro ⟨-, hnotif⟩
  exact (hnotif rfl).2 _ rfl

end Http
end McpWebSearch
