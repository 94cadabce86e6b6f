import McpWebSearch.Correctness.Http
import McpWebSearch.Correctness.Ratelimit
import McpWebSearch.Correctness.Traffic

/-!
# `Correctness.Endpoint` — what the endpoint lets through, and what the server sends for it

The limiter of the endpoint is the token bucket on the calls that pass the auth check (`endpoint_exec`): the simulation takes the
bounds of the bucket to the requests that are dispatched, whoever calls and with whatever bodies. With the budget of a tool
call that bounds what clients can make the server send.
-/

namespace McpWebSearch
namespace Http

open Utf8 Server

variable {rt : Runtime} {config : Config}

/-! ## One arrival -/

/-- **Inversion of `handle_rpc`.** A request is refused for its credential, and leaves the limiter alone; or the limiter is
    asked, and refuses it or admits it, and it is dispatched if its body parses. -/
theorem served_cases (rt : Runtime) (config : Config) (limiter : Option TokenBucket) (a : Arrival) :
    (authorized config a.headers = false ∧ (served rt config limiter a).response.status = 401 ∧
      (served rt config limiter a).rateLimiter = limiter ∧ (served rt config limiter a).dispatched = []) ∨
    (authorized config a.headers = true ∧ (served rt config limiter a).rateLimiter = (acquireToken limiter a.now).2 ∧
      (((acquireToken limiter a.now).1 = false ∧ (served rt config limiter a).response.status = 429 ∧
          (served rt config limiter a).dispatched = []) ∨
        ((acquireToken limiter a.now).1 = true ∧
          (((served rt config limiter a).response.status = 400 ∧ (served rt config limiter a).dispatched = []) ∨
            ∃ req, (served rt config limiter a).response.status = 200 ∧ (served rt config limiter a).dispatched = [req])))) := by
  unfold served handleRpc
  cases hauth : authorized config a.headers with
  | false => exact .inl ⟨rfl, rfl, rfl, rfl⟩
  | true =>
      rcases hacquire : acquireToken limiter a.now with ⟨admitted, limiter'⟩
      cases admitted with
      | false => exact .inr ⟨rfl, rfl, .inl ⟨rfl, rfl, rfl⟩⟩
      | true =>
          cases hbody : rt.fromSlice a.body with
          | error e => exact .inr ⟨rfl, rfl, .inr ⟨rfl, .inl ⟨rfl, rfl⟩⟩⟩
          | ok req => exact .inr ⟨rfl, rfl, .inr ⟨rfl, .inr ⟨req, rfl, rfl⟩⟩⟩

/-- What is dispatched for an arrival has its credential, and a token. -/
theorem dispatched_length_le (rt : Runtime) (config : Config) (limiter : Option TokenBucket) (a : Arrival) :
    (served rt config limiter a).dispatched.length ≤
      if authorized config a.headers = true ∧ (acquireToken limiter a.now).1 = true then 1 else 0 := by
  rcases served_cases rt config limiter a with
    ⟨-, -, -, hnone⟩ | ⟨hauth, -, ⟨-, -, hnone⟩ | ⟨hadmitted, ⟨-, hnone⟩ | ⟨req, -, hone⟩⟩⟩
  · rw [hnone]
    exact Nat.zero_le _
  · rw [hnone]
    exact Nat.zero_le _
  · rw [hnone]
    exact Nat.zero_le _
  · rw [hone, if_pos ⟨hauth, hadmitted⟩]
    exact Nat.le_refl 1

/-! ## The limiter is the bucket -/

/-- The calls of the limiter that some arrivals make: one for each that passes the auth check. -/
def limiterCalls (config : Config) (arrivals : List Arrival) : List TokenBucket.Call :=
  (arrivals.filter fun a => authorized config a.headers).map fun a => ⟨0, a.now⟩

theorem limiterCalls_cons (a : Arrival) (arrivals : List Arrival) :
    limiterCalls config (a :: arrivals) =
      if authorized config a.headers then ⟨0, a.now⟩ :: limiterCalls config arrivals else limiterCalls config arrivals := by
  unfold limiterCalls
  rw [List.filter_cons]
  split
  · rfl
  · rfl

/-- What the endpoint does with some arrivals, from a limiter. -/
def outcomes (rt : Runtime) (config : Config) (limiter : Option TokenBucket) (arrivals : List Arrival) :
    List (Arrival × Served) :=
  (endpoint rt config).trace (served rt config) limiter arrivals

theorem outcomes_cons (limiter : Option TokenBucket) (a : Arrival) (arrivals : List Arrival) :
    outcomes rt config limiter (a :: arrivals) =
      (a, served rt config limiter a) :: outcomes rt config (served rt config limiter a).rateLimiter arrivals :=
  Machine.trace_cons (M := endpoint rt config) rfl arrivals

/-- The requests dispatched for the arrivals in a window of time. -/
def dispatchedIn (outs : List (Arrival × Served)) (s t : Rat) : List JsonRpcRequest :=
  (outs.filter fun o => s ≤ o.1.now ∧ o.1.now ≤ t).flatMap fun o => o.2.dispatched

theorem dispatchedIn_cons (o : Arrival × Served) (outs : List (Arrival × Served)) (s t : Rat) :
    dispatchedIn (o :: outs) s t =
      (if s ≤ o.1.now ∧ o.1.now ≤ t then o.2.dispatched else []) ++ dispatchedIn outs s t := by
  unfold dispatchedIn
  rw [List.filter_cons]
  by_cases hwin : s ≤ o.1.now ∧ o.1.now ≤ t
  · rw [if_pos hwin, if_pos (decide_eq_true hwin), List.flatMap_cons]
  · rw [if_neg hwin, if_neg (by rw [decide_eq_true_eq]; exact hwin), List.nil_append]

variable {q : Rat} {b : TokenBucket}

/-- Arrivals at instants that do not decrease, from the one of the bucket on. -/
def Serial (t₀ : Rat) (arrivals : List Arrival) : Prop := (t₀ :: arrivals.map Arrival.now).IsChain (· ≤ ·)

theorem Serial.pairwise {t₀ : Rat} {arrivals : List Arrival} (h : Serial t₀ arrivals) :
    (∀ a ∈ arrivals, t₀ ≤ a.now) ∧ arrivals.Pairwise fun a a' => a.now ≤ a'.now := by
  have hpairwise := List.pairwise_cons.mp (List.isChain_iff_pairwise.mp h)
  exact ⟨fun a ha => hpairwise.1 a.now (List.mem_map_of_mem ha), List.pairwise_map.mp hpairwise.2⟩

/-- The calls of the limiter are serial if the arrivals are. -/
theorem Serial.limiterCalls (config : Config) {t₀ : Rat} {arrivals : List Arrival} (h : Serial t₀ arrivals) :
    (t₀ :: (limiterCalls config arrivals).map TokenBucket.Call.now).IsChain (· ≤ ·) := by
  obtain ⟨hstart, hpairwise⟩ := h.pairwise
  rw [List.isChain_iff_pairwise, List.pairwise_cons]
  unfold Http.limiterCalls
  rw [List.map_map]
  constructor
  · intro t ht
    obtain ⟨a, ha, rfl⟩ := List.mem_map.mp ht
    exact hstart a (List.mem_of_mem_filter ha)
  · exact List.pairwise_map.mpr (hpairwise.filter _)

/-- **The endpoint simulates the bucket.** After some arrivals its limiter is the bucket after the calls they make. -/
theorem endpoint_exec {b' : TokenBucket} {arrivals : List Arrival}
    (h : TokenBucket.calls.exec b (limiterCalls config arrivals) = some b') :
    (endpoint rt config).exec (some b) arrivals = some (some b') := by
  induction arrivals generalizing b with
  | nil =>
      obtain rfl := Option.some.inj h
      rfl
  | cons a arrivals ih =>
      show (endpoint rt config).exec (served rt config (some b) a).rateLimiter arrivals = _
      rcases served_cases rt config (some b) a with ⟨hauth, -, hsame, -⟩ | ⟨hauth, hasked, -⟩
      · rw [limiterCalls_cons, hauth, if_neg Bool.false_ne_true] at h
        rw [hsame]
        exact ih h
      · rw [limiterCalls_cons, hauth, if_pos rfl] at h
        rw [hasked]
        obtain ⟨m, hnext, hrest⟩ := Option.bind_eq_some_iff.mp h
        obtain ⟨-, rfl⟩ := TokenBucket.next_eq_some_iff.mp hnext
        exact ih hrest

/-- What is dispatched in a window is admitted by the bucket in that window. -/
theorem dispatchedIn_le_countIn {b' : TokenBucket} {arrivals : List Arrival} (s t : Rat)
    (h : TokenBucket.calls.exec b (limiterCalls config arrivals) = some b') :
    ((dispatchedIn (outcomes rt config (some b) arrivals) s t).length : Rat) ≤
      TokenBucket.calls.countIn b (limiterCalls config arrivals) s t := by
  induction arrivals generalizing b with
  | nil => exact le_refl _
  | cons a arrivals ih =>
      rw [outcomes_cons, dispatchedIn_cons, List.length_append, limiterCalls_cons]
      rw [limiterCalls_cons] at h
      rcases served_cases rt config (some b) a with ⟨hauth, -, hsame, hnone⟩ | ⟨hauth, hasked, -⟩
      · rw [hauth, if_neg Bool.false_ne_true] at h ⊢
        rw [hsame, hnone, ite_self, List.length_nil, Nat.zero_add]
        exact ih h
      · rw [hauth, if_pos rfl] at h ⊢
        obtain ⟨m, hnext, hrun⟩ := Option.bind_eq_some_iff.mp h
        rw [hasked, Meter.countIn_cons hnext]
        obtain ⟨-, rfl⟩ := TokenBucket.next_eq_some_iff.mp hnext
        -- the arrival adds no more to what is dispatched than its call to what is admitted
        have hcost : ((served rt config (some b) a).dispatched.length : Rat) ≤ TokenBucket.calls.cost b ⟨0, a.now⟩ := by
          have hle := dispatched_length_le rt config (some b) a
          show _ ≤ if (b.tryAcquire a.now).1 = true then (1 : Rat) else 0
          by_cases hadmitted : (b.tryAcquire a.now).1 = true
          · rw [if_pos ⟨hauth, hadmitted⟩] at hle
            rw [if_pos hadmitted]
            exact_mod_cast hle
          · rw [if_neg fun hboth => hadmitted hboth.2] at hle
            rw [if_neg hadmitted]
            exact_mod_cast hle
        rw [Nat.cast_add]
        refine add_le_add ?_ (ih hrun)
        show _ ≤ if s ≤ a.now ∧ a.now ≤ t then _ else (0 : Rat)
        by_cases hwin : s ≤ a.now ∧ a.now ≤ t
        · rw [if_pos hwin, if_pos hwin]
          exact hcost
        · rw [if_neg hwin, if_neg hwin]
          exact le_refl _

theorem limiterCalls_append (arrivals arrivals' : List Arrival) :
    limiterCalls config (arrivals ++ arrivals') = limiterCalls config arrivals ++ limiterCalls config arrivals' := by
  unfold limiterCalls
  rw [List.filter_append, List.map_append]

/-! ## The endpoint of a server -/

/-- What the endpoint does with all arrivals, from the limiter it starts with. -/
def endpointRun (rt : Runtime) (config : Config) (t₀ : Rat) (arrivals : List Arrival) : List (Arrival × Served) :=
  outcomes rt config (newRateLimiter config t₀) arrivals

theorem newRateLimiter_of_pos {t₀ : Rat} (hrate : config.server.rateLimit = .finite q) (hq : 0 < q) :
    newRateLimiter config t₀ = some (TokenBucket.new t₀ q) := by
  unfold newRateLimiter
  rw [hrate]
  exact if_pos hq

/-- Each arrival is answered. -/
theorem outcomes_fst (limiter : Option TokenBucket) (arrivals : List Arrival) :
    (outcomes rt config limiter arrivals).map Prod.fst = arrivals := by
  induction arrivals generalizing limiter with
  | nil => rfl
  | cons a arrivals ih =>
      rw [outcomes_cons, List.map_cons]
      exact congrArg (a :: ·) (ih _)

/-- What is dispatched had the credential. -/
theorem authorized_of_dispatched {limiter : Option TokenBucket} {arrivals : List Arrival} {o : Arrival × Served}
    (ho : o ∈ outcomes rt config limiter arrivals) (hdispatched : o.2.dispatched ≠ []) :
    authorized config o.1.headers = true := by
  induction arrivals generalizing limiter with
  | nil => exact absurd ho List.not_mem_nil
  | cons a arrivals ih =>
      rw [outcomes_cons] at ho
      rcases List.mem_cons.mp ho with rfl | ho
      · rcases served_cases rt config limiter a with ⟨-, -, -, hnone⟩ | ⟨hauth, -⟩
        · exact absurd hnone hdispatched
        · exact hauth
      · exact ih ho

/-- **Dispatches in a window.** -/
theorem length_dispatchedIn_le {t₀ s t : Rat} {arrivals : List Arrival} (hrate : config.server.rateLimit = .finite q)
    (hq : 0 < q) (hserial : Serial t₀ arrivals) (hst : s ≤ t) :
    ((dispatchedIn (endpointRun rt config t₀ arrivals) s t).length : Rat) ≤ max q 1 + q * (t - s) := by
  have hnew := TokenBucket.inv_new hq t₀
  obtain ⟨b, hrun⟩ := TokenBucket.exec_of_serial hnew (hserial.limiterCalls config)
  unfold endpointRun
  rw [newRateLimiter_of_pos hrate hq]
  exact le_trans (dispatchedIn_le_countIn s t hrun) ((TokenBucket.potential hq).countIn_le hnew hst hrun)

/-- **Who keeps to the rate is served.** An arrival that comes at least `1 / q` after every one before it that has the
    credential is not throttled. -/
theorem not_throttled {t₀ : Rat} {before after : List Arrival} {a : Arrival} (hrate : config.server.rateLimit = .finite q)
    (hq : 0 < q) (hserial : Serial t₀ (before ++ a :: after)) (hauth : authorized config a.headers = true)
    (hspaced : ∀ c ∈ before, authorized config c.headers = true → c.now + 1 / q ≤ a.now) :
    ∃ o rest, endpointRun rt config t₀ (before ++ a :: after) = endpointRun rt config t₀ before ++ (a, o) :: rest ∧
      o.response.status ≠ 429 := by
  have hnew := TokenBucket.inv_new hq t₀
  obtain ⟨b, hrun⟩ := TokenBucket.exec_of_serial hnew (hserial.limiterCalls config)
  have hcalls : limiterCalls config (before ++ a :: after) =
      (limiterCalls config before ++ [⟨0, a.now⟩]) ++ limiterCalls config after := by
    rw [limiterCalls_append, limiterCalls_cons, hauth, if_pos rfl, List.append_assoc, List.singleton_append]
  rw [hcalls, Machine.exec_append] at hrun
  obtain ⟨b', hrun, -⟩ := Option.bind_eq_some_iff.mp hrun
  have hchain : ((limiterCalls config before).getLast?.toList ++ [(⟨0, a.now⟩ : TokenBucket.Call)]).IsChain
      (fun c d => 1 / q ≤ d.now - c.now) := by
    cases hlast : (limiterCalls config before).getLast? with
    | none => exact List.isChain_singleton _
    | some c =>
        obtain ⟨d, hd, rfl⟩ := List.mem_map.mp (List.mem_of_getLast? hlast)
        have hgap := hspaced d (List.mem_of_mem_filter hd) (List.mem_filter.mp hd).2
        refine List.isChain_pair.mpr ?_
        show 1 / q ≤ a.now - d.now
        linarith
  obtain ⟨m, hbefore, hadmitted⟩ := TokenBucket.spaced_calls_admitted hq hrun hchain
  have hadmits : (m.tryAcquire a.now).1 = true := by
    by_contra hrefused
    obtain ⟨m', hm', hnext⟩ := Machine.exec_snoc _ hrun
    obtain rfl : m = m' := Option.some.inj (hbefore.symm.trans hm')
    have hnot : ¬ TokenBucket.calls.admits m ⟨0, a.now⟩ = true := hrefused
    rw [Meter.admitted_cons hnext, if_neg hnot] at hadmitted
    cases hadmitted
  have hlimiter : (endpoint rt config).exec (newRateLimiter config t₀) before = some (some m) := by
    rw [newRateLimiter_of_pos hrate hq]
    exact endpoint_exec hbefore
  refine ⟨served rt config (some m) a, outcomes rt config (served rt config (some m) a).rateLimiter after, ?_, ?_⟩
  · unfold endpointRun outcomes
    rw [Machine.trace_append hlimiter]
    exact congrArg _ (outcomes_cons (some m) a after)
  · rcases served_cases rt config (some m) a with
      ⟨hno, -⟩ | ⟨-, -, ⟨hrefused, -⟩ | ⟨-, ⟨hstatus, -⟩ | ⟨req, hstatus, -⟩⟩⟩
    · rw [hauth] at hno
      cases hno
    · exact absurd (hadmits.symm.trans hrefused) nofun
    · rw [hstatus]
      decide
    · rw [hstatus]
      decide

/-- **What the endpoint lets through.** With a rate limit `q`, for any arrivals, with or without credentials and with any
    bodies: each is answered; what is dispatched had the credential; in every window of time no more is dispatched than `q` times
    its length and a burst of `max q 1`; and a client is not throttled that comes `1 / q` after the others that have the
    credential, whatever comes without. -/
theorem endpoint_lets_through (rt : Runtime) (config : Config) (q t₀ : Rat) (arrivals : List Arrival)
    (hrate : config.server.rateLimit = .finite q) (hq : 0 < q) (hserial : Serial t₀ arrivals) :
    (endpointRun rt config t₀ arrivals).map Prod.fst = arrivals ∧
      (∀ o ∈ endpointRun rt config t₀ arrivals, o.2.dispatched ≠ [] → authorized config o.1.headers = true) ∧
      (∀ s t, s ≤ t → ((dispatchedIn (endpointRun rt config t₀ arrivals) s t).length : Rat) ≤ max q 1 + q * (t - s)) ∧
      ∀ before a after, arrivals = before ++ a :: after → authorized config a.headers = true →
        (∀ c ∈ before, authorized config c.headers = true → c.now + 1 / q ≤ a.now) →
        ∃ o rest, endpointRun rt config t₀ arrivals = endpointRun rt config t₀ before ++ (a, o) :: rest ∧
          o.response.status ≠ 429 := by
  refine ⟨outcomes_fst _ arrivals, fun o ho => authorized_of_dispatched ho,
    fun s t hst => length_dispatchedIn_le hrate hq hserial hst, ?_⟩
  rintro before a after rfl hauth hspaced
  exact not_throttled hrate hq hserial hauth hspaced

/-- The configuration with one request a second. -/
def limited (config : Config) : Config := { config with server := { config.server with rateLimit := .finite 1 } }

/-- A request without a credential, then one with. -/
theorem endpoint_lets_through_flood :
    ∃ o rest, endpointRun pingRuntime (limited tokenConfig) 0
        [⟨1, [], bytes (pingText none), fun _ => .elapsed⟩,
          ⟨2, [("authorization", bytes "Bearer secret123")], bytes (pingText none), fun _ => .elapsed⟩] =
        endpointRun pingRuntime (limited tokenConfig) 0 [⟨1, [], bytes (pingText none), fun _ => .elapsed⟩] ++
          (⟨2, [("authorization", bytes "Bearer secret123")], bytes (pingText none), fun _ => .elapsed⟩, o) :: rest ∧
      o.response.status ≠ 429 := by
  refine (endpoint_lets_through pingRuntime (limited tokenConfig) 1 0 _ rfl (by norm_num) ?_).2.2.2
    [⟨1, [], bytes (pingText none), fun _ => .elapsed⟩] _ [] rfl (by decide) ?_
  · simp [Serial]
  · intro c hc hauth
    obtain rfl := List.mem_singleton.mp hc
    exact absurd hauth (by decide)

/-! ## What clients can make the server send -/

/-- The most that one request can make the server send: a search, and a page for each URL. -/
def requestCap (config : Config) : Nat := 1 + max 10 config.server.maxExtractUrls * (config.maxRedirects + 1)

theorem requestBudget_le (config : Config) (tool : Tool) : requestBudget config tool ≤ requestCap config := by
  have hten : 1 + 10 * (config.maxRedirects + 1) ≤ requestCap config :=
    Nat.add_le_add_left (Nat.mul_le_mul_right _ (Nat.le_max_left _ _)) 1
  have hurls : config.server.maxExtractUrls * (config.maxRedirects + 1) ≤ requestCap config :=
    Nat.le_trans (Nat.mul_le_mul_right _ (Nat.le_max_right _ _)) (Nat.le_add_left _ 1)
  cases tool with
  | webScrape | webFetch | webFetchText | webFetchHeaders | webSitemap =>
      refine Nat.le_trans ?_ hten
      show config.maxRedirects + 1 ≤ 1 + 10 * (config.maxRedirects + 1)
      omega
  | webMap =>
      refine Nat.le_trans ?_ hten
      show 2 * (config.maxRedirects + 1) ≤ 1 + 10 * (config.maxRedirects + 1)
      omega
  | webExtract => exact hurls
  | webCheckLinks => exact Nat.le_trans (Nat.le_mul_of_pos_right _ (Nat.succ_pos _)) hurls
  | webSearchScrape => exact hten
  | webSearch => exact Nat.le_add_right 1 _
  | browserScrape | browserScreenshot => exact Nat.zero_le _

/-- A request runs one handler at most. -/
theorem requests_le (h : Handlers) (config : Config) (req : JsonRpcRequest) :
    ((processRequest h config req).2.map (requestBudget config)).sum ≤ requestCap config := by
  cases htools : (processRequest h config req).2 with
  | nil => exact Nat.zero_le _
  | cons tool tools =>
      have hmem : tool ∈ (processRequest h config req).2 := htools ▸ List.mem_cons_self
      have hone := (handlers_of_request hmem).2.1
      rw [htools] at hone
      rw [hone, List.map_singleton, List.sum_singleton]
      exact requestBudget_le config tool

/-- **What clients can make the server send.** With a rate limit `q`, whoever calls the endpoint, with or without credentials, and
    whatever the bodies: the requests dispatched in a window of time make the server send no more than `q` times its length and the
    burst, times what one request may cost, however the tasks of the calls take turns and are cut off. -/
theorem clients_budget (rt : Runtime) (h : Handlers) (libs : Libraries) (config : Config) (q t₀ s t : Rat)
    (arrivals : List Arrival) (hrate : config.server.rateLimit = .finite q) (hq : 0 < q) (hserial : Serial t₀ arrivals)
    (hst : s ≤ t) (calls : List Server.Call)
    (hcalls : calls.map Server.Call.req = dispatchedIn (endpointRun rt config t₀ arrivals) s t)
    (trace : List (Nat × Outgoing)) (htraffic : Traffic h libs config calls trace) :
    (trace.countP (fun x => x.2.isRequest) : Rat) ≤ (max q 1 + q * (t - s)) * requestCap config := by
  have hdispatched := @length_dispatchedIn_le rt config q t₀ s t arrivals hrate hq hserial hst
  have hlength : calls.length = (dispatchedIn (endpointRun rt config t₀ arrivals) s t).length := by
    rw [← hcalls, List.length_map]
  have hsum : (calls.map fun c => ((processRequest h config c.req).2.map (requestBudget config)).sum).sum ≤
      calls.length * requestCap config := by
    have hle := List.sum_le_card_nsmul (calls.map fun c => ((processRequest h config c.req).2.map (requestBudget config)).sum)
      (requestCap config) (List.forall_mem_map.mpr fun c _ => requests_le h config c.req)
    rwa [List.length_map, Nat.nsmul_eq_mul] at hle
  have hcount : trace.countP (fun x => x.2.isRequest) ≤ calls.length * requestCap config :=
    Nat.le_trans (htraffic.countP_le fun _ _ tool => (budgeted_tasks tool).requests) hsum
  calc (trace.countP (fun x => x.2.isRequest) : Rat) ≤ (calls.length * requestCap config : Nat) := by exact_mod_cast hcount
    _ = (dispatchedIn (endpointRun rt config t₀ arrivals) s t).length * requestCap config := by rw [hlength, Nat.cast_mul]
    _ ≤ (max q 1 + q * (t - s)) * requestCap config := mul_le_mul_of_nonneg_right hdispatched (Nat.cast_nonneg _)

/-- One client that has a page fetched. -/
theorem clients_budget_redirect :
    ((((fetchPage redirectNet (limited stalledConfig) "http://example.com/" World.initial).2.trace.map Outgoing.net).map
      (Prod.mk 0)).countP (fun x : Nat × Outgoing => x.2.isRequest) : Rat) ≤ (max 1 1 + 1 * (1 - 0)) * requestCap (limited stalledConfig) := by
  refine clients_budget { pingRuntime with fromSlice := fun _ => .ok redirectCall.req } stalledHandlers emptyLibraries
    (limited stalledConfig) 1 0 0 1 [⟨0, [], [], fun _ => .elapsed⟩] rfl (by norm_num) ?_ (by norm_num) [redirectCall] ?_ _
    (Interleave.of_single _)
  · simp [Serial]
  · have hadmitted : (acquireToken (some (TokenBucket.new 0 1)) 0).1 = true := by
      simp [acquireToken, TokenBucket.tryAcquire, TokenBucket.new]
    unfold endpointRun
    rw [newRateLimiter_of_pos rfl one_pos, outcomes_cons, dispatchedIn_cons, if_pos (by norm_num)]
    unfold served handleRpc
    dsimp only
    rw [hadmitted]
    rfl

end Http
end McpWebSearch
