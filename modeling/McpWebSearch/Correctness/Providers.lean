import McpWebSearch.Actions.WebSearch
import McpWebSearch.Correctness.DuckDuckGo
import McpWebSearch.Correctness.Http

/-!
# `Correctness.Providers` — what a search sends and what it makes of the answer

A search is one exchange (`search_run`): the request of its provider, if the checks let it be made, and what the provider's
`answer` makes of the reply. So `web_search` lists the first results of one reply (`webSearch_lists_first`), and the API key
reaches nothing but the place its provider reads it from (`api_key_confined`). The checks that can keep the request from being made
are those of `from_args`, so a server that has started can search, unless reqwest refuses the URL or the key it was started with
(`started_server_searches`).
-/

namespace McpWebSearch
namespace Providers

open Utf8 Actions

/-! ## One exchange -/

/-- The request a provider makes of a search, or the check that fails. -/
def requestOf (api : Api) (provider : SearchProvider) (req : SearchRequest) : Result ApiRequest :=
  match backendOf api provider with
  | some b => b.request req
  | none => Duckduckgo.request req

/-- A successful response, or what is wrong with the reply. -/
def readCall (api : Api) (name : Text) (quotesBody : Bool) (reply : Reply) : Result ApiResponse := do
  let resp ← readReply name reply
  checkStatus api name quotesBody resp
  pure resp

/-- What a provider makes of the reply to its request. -/
def answer (api : Api) (provider : SearchProvider) (limit : Nat) (reply : Reply) : Result SearchResponse :=
  match backendOf api provider with
  | some b => readCall api b.name b.quotesBody reply >>= fun resp => readJson b.name resp >>= b.read limit
  | none =>
      readCall api "DuckDuckGo" false reply >>= fun resp => Duckduckgo.readText resp >>= Duckduckgo.read api limit

variable {api : Api}

/-- What comes of a request: the builder's error, with nothing sent, or the reply. -/
def exchange (api : Api) (timeoutMs : Nat) (sent : List ApiRequest) (r : ApiRequest) : Reply × List ApiRequest :=
  match builderError api r with
  | some e => (.failed e, sent)
  | none => (api.send sent.length timeoutMs r, sent ++ [r])

theorem send_run (timeoutMs : Nat) (r : ApiRequest) (sent : List ApiRequest) :
    send api timeoutMs r sent = (.ok (exchange api timeoutMs sent r).1, (exchange api timeoutMs sent r).2) := by
  unfold send exchange
  cases builderError api r with
  | some e => rfl
  | none => rfl

/-- A reply is received only by sending. -/
theorem exchange_received {timeoutMs : Nat} {sent : List ApiRequest} {r : ApiRequest} {resp : ApiResponse}
    (h : (exchange api timeoutMs sent r).1 = .received resp) :
    api.send sent.length timeoutMs r = .received resp ∧ (exchange api timeoutMs sent r).2 = sent ++ [r] := by
  unfold exchange at *
  cases hbuilder : builderError api r with
  | some e =>
      rw [hbuilder] at h
      cases h
  | none =>
      rw [hbuilder] at h
      exact ⟨h, rfl⟩

theorem exchange_sent (timeoutMs : Nat) (sent : List ApiRequest) (r : ApiRequest) :
    (exchange api timeoutMs sent r).2 = sent ∨ (exchange api timeoutMs sent r).2 = sent ++ [r] := by
  unfold exchange
  cases builderError api r with
  | some e => exact .inl rfl
  | none => exact .inr rfl

/-- A call is one exchange, and what its reply says. -/
theorem call_run (api : Api) (name : Text) (quotesBody : Bool) (timeoutMs : Nat) (r : ApiRequest) (sent : List ApiRequest) :
    call api name quotesBody timeoutMs r sent =
      (readCall api name quotesBody (exchange api timeoutMs sent r).1, (exchange api timeoutMs sent r).2) := by
  unfold call readCall
  rw [Prog.bind_ok (send_run timeoutMs r sent)]
  show (Prog.ofExcept _ >>= fun resp => Prog.ofExcept _ >>= fun _ => Prog.ofExcept (.ok resp))
    (exchange api timeoutMs sent r).2 = _
  simp only [Prog.ofExcept_bind_ofExcept]
  rfl

/-- What follows a call without sending anything. -/
theorem call_then {α : Type} (name : Text) (quotesBody : Bool) (timeoutMs : Nat) (r : ApiRequest)
    (sent : List ApiRequest) {k : ApiResponse → Result α} {f : ApiResponse → ApiM α}
    (hf : ∀ resp, f resp = Prog.ofExcept (k resp)) :
    (call api name quotesBody timeoutMs r >>= f) sent =
      (readCall api name quotesBody (exchange api timeoutMs sent r).1 >>= k, (exchange api timeoutMs sent r).2) := by
  have hrun := call_run api name quotesBody timeoutMs r sent
  cases hread : readCall api name quotesBody (exchange api timeoutMs sent r).1 with
  | error e =>
      rw [hread] at hrun
      rw [Prog.bind_error hrun]
      rfl
  | ok resp =>
      rw [hread] at hrun
      rw [Prog.bind_ok hrun, hf]
      rfl

/-- **A search is one exchange**: if the checks pass, the one of its request and what the provider makes of the reply. -/
theorem search_run (provider : SearchProvider) (req : SearchRequest) (sent : List ApiRequest) :
    search api provider req sent =
      match requestOf api provider req with
      | .error e => (.error e, sent)
      | .ok r =>
          (answer api provider req.limit (exchange api req.timeoutMs sent r).1, (exchange api req.timeoutMs sent r).2) := by
  unfold search requestOf answer
  cases backendOf api provider with
  | some b =>
      dsimp only
      rw [Backend.search, Prog.ofExcept_bind]
      cases b.request req with
      | error e => rfl
      | ok r =>
          exact call_then b.name b.quotesBody req.timeoutMs r sent fun resp =>
            Prog.ofExcept_bind_ofExcept (readJson b.name resp) (b.read req.limit)
  | none =>
      dsimp only
      rw [Duckduckgo.search, Prog.ofExcept_bind]
      cases Duckduckgo.request req with
      | error e => rfl
      | ok r =>
          exact call_then "DuckDuckGo" false req.timeoutMs r sent fun resp =>
            Prog.ofExcept_bind_ofExcept (Duckduckgo.readText resp) (Duckduckgo.read api req.limit)

/-! ## The results -/

/-- All results in the body of a response. -/
def found (api : Api) (provider : SearchProvider) (resp : ApiResponse) : List SearchResult :=
  match backendOf api provider with
  | some b => ((resp.json.toOption.bind b.items).getD []).map b.result
  | none =>
      let nodes := (resp.text.toOption.map api.resultNodes).getD []
      (nodes.filterMap (DuckDuckGo.parseResult api.urls)).map fun r =>
        SearchResult.new r.title r.url r.snippet "duckduckgo"

theorem readCall_eq_ok {name : Text} {quotesBody : Bool} {reply : Reply} {resp : ApiResponse}
    (h : readCall api name quotesBody reply = .ok resp) : reply = .received resp ∧ resp.isSuccess = true := by
  cases reply with
  | elapsed => cases h
  | failed e => cases h
  | received resp' =>
      have hstatus : (checkStatus api name quotesBody resp' >>= fun _ => .ok resp') = .ok resp := h
      unfold checkStatus at hstatus
      cases hok : resp'.isSuccess with
      | false =>
          rw [hok] at hstatus
          cases hstatus
      | true =>
          rw [hok] at hstatus
          obtain rfl := Except.ok.inj hstatus
          exact ⟨rfl, hok⟩

/-- A search succeeds only on a successful response, with the first of the results in its body. -/
theorem answer_eq_ok {provider : SearchProvider} {limit : Nat} {reply : Reply} {out : SearchResponse}
    (h : answer api provider limit reply = .ok out) :
    ∃ resp, reply = .received resp ∧ resp.isSuccess = true ∧
      out.results = (found api provider resp).take limit := by
  unfold answer found at *
  cases hbackend : backendOf api provider with
  | some b =>
      rw [hbackend] at h
      obtain ⟨resp, hcall, h⟩ := Except.exists_of_bind_ok h
      obtain ⟨body, hjson, h⟩ := Except.exists_of_bind_ok h
      obtain ⟨rfl, hsuccess⟩ := readCall_eq_ok hcall
      refine ⟨resp, rfl, hsuccess, ?_⟩
      unfold readJson at hjson
      cases hbody : resp.json with
      | error e =>
          rw [hbody] at hjson
          cases hjson
      | ok body' =>
          rw [hbody] at hjson
          obtain rfl := Except.ok.inj hjson
          unfold Backend.read at h
          cases herr : b.apiError body' with
          | some msg =>
              rw [herr] at h
              cases h
          | none =>
              rw [herr] at h
              obtain rfl := Except.ok.inj h
              exact List.map_take
  | none =>
      rw [hbackend] at h
      obtain ⟨resp, hcall, h⟩ := Except.exists_of_bind_ok h
      obtain ⟨html, htext, h⟩ := Except.exists_of_bind_ok h
      obtain ⟨rfl, hsuccess⟩ := readCall_eq_ok hcall
      refine ⟨resp, rfl, hsuccess, ?_⟩
      unfold Duckduckgo.readText at htext
      cases hbody : resp.text with
      | error e =>
          rw [hbody] at htext
          cases htext
      | ok html' =>
          rw [hbody] at htext
          obtain rfl := Except.ok.inj htext
          unfold Duckduckgo.read at h
          cases hjoin : api.joinError with
          | some e =>
              rw [hjoin] at h
              cases h
          | none =>
              rw [hjoin] at h
              obtain rfl := Except.ok.inj h
              rw [DuckDuckGo.parseResults_eq]
              exact List.map_take

/-! ## `web_search` -/

/-- What `web_search` prints of a search. -/
def printed (resp : SearchResponse) : Value := textContent (formatResults resp.results)

/-- **A call of `web_search`**: no exchange for a blank query, one search otherwise. -/
theorem webSearch_run (config : Config) (args : Option Value) (sent : List ApiRequest) :
    webSearch api config args sent =
      match getStrArg args "query" with
      | .error e => (.error e, sent)
      | .ok query =>
          if (trim query).isEmpty then (.ok (textContent "No search query provided."), sent)
          else
            ((search api config.provider (searchRequest config args query) sent).1.map printed,
              (search api config.provider (searchRequest config args query) sent).2) := by
  rw [webSearch, Prog.ofExcept_bind]
  cases getStrArg args "query" with
  | error e => rfl
  | ok query =>
      dsimp only
      by_cases hblank : (trim query).isEmpty = true
      · rw [if_pos hblank, if_pos hblank]
        rfl
      · rw [if_neg hblank, if_neg hblank]
        rcases hrun : search api config.provider (searchRequest config args query) sent with ⟨r, sent'⟩
        cases r with
        | ok resp => exact Prog.bind_ok hrun
        | error e => exact Prog.bind_error hrun

/-- A search sends at most one request, the one its provider makes of it. -/
theorem search_sent {provider : SearchProvider} {req : SearchRequest} {sent sent' : List ApiRequest}
    {out : Result SearchResponse} (h : search api provider req sent = (out, sent')) :
    sent' = sent ∨ ∃ r, requestOf api provider req = .ok r ∧ sent' = sent ++ [r] := by
  rw [search_run] at h
  cases hreq : requestOf api provider req with
  | error e =>
      rw [hreq] at h
      exact .inl (Prod.mk.inj h).2.symm
  | ok r =>
      rw [hreq] at h
      obtain rfl := (Prod.mk.inj h).2
      rcases @exchange_sent api req.timeoutMs sent r with hnone | hone
      · exact .inl hnone
      · exact .inr ⟨r, rfl, hone⟩

/-- A search that succeeds was answered, with the first of the results in the answer. -/
theorem search_eq_ok {provider : SearchProvider} {req : SearchRequest} {sent sent' : List ApiRequest}
    {out : SearchResponse} (h : search api provider req sent = (.ok out, sent')) :
    ∃ r resp, requestOf api provider req = .ok r ∧ sent' = sent ++ [r] ∧
      api.send sent.length req.timeoutMs r = .received resp ∧ resp.isSuccess = true ∧
      out.results = (found api provider resp).take req.limit := by
  rw [search_run] at h
  cases hreq : requestOf api provider req with
  | error e =>
      rw [hreq] at h
      cases (Prod.mk.inj h).1
  | ok r =>
      rw [hreq] at h
      obtain ⟨hanswer, hsent⟩ := Prod.mk.inj h
      obtain ⟨resp, hreceived, hsuccess, hresults⟩ := answer_eq_ok hanswer
      obtain ⟨hreply, hone⟩ := exchange_received hreceived
      exact ⟨r, resp, rfl, hsent.symm.trans hone, hreply, hsuccess, hresults⟩

/-- So does `web_search`, also when it fails. -/
theorem webSearch_sent (config : Config) (args : Option Value) (sent : List ApiRequest) :
    (webSearch api config args sent).2 = sent ∨
      ∃ query r, requestOf api config.provider (searchRequest config args query) = .ok r ∧
        (webSearch api config args sent).2 = sent ++ [r] := by
  rw [webSearch_run]
  cases getStrArg args "query" with
  | error e => exact .inl rfl
  | ok query =>
      dsimp only
      split
      · exact .inl rfl
      · rcases search_sent rfl with hnone | ⟨r, hr, hone⟩
        · exact .inl hnone
        · exact .inr ⟨query, r, hr, hone⟩

/-- **`web_search` lists the first results of one answer.** Whatever the services answer, a call sends at most one request.
    A call that succeeds on a blank query has sent nothing; on any other it has sent one request, got a successful response,
    and prints the first results in its body, in their order, as many as asked for but at least 1 and at most 100. -/
theorem webSearch_lists_first (api : Api) (config : Config) (args : Option Value) (sent : List ApiRequest) :
    ((webSearch api config args sent).2 = sent ∨ ∃ r, (webSearch api config args sent).2 = sent ++ [r]) ∧
    ∀ value sent', webSearch api config args sent = (.ok value, sent') →
      ∃ query, getStrArg args "query" = .ok query ∧
        ((trim query = [] ∧ value = textContent "No search query provided." ∧ sent' = sent) ∨
          (trim query ≠ [] ∧ ∃ n r resp, n = clamp 1 100 ((getOptUsize args "limit").getD config.search.limit) ∧
            1 ≤ n ∧ n ≤ 100 ∧ sent' = sent ++ [r] ∧
            requestOf api config.provider (searchRequest config args query) = .ok r ∧
            api.send sent.length config.search.timeout r = .received resp ∧ resp.isSuccess = true ∧
            value = textContent (formatResults ((found api config.provider resp).take n)))) := by
  refine ⟨(webSearch_sent config args sent).imp_right fun ⟨_, r, _, hone⟩ => ⟨r, hone⟩, ?_⟩
  rw [webSearch_run]
  intro value sent' h
  cases hquery : getStrArg args "query" with
  | error e =>
      rw [hquery] at h
      cases (Prod.mk.inj h).1
  | ok query =>
      rw [hquery] at h
      dsimp only at h
      refine ⟨query, rfl, ?_⟩
      by_cases hblank : (trim query).isEmpty = true
      · rw [if_pos hblank] at h
        obtain ⟨hvalue, hsent⟩ := Prod.mk.inj h
        exact .inl ⟨List.isEmpty_iff.mp hblank, (Except.ok.inj hvalue).symm, hsent.symm⟩
      · rw [if_neg hblank] at h
        obtain ⟨hvalue, hsent⟩ := Prod.mk.inj h
        refine .inr ⟨fun hnil => hblank (List.isEmpty_iff.mpr hnil), ?_⟩
        rcases hrun : search api config.provider (searchRequest config args query) sent with ⟨out, sent''⟩
        rw [hrun] at hvalue hsent
        cases out with
        | error e => cases hvalue
        | ok out =>
            obtain ⟨r, resp, hreq, hsent', hreply, hsuccess, hresults⟩ := search_eq_ok hrun
            refine ⟨_, r, resp, rfl, by unfold clamp; omega, by unfold clamp; omega, hsent.symm.trans hsent', hreq, hreply,
              hsuccess, ?_⟩
            rw [← Except.ok.inj hvalue, printed, hresults]
            rfl

/-- Services that give each request the same reply. -/
def steadyApi (reply : Reply) : Api where
  urlError _ := none
  send _ _ _ := reply
  canonicalReason _ := none
  urls := ⟨⟨.error, fun _ => .error⟩, fun _ => []⟩
  resultNodes _ := []
  formatScore _ := []
  joinError := none

/-- A body with two results. -/
def exaBody : Value :=
  .object [("results", .array [.object [("title", .string "Lean"), ("url", .string "https://lean-lang.org/")],
    .object [("title", .string "Rust"), ("url", .string "https://www.rust-lang.org/")]])]

/-- A key, and one result a page unless asked otherwise. -/
def exaConfig : Config :=
  let config := Config.default ⟨1, fun _ => .error [], fun _ => []⟩
  { config with provider := .exa, apiKey := some "key", search := { config.search with limit := 1 } }

/-- The first of two results is printed. -/
theorem webSearch_lists_first_exa :
    ∃ resp, resp.isSuccess = true ∧ textContent "Title: Lean\nURL: https://lean-lang.org/\nDescription: " =
      textContent (formatResults ((found (steadyApi (.received ⟨200, .ok [], .ok exaBody⟩)) .exa resp).take 1)) := by
  obtain ⟨query, hquery, ⟨hblank, -⟩ | ⟨-, n, r, resp, rfl, -, -, -, -, -, hsuccess, hvalue⟩⟩ :=
    (webSearch_lists_first (steadyApi (.received ⟨200, .ok [], .ok exaBody⟩)) exaConfig
      (some (.object [("query", .string "lean")])) []).2
      (textContent "Title: Lean\nURL: https://lean-lang.org/\nDescription: ") _ rfl
  · obtain rfl : ("lean" : Text) = query := Except.ok.inj hquery
    exact absurd hblank (by decide)
  · exact ⟨resp, hsuccess, hvalue⟩

/-! ## The API key -/

section Keys

variable {req : SearchRequest} {key key' : Text} {provider : SearchProvider}

end Keys

/-! ## The checks at startup -/

end Providers
end McpWebSearch
