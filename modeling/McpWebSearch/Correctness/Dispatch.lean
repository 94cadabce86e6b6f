import McpWebSearch.Correctness.Stdio
import McpWebSearch.Dispatch

/-!
# `Correctness.Dispatch` — how a `tools/call` is classified

Three tables name the tools: `ALL_TOOLS` (the category gate), `tools.json` (what `tools/list` serves) and the
handler table of the dispatcher. `mem_listedNames_iff` ties the first two, `exists_handler` the first and the
third; what a handler comes to is content in every case (`response_of_call`). `tools_call_classified` puts them
together.
-/

namespace McpWebSearch
namespace Server

open Utf8

/-! ## The three tables -/

/-- The names in a `tools/list` payload. -/
def listedNames (payload : Value) : List Text :=
  (((payload.get "tools").bind Value.asArray).getD []).filterMap (fun t => (t.get "name").bind Value.asStr)

/-- Every tool of `ALL_TOOLS` is in `tools.json` and in the handler table. -/
theorem allTools_covered : ∀ t ∈ Tools.allTools, t.name ∈ Tools.toolsJson ∧ (toolTable.lookup t.name).isSome := by
  decide

/-- An available tool is one of `ALL_TOOLS`. -/
theorem exists_of_isToolAvailable {name : Text} {enabled : List ToolCategory}
    (h : Tools.isToolAvailable name enabled = true) : ∃ t ∈ Tools.allTools, t.name = name := by
  unfold Tools.isToolAvailable Tools.categoryOf Tools.lookup at h
  cases hfind : Tools.allTools.find? (·.name = name) with
  | none =>
      rw [hfind] at h
      cases h
  | some t => exact ⟨t, List.mem_of_find?_eq_some hfind, by simpa using List.find?_some hfind⟩

/-- An available tool has a handler. -/
theorem exists_handler {name : Text} {enabled : List ToolCategory}
    (h : Tools.isToolAvailable name enabled = true) : ∃ tool, toolTable.lookup name = some tool := by
  obtain ⟨t, ht, rfl⟩ := exists_of_isToolAvailable h
  exact Option.isSome_iff_exists.mp (allTools_covered t ht).2

/-- **The payload lists the available tools**: the filter of `build_tools_list` leaves out a definition exactly
    when the gate would refuse its name. -/
theorem mem_listedNames_iff {details : Text → List (Text × Value)} {enabled : List ToolCategory}
    {name : Text} :
    name ∈ listedNames (Tools.buildToolsList details enabled) ↔ Tools.isToolAvailable name enabled = true := by
  have hname : ∀ n : Text, (Value.object (("name", .string n) :: details n)).get "name" = some (.string n) := by
    intro n
    unfold Value.get
    exact List.lookup_cons_self
  unfold listedNames Tools.buildToolsList Tools.allToolDefs
  show name ∈ List.filterMap _ (List.filter _ _) ↔ _
  rw [List.mem_filterMap]
  constructor
  · rintro ⟨def', hdef, hread⟩
    obtain ⟨hmem, havail⟩ := List.mem_filter.mp hdef
    rw [hread] at havail
    exact havail
  · intro havail
    obtain ⟨t, ht, rfl⟩ := exists_of_isToolAvailable havail
    refine ⟨.object (("name", .string t.name) :: details t.name), List.mem_filter.mpr ⟨?_, ?_⟩, ?_⟩
    · exact List.mem_map.mpr ⟨t.name, (allTools_covered t ht).1, rfl⟩
    · rw [hname]
      exact havail
    · rw [hname]
      rfl

/-! ## Results -/

/-- A value is a tool result: an object with a non-empty content array and a boolean `isError`. -/
def IsToolResult (value : Value) (isError : Bool) : Prop :=
  (∃ entries, value = .object entries) ∧
    (∃ content, content ≠ [] ∧ value.get "content" = some (.array content)) ∧
    value.get "isError" = some (.bool isError)

/-- An outcome is a failure unless it is an `Ok` in time. -/
def Timeout.Failed {α : Type} (r : Timeout (Result α)) : Prop := ∀ a, r ≠ .done (.ok a)

/-- A wrapped `Ok` value was an `Ok` value before. -/
theorem wrap_eq_ok {α : Type} {f : α → Value} {r : Timeout (Result α)} {value : Value}
    (h : r.wrap f = .done (.ok value)) : ∃ a, value = f a := by
  cases r with
  | elapsed => cases h
  | done r =>
      cases r with
      | error e => cases h
      | ok a =>
          cases h
          exact ⟨a, rfl⟩

/-- The `Ok` value of every handler is content and nothing else, and the content is not empty. -/
theorem call_ok {h : Handlers} {args : Option Value} {tool : Tool} {value : Value}
    (hok : h.call args tool = .done (.ok value)) :
    ∃ content, content ≠ [] ∧ value = .object [("content", .array content)] := by
  cases tool with
  | webSearch | webScrape | webMap | webExtract | webFetch | webFetchText | webFetchHeaders
  | webSearchScrape | webSitemap | webCheckLinks =>
      obtain ⟨t, rfl⟩ := wrap_eq_ok hok
      exact ⟨_, List.cons_ne_nil _ _, rfl⟩
  | browserScrape =>
      obtain ⟨blocks, rfl⟩ := wrap_eq_ok hok
      refine ⟨_, ?_, rfl⟩
      -- an empty list of blocks is the one the source puts a block into
      cases blocks with
      | nil => exact List.cons_ne_nil _ _
      | cons b bs => exact List.cons_ne_nil _ _
  | browserScreenshot =>
      obtain ⟨data, rfl⟩ := wrap_eq_ok hok
      exact ⟨_, List.cons_ne_nil _ _, rfl⟩

/-- Content without an `isError` is marked as a success. -/
theorem isToolResult_markSuccess {content : List Value} (hne : content ≠ []) :
    IsToolResult (markSuccess (.object [("content", .array content)])) false :=
  ⟨⟨_, rfl⟩, ⟨content, hne, rfl⟩, rfl⟩

/-- A tool error is a tool result. -/
theorem isToolResult_toolError (message : Text) : IsToolResult (toolError message) true :=
  ⟨⟨_, rfl⟩, ⟨_, List.cons_ne_nil _ _, rfl⟩, rfl⟩

/-- **What the client gets of a handler**: a result, never an error, whose `isError` says whether the handler
    failed or was cut off. -/
theorem response_of_call {h : Handlers} {config : Config} {req : JsonRpcRequest} {args : Option Value}
    {tool : Tool} {p : Process} (hmethod : req.method = "tools/call")
    (hp : p req = wrapResult (h.call args tool)) :
    ∃ value isError, processRequestHttp config p req = .success req.id value ∧
      IsToolResult value isError ∧ (isError = true ↔ (h.call args tool).Failed) := by
  unfold processRequestHttp
  rw [hp]
  cases hcall : h.call args tool with
  | elapsed =>
      refine ⟨_, true, if_pos hmethod, isToolResult_toolError _, ?_⟩
      refine ⟨fun _ a ha => ?_, fun _ => rfl⟩
      cases ha
  | done r =>
      cases r with
      | error e =>
          refine ⟨_, true, rfl, isToolResult_toolError _, ?_⟩
          refine ⟨fun _ a ha => ?_, fun _ => rfl⟩
          cases ha
      | ok value =>
          obtain ⟨content, hne, rfl⟩ := call_ok hcall
          refine ⟨_, false, rfl, isToolResult_markSuccess hne, ?_⟩
          exact ⟨fun hfalse => absurd hfalse (by decide), fun hfailed => absurd rfl (hfailed _)⟩

/-! ## The classification -/

/-- A call that fails with an error of the dispatcher is answered with that error. -/
theorem response_of_error {config : Config} {req : JsonRpcRequest} {p : Process} {e : WebSearchError}
    (hp : p req = .done (.error e)) (hdata : e.errorData = none) :
    processRequestHttp config p req = .failure req.id e.errorCode e.display := by
  unfold processRequestHttp
  rw [hp]
  simp only [hdata]

/-- **The three ways of a `tools/call`**: no name, a name the gate refuses, and a handler. -/
theorem processRequest_call_cases {h : Handlers} {config : Config} {req : JsonRpcRequest}
    (hmethod : req.method = "tools/call") :
    (callName req = none ∧
      processRequest h config req = (.done (.error (.invalidParams "Missing 'name' parameter")), [])) ∨
    (∃ name, callName req = some name ∧
      Tools.isToolAvailable name config.server.enabledCategories = false ∧
      processRequest h config req = (.done (.error (.methodNotFound name)), [])) ∨
    ∃ name tool, callName req = some name ∧
      Tools.isToolAvailable name config.server.enabledCategories = true ∧
      toolTable.lookup name = some tool ∧
      processRequest h config req = (wrapResult (h.call (callArgs req) tool), [tool]) := by
  have hcall : processRequest h config req = handleToolsCall h config req := by
    unfold processRequest
    rw [hmethod, if_neg (by decide), if_neg (by decide), if_pos rfl]
  rw [hcall]
  unfold handleToolsCall
  cases hname : callName req with
  | none => exact .inl ⟨rfl, rfl⟩
  | some name =>
      cases havail : Tools.isToolAvailable name config.server.enabledCategories with
      | false =>
          refine .inr (.inl ⟨name, rfl, havail, ?_⟩)
          simp only [havail, Bool.not_false, if_true]
      | true =>
          obtain ⟨tool, htool⟩ := exists_handler havail
          refine .inr (.inr ⟨name, tool, rfl, havail, htool, ?_⟩)
          simp only [havail, htool, Bool.not_true, Bool.false_eq_true, if_false]

/-- What `tools/list` serves is the list of the configuration. -/
theorem served_list {h : Handlers} {config : Config} {req : JsonRpcRequest} {payload : Value}
    (hmethod : req.method = "tools/list")
    (hserved : processRequestHttp config (requestProcess h config) req = .success req.id payload) :
    payload = config.toolsList := by
  have hp : requestProcess h config req = .done (.ok config.toolsList) := by
    unfold requestProcess processRequest
    rw [hmethod, if_neg (by decide), if_pos rfl]
    rfl
  unfold processRequestHttp at hserved
  rw [hp] at hserved
  exact (Option.some.inj (congrArg JsonRpcResponse.result hserved)).symm

/-- A failure has its own code and no other, and no result. -/
theorem code_of_failure {resp : JsonRpcResponse} {id : Option Value} {code : Int} {message : Text}
    (h : resp = .failure id code message) (c : Int) :
    (∃ err, resp.error = some err ∧ err.code = c) ↔ c = code := by
  rw [h]
  constructor
  · rintro ⟨err, herr, rfl⟩
    cases herr
    rfl
  · rintro rfl
    exact ⟨_, rfl, rfl⟩

/-- A success has no code. -/
theorem no_code_of_success {resp : JsonRpcResponse} {id : Option Value} {value : Value}
    (h : resp = .success id value) (c : Int) : ¬ ∃ err, resp.error = some err ∧ err.code = c := by
  rw [h]
  rintro ⟨err, herr, -⟩
  cases herr

/-- **`tools/call` is classified exactly.** With the tools list built from the enabled categories, a call is
    answered `InvalidParams` exactly when its params have no string `name`, and `MethodNotFound` exactly when
    the name is not in the served list; then nothing runs. Any other call runs one handler and is answered by
    a result, which is an error result exactly when the handler failed or was cut off. Over stdio the response
    is the same. -/
theorem tools_call_classified (details : Text → List (Text × Value)) (config : Config)
    (hlist : config.toolsList = Tools.buildToolsList details config.server.enabledCategories)
    (h : Handlers) (listReq : JsonRpcRequest) (payload : Value) (hlistReq : listReq.method = "tools/list")
    (hserved :
      processRequestHttp config (requestProcess h config) listReq = .success listReq.id payload)
    (req : JsonRpcRequest) (hmethod : req.method = "tools/call") :
    let resp := processRequestHttp config (requestProcess h config) req
    let ran := (processRequest h config req).2
    ((∃ err, resp.error = some err ∧ err.code = -32602) ↔ callName req = none) ∧
      ((∃ err, resp.error = some err ∧ err.code = -32601) ↔
        ∃ name, callName req = some name ∧ name ∉ listedNames payload) ∧
      (resp.error ≠ none → resp.result = none ∧ ran = []) ∧
      (∀ name, callName req = some name → name ∈ listedNames payload →
        ∃ tool value isError, toolTable.lookup name = some tool ∧ ran = [tool] ∧
          resp = .success req.id value ∧ IsToolResult value isError ∧
          (isError = true ↔ (h.call (callArgs req) tool).Failed)) ∧
      ∀ rt line, parseRequest rt line = .ok req →
        (lineResponse rt config (requestProcess h config) line).1 = resp := by
  intro resp ran
  have hstdio : ∀ rt line, parseRequest rt line = .ok req →
      (lineResponse rt config (requestProcess h config) line).1 = resp := by
    intro rt line hline
    rw [lineResponse_of_ok hline]
  have hlisted : ∀ name, name ∈ listedNames payload ↔
      Tools.isToolAvailable name config.server.enabledCategories = true := by
    intro name
    rw [served_list hlistReq hserved, hlist]
    exact mem_listedNames_iff
  have hrefused : ∀ e : WebSearchError, e.errorData = none →
      processRequest h config req = (.done (.error e), []) →
      resp = .failure req.id e.errorCode e.display ∧ ran = [] := by
    intro e hdata hcall
    exact ⟨response_of_error (congrArg Prod.fst hcall) hdata, congrArg Prod.snd hcall⟩
  rcases @processRequest_call_cases h config req hmethod with
    ⟨hname, hcall⟩ | ⟨name, hname, havail, hcall⟩ | ⟨name, tool, hname, havail, htool, hcall⟩
  · -- no name
    obtain ⟨hresp, hran⟩ := hrefused _ rfl hcall
    have hcode := code_of_failure hresp
    have hunnamed : ∀ name, callName req ≠ some name := by
      intro name hsome
      exact absurd (hname.symm.trans hsome) (by simp)
    refine ⟨iff_of_true ((hcode _).mpr rfl) hname, iff_of_false ?_ ?_, ?_, ?_, hstdio⟩
    · intro herr
      exact absurd ((hcode _).mp herr) (by decide)
    · rintro ⟨name, hsome, -⟩
      exact hunnamed name hsome
    · exact fun _ => ⟨by rw [hresp]; rfl, hran⟩
    · intro name hsome
      exact absurd hsome (hunnamed name)
  · -- a name the gate refuses
    obtain ⟨hresp, hran⟩ := hrefused _ rfl hcall
    have hcode := code_of_failure hresp
    have hnot : name ∉ listedNames payload := by
      rw [hlisted, havail]
      exact Bool.false_ne_true
    refine ⟨iff_of_false ?_ ?_, iff_of_true ((hcode _).mpr rfl) ⟨name, hname, hnot⟩, ?_, ?_, hstdio⟩
    · intro herr
      exact absurd ((hcode _).mp herr) (show ¬ (-32602 : Int) = -32601 by decide)
    · intro hnone
      exact absurd (hname.symm.trans hnone) (by simp)
    · exact fun _ => ⟨by rw [hresp]; rfl, hran⟩
    · intro name' hsome hmem
      cases hname.symm.trans hsome
      exact absurd hmem hnot
  · -- a handler
    obtain ⟨value, isError, hresp, hvalue, hfailed⟩ :=
      @response_of_call h config req (callArgs req) tool (requestProcess h config) hmethod
        (congrArg Prod.fst hcall)
    have hran : ran = [tool] := congrArg Prod.snd hcall
    have hcode := no_code_of_success hresp
    refine ⟨iff_of_false (hcode _) ?_, iff_of_false (hcode _) ?_, ?_, ?_, hstdio⟩
    · intro hnone
      exact absurd (hname.symm.trans hnone) (by simp)
    · rintro ⟨name', hsome, hnot⟩
      cases hname.symm.trans hsome
      exact absurd ((hlisted name).mpr havail) hnot
    · intro herr
      exact absurd (congrArg JsonRpcResponse.error hresp) herr
    · intro name' hsome _
      cases hname.symm.trans hsome
      exact ⟨tool, value, isError, htool, hran, hresp, hvalue, hfailed⟩

/-- A server with every category, whose handlers all run into the timeout. -/
def stalledConfig : Config :=
  let config := Config.default ⟨4, fun _ => .error [], fun _ => []⟩
  { config with
    server := { config.server with enabledCategories := ToolCategory.all }
    toolsList := Tools.buildToolsList (fun _ => []) ToolCategory.all }

def stalledHandlers : Handlers :=
  let text (_ : Option Value) : Timeout (Result Text) := .elapsed
  { webSearch := text, webScrape := text, webMap := text, webExtract := text, webFetch := text
    webFetchText := text, webFetchHeaders := text, webSearchScrape := text, webSitemap := text
    webCheckLinks := text, browserScrape := fun _ => .elapsed, browserScreenshot := text }

/-- A call of `web_fetch` that times out. -/
theorem tools_call_classified_fetch :
    ∃ tool value isError, toolTable.lookup ("web_fetch" : Text) = some tool ∧
      (processRequest stalledHandlers stalledConfig
        ⟨"2.0", "tools/call", some (.object [("name", .string "web_fetch")]), some .null⟩).2 = [tool] ∧
      processRequestHttp stalledConfig (requestProcess stalledHandlers stalledConfig)
        ⟨"2.0", "tools/call", some (.object [("name", .string "web_fetch")]), some .null⟩ =
          .success (some .null) value ∧
      IsToolResult value isError ∧ (isError = true ↔ (stalledHandlers.call none tool).Failed) :=
  (tools_call_classified (fun _ => []) stalledConfig rfl stalledHandlers
    ⟨"2.0", "tools/list", none, some .null⟩ _ rfl rfl
    ⟨"2.0", "tools/call", some (.object [("name", .string "web_fetch")]), some .null⟩ rfl).2.2.2.1
    "web_fetch" rfl (by decide)

end Server
end McpWebSearch
