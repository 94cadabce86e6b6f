import McpWebSearch.Config
import McpWebSearch.Lib.Framing

/-!
# `Server` — line reading, the stdio session and request processing

`src/server.rs`: `read_line_capped`, `token_matches`, and the two ways a request is answered,
`process_one_line` (stdio) and `process_request_http` (HTTP). What happens inside `process_request` is the
business of the tool handlers; here its outcome is a parameter `process`, and the surrounding `timeout` may
elapse first.

## Contents
- `LineReader.readLineCapped`: one capped line from a chunked stream.
- `lineResponse` / `processOneLine` / `runStdio`: the stdio session with its reused buffers.
- `processRequestHttp`: the same request over HTTP.
-/

namespace McpWebSearch
namespace Server

open Utf8

abbrev Bytes := List UInt8

/-- What the server uses of its libraries: `serde_json` on requests and responses (an error is its text) and
    the capacity a `Vec` grows to, given its old capacity and the length it needs. -/
structure Runtime where
  fromStr : Text → Except Text JsonRpcRequest
  fromSlice : Bytes → Except Text JsonRpcRequest
  toWriter : JsonRpcResponse → Bytes
  growCapacity : Nat → Nat → Nat

/-- `tokio::time::timeout(..).await`. -/
inductive Timeout (α : Type)
  | done (a : α)
  | elapsed

/-- What `process_request` comes to under its timeout. -/
abbrev Process := JsonRpcRequest → Timeout (Result Value)

/-! ## Reading a line -/

/-- What one `fill_buf` finds: a non-empty chunk, or an I/O error. An exhausted list is end of stream. -/
inductive ReadEvent
  | chunk (b : UInt8) (bs : Bytes)
  | interrupted
  | failed (e : Text)
  deriving DecidableEq

def newline : UInt8 := 10

/-- What is left of a chunk after `consume` stays in front of the stream. -/
def putBack : Bytes → List ReadEvent → List ReadEvent
  | [], es => es
  | b :: bs, es => .chunk b bs :: es

inductive LineRead
  | line
  | eof
  | tooLong
  deriving DecidableEq

/-- How one iteration of the read loop ends: with the next one, with `break`, or with a `return`. -/
inductive Iter
  | again (buf : Bytes)
  | complete (buf : Bytes) (unread : Bytes)
  | tooLong (unread : Bytes)
  | failed (e : Text)
  deriving DecidableEq

/-- One iteration of the read loop on what `fill_buf` returned. -/
def iterate (max : Nat) (buf : Bytes) : ReadEvent → Iter
  | .interrupted => .again buf
  | .failed e => .failed e
  | .chunk b bs =>
      let available := b :: bs
      match available.findIdx? (· == newline) with
      | some idx =>
          -- the newline counts towards the cap
          if buf.length + idx + 1 > max then .tooLong (available.drop (idx + 1))
          else .complete (buf ++ available.take (idx + 1)) (available.drop (idx + 1))
      | none =>
          let take := available.length
          if buf.length + take > max then .tooLong (available.drop take)
          else .again (buf ++ available)

/-- The read loop: its result, the buffer it leaves and the rest of the stream. -/
def readLoop (max : Nat) : Bytes → List ReadEvent → Except Text LineRead × Bytes × List ReadEvent
  -- at the end of the stream an unterminated line still counts
  | buf, [] => if buf.isEmpty then (.ok .eof, buf, []) else (.ok .line, buf, [])
  | buf, e :: es =>
      match iterate max buf e with
      | .again buf' => readLoop max buf' es
      | .complete buf' unread => (.ok .line, buf', putBack unread es)
      | .tooLong unread => (.ok .tooLong, buf, putBack unread es)
      | .failed err => (.error err, buf, es)

/-- The contents of `buf` after each iteration of the read loop. -/
def bufferTrace (max : Nat) : Bytes → List ReadEvent → List Bytes
  | buf, [] => [buf]
  | buf, e :: es =>
      buf :: match iterate max buf e with
        | .again buf' => bufferTrace max buf' es
        | .complete buf' _ => [buf']
        | .tooLong _ => []
        | .failed _ => []

/-- The reader with the buffers a caller lends it. -/
structure LineReader where
  reader : List ReadEvent
  buf : Bytes
  out : Text
  deriving DecidableEq

/-- `read_line_capped`: the loop on the cleared buffers; a completed line is decoded into `out`. -/
def LineReader.readLineCapped (r : LineReader) (max : Nat) : Except Text LineRead × LineReader :=
  match readLoop max [] r.reader with
  | (.ok .line, buf, rest) =>
      let out := match fromUtf8? buf with
        | some s => s
        | none => fromUtf8Lossy buf
      (.ok .line, { reader := rest, buf := buf, out := out })
  | (res, buf, rest) => (res, { reader := rest, buf := buf, out := [] })

/-! ## Authentication -/

/-- `token_matches`; the comparison of the bytes is constant-time in the source. -/
def tokenMatches (presented expected : Text) : Bool :=
  let presented := trim presented
  let presented := trim ((stripPrefix "Bearer " presented).getD presented)
  bytes presented == bytes expected

/-! ## Requests and responses -/

def parseError (msg : Text) : JsonRpcResponse :=
  let e := WebSearchError.parseError msg
  .failure none e.errorCode e.display

def parseRequest (rt : Runtime) (line : Text) : Except Text JsonRpcRequest :=
  let trimmed := trim line
  if trimmed.isEmpty then .error "Empty request" else rt.fromStr trimmed

/-- `tool_error`: a tool failure as a `CallToolResult`. -/
def toolError (message : Text) : Value :=
  .object [("content", .array [.object [("type", .string "text"), ("text", .string message)]]),
    ("isError", .bool true)]

/-- `timeout_response`. -/
def timeoutResponse (req : JsonRpcRequest) (timeoutSecs : Nat) : JsonRpcResponse :=
  let msg : Text := "request timed out after " ++ decimal timeoutSecs ++ "s"
  if req.method = "tools/call" then .success req.id (toolError msg)
  else .failure req.id (WebSearchError.timeout []).errorCode msg

/-- `process_request_http`. -/
def processRequestHttp (config : Config) (process : Process) (req : JsonRpcRequest) : JsonRpcResponse :=
  match process req with
  | .done (.ok result) => .success req.id result
  | .done (.error e) =>
      match e.errorData with
      | some data => .errorWithData req.id e.errorCode e.display data
      | none => .failure req.id e.errorCode e.display
  | .elapsed => timeoutResponse req config.server.requestTimeout.asSecs

/-! ## The stdio session -/

/-- The response `process_one_line` builds, and whether the request is a notification. -/
def lineResponse (rt : Runtime) (config : Config) (process : Process) (line : Text) :
    JsonRpcResponse × Bool :=
  match parseRequest rt line with
  | .ok req =>
      let isNotif := req.id.isNone
      match process req with
      | .done (.ok result) => (.success req.id result, isNotif)
      | .done (.error e) =>
          let resp := match e.errorData with
            | some data => JsonRpcResponse.errorWithData req.id e.errorCode e.display data
            | none => JsonRpcResponse.failure req.id e.errorCode e.display
          (resp, isNotif)
      | .elapsed => (timeoutResponse req config.server.requestTimeout.asSecs, isNotif)
  | .error e => (parseError e, false)

/-- A byte vector with the capacity it has allocated. -/
structure Vec where
  data : Bytes
  capacity : Nat
  deriving DecidableEq

def Vec.withCapacity (n : Nat) : Vec := { data := [], capacity := n }

def Vec.clear (v : Vec) : Vec := { v with data := [] }

def Vec.extend (rt : Runtime) (v : Vec) (bs : Bytes) : Vec :=
  let needed := v.data.length + bs.length
  { data := v.data ++ bs
    capacity := if needed ≤ v.capacity then v.capacity else rt.growCapacity v.capacity needed }

def initialRespBuf : Nat := 65536

/-- `maybe_shrink_buf`. -/
def maybeShrinkBuf (buf : Vec) : Vec :=
  if buf.capacity > 1 <<< 20 then Vec.withCapacity initialRespBuf else buf

/-- The session's buffers, its input and what it has written. -/
structure Session where
  input : LineReader
  responseBuf : Vec
  stdout : Bytes

/-- `write_oversize_error`. -/
def writeOversizeError (rt : Runtime) (max : Nat) (s : Session) : Session :=
  let err := WebSearchError.invalidParams
    ("Request exceeds maximum size of " ++ decimal max ++ " bytes")
  let response := JsonRpcResponse.failure none err.errorCode err.display
  let buf := ((s.responseBuf.clear).extend rt (rt.toWriter response)).extend rt [newline]
  { s with responseBuf := buf, stdout := s.stdout ++ buf.data }

/-- `process_one_line` on the line just read. -/
def processOneLine (rt : Runtime) (config : Config) (process : Process) (s : Session) : Session :=
  let (response, isNotification) := lineResponse rt config process s.input.out
  if isNotification then s  -- the request was run, its response is dropped
  else
    let buf := ((s.responseBuf.clear).extend rt (rt.toWriter response)).extend rt [newline]
    { s with responseBuf := maybeShrinkBuf buf, stdout := s.stdout ++ buf.data }

/-- The loop of `run_stdio`; `process n` answers the `n`-th line. Out of fuel it has no result. -/
def runLoop (rt : Runtime) (config : Config) (process : Nat → Process) :
    Nat → Nat → Session → Option Session
  | 0, _, _ => none
  | fuel + 1, n, s =>
      let max := config.server.maxRequestBytes
      let (res, input) := s.input.readLineCapped max
      let s := { s with input := input }
      match res with
      | .ok .eof => some s
      | .ok .line => runLoop rt config process fuel (n + 1) (processOneLine rt config (process n) s)
      | .ok .tooLong => some (writeOversizeError rt max s)
      | .error _ => some s  -- logged, and the session ends

/-- `MCPServer::run_stdio` on an input stream. -/
def runStdio (rt : Runtime) (config : Config) (process : Nat → Process) (fuel : Nat)
    (stdin : List ReadEvent) : Option Session :=
  runLoop rt config process fuel 0
    { input := { reader := stdin, buf := [], out := [] }
      responseBuf := Vec.withCapacity initialRespBuf
      stdout := [] }

end Server
end McpWebSearch
