import McpWebSearch.Json

/-!
# `Protocol` — errors and JSON-RPC messages

`src/errors.rs` and `src/protocol.rs`.
-/

namespace McpWebSearch

open Utf8

/-! ## Errors -/

/-- `WebSearchError`; `JsonError` carries the text of the `serde_json` error. -/
inductive WebSearchError
  | parseError (msg : Text)
  | methodNotFound (msg : Text)
  | invalidParams (msg : Text)
  | providerError (msg : Text)
  | configError (msg : Text)
  | urlNotAllowed (msg : Text)
  | httpError (msg : Text)
  | responseTooLarge (msg : Text)
  | timeout (msg : Text)
  | jsonError (msg : Text)
  | rateLimited (msg : Text)
  deriving DecidableEq

namespace WebSearchError

/-- `Display` (the `#[error(..)]` texts). -/
def display : WebSearchError → Text
  | .parseError m => "Parse error: " ++ m
  | .methodNotFound m => "Method not found: " ++ m
  | .invalidParams m => "Invalid params: " ++ m
  | .providerError m => "Search provider error: " ++ m
  | .configError m => "Configuration error: " ++ m
  | .urlNotAllowed m => "URL not allowed: " ++ m
  | .httpError m => "HTTP error: " ++ m
  | .responseTooLarge m => "Response too large: " ++ m
  | .timeout m => "Timeout: " ++ m
  | .jsonError m => "JSON error: " ++ m
  | .rateLimited m => "Rate limited: " ++ m

def errorCode : WebSearchError → Int
  | .parseError _ => -32700
  | .methodNotFound _ => -32601
  | .invalidParams _ => -32602
  | .jsonError _ => -32700
  | .providerError _ => -32000
  | .configError _ => -32001
  | .urlNotAllowed _ => -32002
  | .httpError _ => -32003
  | .responseTooLarge _ => -32004
  | .timeout _ => -32005
  | .rateLimited _ => -32006

def errorData : WebSearchError → Option Value
  | .rateLimited _ => some (.object [("retryAfter", .number (.posInt 1))])
  | _ => none

end WebSearchError

/-- `errors::Result`. -/
abbrev Result (α : Type) := Except WebSearchError α

/-- `get_str_arg`: a required string argument. -/
def getStrArg (args : Option Value) (key : Text) : Result Text :=
  match getOptStr args key with
  | some s => .ok s
  | none => .error (.invalidParams ("Missing '" ++ key ++ "' parameter"))

/-! ## JSON-RPC messages -/

structure JsonRpcRequest where
  jsonrpc : Text
  method : Text
  params : Option Value
  id : Option Value

structure JsonRpcError where
  code : Int
  message : Text
  data : Option Value

structure JsonRpcResponse where
  jsonrpc : Text
  result : Option Value
  error : Option JsonRpcError
  id : Option Value

namespace JsonRpcResponse

def success (id : Option Value) (result : Value) : JsonRpcResponse :=
  { jsonrpc := "2.0", result := some result, error := none, id := id }

/-- `JsonRpcResponse::error`. -/
def failure (id : Option Value) (code : Int) (message : Text) : JsonRpcResponse :=
  { jsonrpc := "2.0", result := none, error := some { code, message, data := none }, id := id }

def errorWithData (id : Option Value) (code : Int) (message : Text) (data : Value) : JsonRpcResponse :=
  { jsonrpc := "2.0", result := none, error := some { code, message, data := some data }, id := id }

end JsonRpcResponse

/-! ### On the wire

What `derive(Serialize, Deserialize)` makes of the messages, between them and a JSON value. -/

/-- `Option::serialize`. -/
def Value.ofOption (v : Option Value) : Value := v.getD .null

/-- An entry of `Option` type under `skip_serializing_if = "Option::is_none"`. -/
def unlessNone (key : Text) (v : Option Value) : List (Text × Value) :=
  match v with
  | some v => [(key, v)]
  | none => []

/-- `i64::serialize`. -/
def Value.ofI64 (n : Int) : Value :=
  .number (if n < 0 then .negInt (Int64.ofInt n) else .posInt (UInt64.ofNat n.toNat))

/-- `i64::deserialize`: an integer that fits. -/
def Value.toI64 : Value → Option Int
  | .number (.posInt n) => if n.toNat < 0x8000000000000000 then some n.toNat else none
  | .number (.negInt n) => some n.toInt
  | _ => none

/-- `Option::deserialize` of a field: nothing for `null`, and for a field that is missing. -/
def optionField : Option Value → Option Value
  | none | some .null => none
  | some v => some v

/-- The fields of a struct: those of an object, or all of them in order from an array. -/
def structFields (names : List Text) : Value → Option (Text → Option Value)
  | .object entries => some fun name => entries.lookup name
  | .array vs => if vs.length = names.length then some fun name => (names.zip vs).lookup name else none
  | _ => none

namespace JsonRpcRequest

def serialize (req : JsonRpcRequest) : Value :=
  .object [("jsonrpc", .string req.jsonrpc), ("method", .string req.method), ("params", .ofOption req.params),
    ("id", .ofOption req.id)]

def deserialize (v : Value) : Option JsonRpcRequest := do
  let field ← structFields ["jsonrpc", "method", "params", "id"] v
  let jsonrpc ← (field "jsonrpc").bind Value.asStr
  let method ← (field "method").bind Value.asStr
  pure { jsonrpc, method, params := optionField (field "params"), id := optionField (field "id") }

end JsonRpcRequest

namespace JsonRpcError

def serialize (e : JsonRpcError) : Value :=
  .object (("code", .ofI64 e.code) :: ("message", .string e.message) :: unlessNone "data" e.data)

def deserialize (v : Value) : Option JsonRpcError := do
  let field ← structFields ["code", "message", "data"] v
  let code ← (field "code").bind Value.toI64
  let message ← (field "message").bind Value.asStr
  pure { code, message, data := optionField (field "data") }

end JsonRpcError

namespace JsonRpcResponse

def serialize (resp : JsonRpcResponse) : Value :=
  .object (("jsonrpc", .string resp.jsonrpc) :: (unlessNone "result" resp.result ++
    (unlessNone "error" (resp.error.map JsonRpcError.serialize) ++ [("id".toList, .ofOption resp.id)])))

def deserialize (v : Value) : Option JsonRpcResponse := do
  let field ← structFields ["jsonrpc", "result", "error", "id"] v
  let jsonrpc ← (field "jsonrpc").bind Value.asStr
  let error ← match optionField (field "error") with
    | some e => (JsonRpcError.deserialize e).map some
    | none => some none
  pure { jsonrpc, result := optionField (field "result"), error, id := optionField (field "id") }

end JsonRpcResponse

/-! ## HTTP headers -/

/-- The headers of a request or a response, names in lower case. -/
abbrev HeaderMap := List (Text × List UInt8)

namespace HeaderMap

/-- `HeaderMap::get`: the first value of the name. -/
def get (headers : HeaderMap) (name : Text) : Option (List UInt8) := headers.lookup name

/-- `HeaderValue::to_str`: visible ASCII and tabs only. -/
def toStr (v : List UInt8) : Option Text :=
  if v.all (fun b => (32 ≤ b.toNat && b.toNat < 127) || b.toNat = 9) then
    some (v.map (fun b => Char.ofNat b.toNat))
  else none

end HeaderMap

end McpWebSearch
