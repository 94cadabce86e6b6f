import McpWebSearch.Lib.Text

/-!
# `Json` — JSON values and the argument getters

`serde_json::Value` and the accessors the server uses, and the getters of `src/actions/mod.rs`. An object is
the list of its entries; a lookup takes the entry of its key.
-/

namespace McpWebSearch

open Utf8

/-- `serde_json::Number`: a `u64`, a negative `i64`, or the bits of an `f64`. -/
inductive Number
  | posInt (n : UInt64)
  | negInt (n : Int64)
  | float (bits : UInt64)
  deriving DecidableEq

/-- `serde_json::Value`. -/
inductive Value
  | null
  | bool (b : Bool)
  | number (n : Number)
  | string (s : Text)
  | array (vs : List Value)
  | object (entries : List (Text × Value))

namespace Value

/-- `Value::get` with a string key: `None` unless the value is an object that has the key. -/
def get : Value → Text → Option Value
  | .object entries, key => entries.lookup key
  | _, _ => none

/-- `value[key] = v` on an object; on anything else the source does not get there. -/
def set : Value → Text → Value → Value
  | .object entries, key, v =>
      if (entries.lookup key).isSome then
        .object (entries.map (fun e => if e.1 = key then (key, v) else e))
      else .object (entries ++ [(key, v)])
  | value, _, _ => value

def asStr : Value → Option Text
  | .string s => some s
  | _ => none

/-- `Value::as_u64`: only a non-negative integer literal is one. -/
def asU64 : Value → Option UInt64
  | .number (.posInt n) => some n
  | _ => none

def asBool : Value → Option Bool
  | .bool b => some b
  | _ => none

def asArray : Value → Option (List Value)
  | .array vs => some vs
  | _ => none

end Value

/-! ## Tool arguments (`src/actions/mod.rs`) -/

/-- `text_content`: a text wrapped as tool content. -/
def textContent (text : Text) : Value :=
  .object [("content", .array [.object [("type", .string "text"), ("text", .string text)]])]

/-- A content block of a browser tool: text, or a PNG in base64. -/
inductive ContentBlock
  | text (t : Text)
  | png (data : Text)

def ContentBlock.toValue : ContentBlock → Value
  | .text t => .object [("type", .string "text"), ("text", .string t)]
  | .png data =>
      .object [("type", .string "image"), ("data", .string data), ("mimeType", .string "image/png")]

/-- The `Ok` value of `browser_scrape`: its blocks, or one empty text block. -/
def scrapeContent (blocks : List ContentBlock) : Value :=
  let blocks := if blocks.isEmpty then blocks ++ [.text []] else blocks
  .object [("content", .array (blocks.map ContentBlock.toValue))]

/-- The `Ok` value of `browser_screenshot`. -/
def screenshotContent (data : Text) : Value :=
  .object [("content", .array [(ContentBlock.png data).toValue])]

/-- `args.and_then(|a| a.get(key))`. -/
def getArg (args : Option Value) (key : Text) : Option Value := args.bind (·.get key)

def getOptStr (args : Option Value) (key : Text) : Option Text := (getArg args key).bind Value.asStr

/-- `get_opt_usize`; a `usize` holds every `u64`. -/
def getOptUsize (args : Option Value) (key : Text) : Option Nat :=
  ((getArg args key).bind Value.asU64).map UInt64.toNat

/-- `get_opt_u8`: larger values saturate. -/
def getOptU8 (args : Option Value) (key : Text) : Option Nat :=
  ((getArg args key).bind Value.asU64).map (fun v => min v.toNat 255)

def getOptBool (args : Option Value) (key : Text) : Option Bool := (getArg args key).bind Value.asBool

/-- `get_str_array`: the strings of an array, other elements skipped. -/
def getStrArray (args : Option Value) (key : Text) : Option (List Text) :=
  ((getArg args key).bind Value.asArray).map (List.filterMap Value.asStr)

end McpWebSearch
