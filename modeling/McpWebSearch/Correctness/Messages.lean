import McpWebSearch.Protocol

/-!
# `Correctness.Messages` — which JSON-RPC messages survive the wire

Reading a message back gives the message with `null` for nothing: an optional field that holds `null` is read as one
that is not there, whether it was written as `null` or left out (`request_read_back`, `response_read_back`). So the
messages that come back as they were are those without such a field, and the reply of `ping` is not one of them.
-/

namespace McpWebSearch

open Utf8

/-! ## Optional fields -/

theorem optionField_some {v : Value} (h : v ≠ .null) : optionField (some v) = some v := by
  cases v with
  | null => exact absurd rfl h
  | _ => rfl

/-- An optional field comes back as it is unless it holds `null`. -/
theorem optionField_eq_self_iff {v : Option Value} : optionField v = v ↔ v ≠ some .null := by
  rcases v with _ | v
  · simp [optionField]
  · constructor
    · intro h hnull
      obtain rfl := Option.some.inj hnull
      cases h
    · intro h
      exact optionField_some fun hnull => h (congrArg some hnull)

/-- Written as `null` or left out, nothing is read as nothing. -/
theorem optionField_ofOption (v : Option Value) : optionField (some (Value.ofOption v)) = optionField v := by
  cases v with
  | none => rfl
  | some v => rfl

theorem optionField_lookup_unlessNone (key : Text) (v : Option Value) {rest : List (Text × Value)}
    (hrest : rest.lookup key = none) : optionField ((unlessNone key v ++ rest).lookup key) = optionField v := by
  cases v with
  | none => exact congrArg optionField hrest
  | some v => rw [unlessNone, List.singleton_append, List.lookup_cons_self]

/-- An `i64` is read back. -/
theorem toI64_ofI64 (code : Int64) : Value.toI64 (Value.ofI64 code.toInt) = some code.toInt := by
  unfold Value.ofI64
  by_cases hneg : code.toInt < 0
  · rw [if_pos hneg, Value.toI64, Int64.ofInt_toInt]
  · have hlt : code.toInt < 2 ^ 63 := Int64.toInt_lt code
    have hnat : (UInt64.ofNat code.toInt.toNat).toNat = code.toInt.toNat :=
      UInt64.toNat_ofNat_of_lt' (by have : UInt64.size = 2 ^ 64 := rfl; omega)
    rw [if_neg hneg, Value.toI64, hnat, if_pos (by omega), Int.toNat_of_nonneg (by omega)]

/-! ## Requests -/

/-- **A request read back.** -/
theorem request_read_back (req : JsonRpcRequest) :
    JsonRpcRequest.deserialize req.serialize =
      some { req with params := optionField req.params, id := optionField req.id } := by
  rw [← optionField_ofOption req.params, ← optionField_ofOption req.id]
  rfl

/-! ## Responses -/

/-- An error read back. -/
theorem error_read_back (code : Int64) (message : Text) (data : Option Value) :
    JsonRpcError.deserialize (JsonRpcError.serialize ⟨code.toInt, message, data⟩) =
      some ⟨code.toInt, message, optionField data⟩ := by
  have hdata := @optionField_lookup_unlessNone "data".toList data [] rfl
  rw [List.append_nil] at hdata
  show ((Value.toI64 (Value.ofI64 code.toInt)).bind fun code =>
    some (⟨code, message, optionField ((unlessNone "data" data).lookup "data".toList)⟩ : JsonRpcError)) = _
  rw [toI64_ofI64, hdata]
  rfl

/-- What the server replies: the arguments of one of the constructors. -/
inductive Reply
  | success (id : Option Value) (result : Value)
  | error (id : Option Value) (code : Int64) (message : Text)
  | errorWithData (id : Option Value) (code : Int64) (message : Text) (data : Value)

def Reply.response : Reply → JsonRpcResponse
  | .success id result => .success id result
  | .error id code message => .failure id code.toInt message
  | .errorWithData id code message data => .errorWithData id code.toInt message data

/-- **A response read back.** -/
theorem response_read_back (r : Reply) :
    JsonRpcResponse.deserialize r.response.serialize =
      some { r.response with
        result := optionField r.response.result
        error := r.response.error.map fun e => { e with data := optionField e.data }
        id := optionField r.response.id } := by
  cases r with
  | success id result =>
      rw [← optionField_ofOption (Reply.response (.success id result)).id]
      rfl
  | error id code message =>
      rw [← optionField_ofOption (Reply.response (.error id code message)).id]
      show ((JsonRpcError.deserialize (JsonRpcError.serialize ⟨code.toInt, message, none⟩)).map some).bind _ = _
      rw [error_read_back]
      rfl
  | errorWithData id code message data =>
      rw [← optionField_ofOption (Reply.response (.errorWithData id code message data)).id]
      show ((JsonRpcError.deserialize (JsonRpcError.serialize ⟨code.toInt, message, some data⟩)).map some).bind _ = _
      rw [error_read_back]
      rfl

/-- One of the result and the error is there, and not the other. -/
def OneOutcome (resp : JsonRpcResponse) : Prop := resp.result.isSome ≠ resp.error.isSome

instance (resp : JsonRpcResponse) : Decidable (OneOutcome resp) := inferInstanceAs (Decidable (_ ≠ _))

/-- A message comes back as it was if its optional fields do. -/
theorem request_round_trip_iff (req : JsonRpcRequest) :
    JsonRpcRequest.deserialize req.serialize = some req ↔ req.params ≠ some .null ∧ req.id ≠ some .null := by
  obtain ⟨jsonrpc, method, params, id⟩ := req
  rw [request_read_back, Option.some_inj, JsonRpcRequest.mk.injEq, optionField_eq_self_iff, optionField_eq_self_iff]
  simp

/-- The error of a response comes back as it was if its data does. -/
theorem map_error_eq_self_iff (error : Option JsonRpcError) :
    error.map (fun e => { e with data := optionField e.data }) = error ↔ ∀ e ∈ error, e.data ≠ some .null := by
  rcases error with _ | ⟨code, message, data⟩
  · simp
  · rw [Option.map_some, Option.some_inj, JsonRpcError.mk.injEq, optionField_eq_self_iff]
    simp

theorem response_round_trip_iff (r : Reply) :
    JsonRpcResponse.deserialize r.response.serialize = some r.response ↔
      r.response.result ≠ some .null ∧ r.response.id ≠ some .null ∧ ∀ e ∈ r.response.error, e.data ≠ some .null := by
  rw [response_read_back, Option.some_inj]
  generalize r.response = resp
  obtain ⟨jsonrpc, result, error, id⟩ := resp
  rw [JsonRpcResponse.mk.injEq, optionField_eq_self_iff, optionField_eq_self_iff, map_error_eq_self_iff]
  simp only [true_and]
  rw [and_comm (a := id ≠ _)]

/-- A decoded response has one outcome unless its result was `null`. -/
theorem oneOutcome_read_back_iff (r : Reply) :
    ∃ resp, JsonRpcResponse.deserialize r.response.serialize = some resp ∧
      (OneOutcome resp ↔ r.response.result ≠ some .null) := by
  refine ⟨_, response_read_back r, ?_⟩
  cases r with
  | success id result =>
      show (optionField (some result)).isSome ≠ false ↔ some result ≠ some Value.null
      rw [← optionField_eq_self_iff]
      cases result <;> simp [optionField]
  | error id code message =>
      show false ≠ true ↔ none ≠ some Value.null
      simp
  | errorWithData id code message data =>
      show false ≠ true ↔ none ≠ some Value.null
      simp

/-- **Which messages round-trip**: the requests, and the responses of the server's constructors, that hold `null` in no
    optional field; and a decoded response has one outcome unless its result was `null`. -/
theorem messages_round_trip_iff (req : JsonRpcRequest) (r : Reply) :
    (JsonRpcRequest.deserialize req.serialize = some req ↔ req.params ≠ some .null ∧ req.id ≠ some .null) ∧
    (JsonRpcResponse.deserialize r.response.serialize = some r.response ↔
      r.response.result ≠ some .null ∧ r.response.id ≠ some .null ∧ ∀ e ∈ r.response.error, e.data ≠ some .null) ∧
    ∃ resp, JsonRpcResponse.deserialize r.response.serialize = some resp ∧
      (OneOutcome resp ↔ r.response.result ≠ some .null) :=
  ⟨request_round_trip_iff req, response_round_trip_iff r, oneOutcome_read_back_iff r⟩

/-- **The reply of `ping`**: its `null` result is lost, and no outcome is left. -/
theorem ping_reply_lost :
    JsonRpcResponse.deserialize (JsonRpcResponse.success (some (.number (.posInt 1))) .null).serialize =
        some ⟨"2.0", none, none, some (.number (.posInt 1))⟩ ∧
      some (JsonRpcResponse.mk "2.0" none none (some (.number (.posInt 1)))) ≠
        some (JsonRpcResponse.success (some (.number (.posInt 1))) .null) ∧
      ¬ OneOutcome ⟨"2.0", none, none, some (.number (.posInt 1))⟩ := by
  refine ⟨rfl, ?_, by decide⟩
  intro h
  cases h

end McpWebSearch
