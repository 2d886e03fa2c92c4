import Codexwatch.Protocol.Types

/-!
# Decoded Responses exchanges

`capture/src/responses.rs` behind the HTTP, SSE and JSON parsers: what the payloads
of a response, or the body of an HTTP error, become. A `Json` object has each key
once, so that `lookup` is `Value::get`.

## Main definitions

* `DecodedEvent`, `DecodedAttempt`.
* `mapResponsesEvent`, `parseHttpError` — one payload, one error body.
* `decodeHttpExchange` — the decoded attempt.
-/
namespace Codexwatch.Capture

open Protocol

/-- `serde_json::Value`. Of a number only what `as_u64` reads is kept. -/
inductive Json
  | null
  | bool (value : Bool)
  | number (asU64 : Option ℕ)
  | string (text : String)
  | array (items : List Json)
  | object (members : List (String × Json))

namespace Json

def get (json : Json) (key : String) : Option Json :=
  match json with
  | .object members => members.lookup key
  | _ => none

def asStr : Json → Option String
  | .string text => some text
  | _ => none

def asBool : Json → Option Bool
  | .bool value => some value
  | _ => none

def asU64 : Json → Option ℕ
  | .number n => n
  | _ => none

def asArray : Json → Option (List Json)
  | .array items => some items
  | _ => none

/-- `value.get(key).and_then(Value::as_str)` -/
def getStr (json : Json) (key : String) : Option String := (json.get key).bind asStr

end Json

structure DecodedTurnMetadata where
  sessionId : String
  threadId : String
  turnId : String
  requestKind : String
  parentTurnId : Option String
  rootTurnId : Option String
  deriving DecidableEq

structure DecodedError where
  wireType : Option String
  code : Option String
  message : Option String
  param : Option String
  reason : Option String
  httpStatus : Option ℕ
  deriving DecidableEq

inductive DecodedEvent
  | taskObserved (model : Option String)
  | attemptStarted (attemptId : Uuid) (model : Option String)
  | toolCall (attemptId : Uuid) (toolName : String)
  | attemptCompleted (attemptId : Uuid) (responseId : Option String) (endTurn : Bool)
      (usage : UsageSummary)
  | attemptFailed (attemptId : Uuid) (responseId : Option String) (error : DecodedError)
  | attemptIncomplete (attemptId : Uuid) (responseId : Option String) (error : DecodedError)
  | attemptCancelled (attemptId : Uuid) (responseId : Option String) (error : DecodedError)
  | httpError (attemptId : Option Uuid) (error : DecodedError)
  deriving DecidableEq

structure DecodedAttempt where
  attemptId : Uuid
  taskRef : String
  identity : TaskIdentity
  codex : CodexTaskMetadata
  model : Option String
  requestComplete : Bool
  responseComplete : Bool
  requestJson : Json
  responseJsonEvents : List Json
  decodedEvents : List DecodedEvent
  requestAtMs : ℤ

/-! ## Payloads -/

def isToolCallType (itemType : String) : Bool :=
  itemType ∈ ["function_call", "tool_search_call", "custom_tool_call", "local_shell_call",
    "computer_call", "shell_call", "code_interpreter_call", "file_search_call",
    "web_search_call", "image_generation_call", "mcp_call"]

def responseId (json : Json) : Option String :=
  (json.get "response").bind fun response => response.getStr "id"

def parseUsage (response : Json) : Option UsageSummary := do
  let usage ← response.get "usage"
  some {
    inputTokens := (((usage.get "input_tokens").or (usage.get "prompt_tokens")).bind
      Json.asU64).getD 0
    outputTokens := (((usage.get "output_tokens").or (usage.get "completion_tokens")).bind
      Json.asU64).getD 0
    reasoningTokens := (((usage.get "output_tokens_details").bind fun value =>
      value.get "reasoning_tokens").bind Json.asU64).getD 0
    totalTokens := ((usage.get "total_tokens").bind Json.asU64).getD 0 }

def parseError (json : Json) : DecodedError :=
  let response := json.get "response"
  let error := (response.bind fun response => response.get "error").or (json.get "error")
  { wireType := (error.bind fun value => value.getStr "type").or (json.getStr "type")
    code := error.bind fun value => value.getStr "code"
    message := ((error.bind fun value => value.get "message").or (json.get "message")).bind
      Json.asStr
    param := error.bind fun value => value.getStr "param"
    reason := (response.bind fun value => value.get "incomplete_details").bind fun value =>
      value.getStr "reason"
    httpStatus := none }

/-- The name of the tool that an output item calls. -/
def toolCallOf (json : Json) : Option String := do
  let item ← json.get "item"
  let itemType := (item.getStr "type").getD ""
  if isToolCallType itemType then some ((item.getStr "name").getD itemType) else none

def mapResponsesEvent (attemptId : Uuid) (json : Json) : List DecodedEvent :=
  match (json.getStr "type").getD "" with
  | "response.output_item.added" | "response.output_item.done" =>
      ((toolCallOf json).map (DecodedEvent.toolCall attemptId)).toList
  | "error" => [.attemptFailed attemptId none (parseError json)]
  | "response.completed" =>
      let response := json.get "response"
      [.attemptCompleted attemptId (responseId json)
        (((response.bind fun value => value.get "end_turn").bind Json.asBool).getD true)
        ((response.bind parseUsage).getD UsageSummary.zero)]
  | "response.failed" => [.attemptFailed attemptId (responseId json) (parseError json)]
  | "response.incomplete" => [.attemptIncomplete attemptId (responseId json) (parseError json)]
  | "response.cancelled" => [.attemptCancelled attemptId (responseId json) (parseError json)]
  | _ => []

/-! ## Responses -/

/-- A response behind the HTTP and SSE parsers. -/
inductive Response
  /-- A status that is not a success: the body as text, and as JSON if it is that. -/
  | error (status : ℕ) (text : String) (json : Option Json)
  | stream (payloads : List Json)

def parseHttpError (text : String) (json : Option Json) (status : ℕ) : DecodedError :=
  match json with
  | none => ⟨none, none, some text, none, none, some status⟩
  | some json =>
      let object := (json.get "error").getD json
      { wireType := object.getStr "type"
        code := object.getStr "code"
        message := (object.getStr "message").or (some text)
        param := object.getStr "param"
        reason := none
        httpStatus := some status }

def responseEvents (attemptId : Uuid) : Response → List DecodedEvent
  | .error status text json => [.httpError (some attemptId) (parseHttpError text json status)]
  | .stream payloads => payloads.flatMap (mapResponsesEvent attemptId)

def taskIdentity (metadata : DecodedTurnMetadata) : TaskIdentity where
  provider := "codex"
  sessionId := metadata.sessionId
  threadId := metadata.threadId
  turnId := metadata.turnId

def codexMetadata (metadata : DecodedTurnMetadata) : CodexTaskMetadata where
  requestKind := metadata.requestKind
  parentTurnId := metadata.parentTurnId
  rootTurnId := metadata.rootTurnId

def decodeHttpExchange (attemptId : Uuid) (metadata : DecodedTurnMetadata) (requestJson : Json)
    (requestComplete responseComplete : Bool) (response : Response) (requestAtMs : ℤ) :
    DecodedAttempt :=
  let model := requestJson.getStr "model"
  { attemptId
    taskRef := (taskIdentity metadata).taskRef
    identity := taskIdentity metadata
    codex := codexMetadata metadata
    model
    requestComplete
    responseComplete
    requestJson
    responseJsonEvents := match response with
      | .error _ _ _ => []
      | .stream payloads => payloads
    decodedEvents := [.taskObserved model, .attemptStarted attemptId model] ++
      responseEvents attemptId response
    requestAtMs }

end Codexwatch.Capture
