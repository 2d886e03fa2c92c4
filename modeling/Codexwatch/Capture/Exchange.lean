import Codexwatch.Capture.Http1
import Codexwatch.Capture.Responses
import Codexwatch.Capture.Sse

/-!
# Decoding an exchange

`decode_http_exchange` of `capture/src/responses.rs` over the bytes of the two messages, and
the turn metadata that `capture/src/metadata.rs` takes from the headers or from the body.
The JSON library is a parameter.

## Main definitions

* `ExchangeLibrary` — the parameters.
* `extractTurnMetadata` — the metadata of a request.
* `decodeExchange` — the attempt.
* `headersToMap` — the headers by name.
* `DecodedAttempt.identified` — the attempt under another identifier.
-/
namespace Codexwatch.Capture

open Protocol

structure ExchangeLibrary extends HttpLibrary where
  /-- `serde_json::from_slice`, and `serde_json::from_str` on the bytes of a text -/
  parseJson : Bytes → Except String Json
  /-- `Value::to_string` -/
  jsonText : Json → String

inductive MetadataError
  | missing
  | invalidJson (error : String)
  | missingField (field : String)
  deriving DecidableEq

inductive CaptureError
  | http (error : HttpParseError)
  | metadata (error : MetadataError)
  | invalidRequestJson (error : String)
  | invalidResponseJson (error : String)
  | sse (error : SseError)
  deriving DecidableEq

/-! ## Metadata -/

def METADATA_HEADER : String := "x-codex-turn-metadata"

def requireString (json : Json) (field : String) : Except MetadataError String :=
  match json.getStr field with
  | none => .error (.missingField field)
  | some value => .ok value

def bodyPayload (library : ExchangeLibrary) (requestJson : Json) : Option String :=
  match (requestJson.get "client_metadata").bind fun value => value.get METADATA_HEADER with
  | some (.string text) => some text
  | some (.object members) => some (library.jsonText (.object members))
  | _ => none

/-- The header goes before the body. -/
def extractTurnMetadata (library : ExchangeLibrary) (headers : HeaderMap) (requestJson : Json) :
    Except MetadataError DecodedTurnMetadata := do
  let headerPayload := (headers.get METADATA_HEADER).bind toStr
  let payload ←
    (headerPayload.or (bodyPayload library requestJson)).elim (.error .missing) .ok
  let json ← (library.parseJson (textBytes payload)).mapError .invalidJson
  let sessionId ← requireString json "session_id"
  let threadId ← requireString json "thread_id"
  let turnId ← requireString json "turn_id"
  let requestKind ← requireString json "request_kind"
  pure ⟨sessionId, threadId, turnId, requestKind, json.getStr "parent_turn_id",
    json.getStr "root_turn_id"⟩

/-! ## Exchanges -/

/-- `StatusCode::is_success` -/
def isSuccess (status : ℕ) : Bool := 200 ≤ status && status < 300

def parsePayloads (library : ExchangeLibrary) : List SseEvent → Except CaptureError (List Json)
  | [] => .ok []
  | event :: events =>
      match library.parseJson (textBytes event.data) with
      | .error e => .error (.invalidResponseJson e)
      | .ok json => (parsePayloads library events).map fun payloads => json :: payloads

/-- The body of a response that is not a success is no stream. -/
def responseOf (library : ExchangeLibrary) (status : Option ℕ) (body : Bytes) :
    Except CaptureError Response :=
  if status.any fun status => !isSuccess status then
    .ok (.error (status.getD 0) (Text.fromUtf8Lossy body) (library.parseJson body).toOption)
  else ((parseSseEvents body).mapError .sse).bind fun events =>
    (parsePayloads library events).map .stream

/-- `decode_http_exchange` -/
def decodeExchange (library : ExchangeLibrary) (attemptId : Uuid)
    (requestBytes responseBytes : Bytes) (requestAtMs : ℤ) :
    Except CaptureError DecodedAttempt := do
  let request ← (parseHttpRequest library.toHttpLibrary requestBytes).mapError .http
  let response ← (parseHttpResponse library.toHttpLibrary responseBytes).mapError .http
  let requestJson ← (library.parseJson request.body.decoded).mapError .invalidRequestJson
  let metadata ← (extractTurnMetadata library request.headers requestJson).mapError .metadata
  let decoded ← responseOf library response.status response.body.decoded
  pure (decodeHttpExchange attemptId metadata requestJson request.body.complete
    response.body.complete decoded requestAtMs)

/-! ## Headers by name -/

/-- `BTreeMap::insert` -/
def insertEntry (entry : String × String) : List (String × String) → List (String × String)
  | [] => [entry]
  | e :: entries =>
      if entry.1 < e.1 then entry :: e :: entries
      else if entry.1 = e.1 then entry :: entries
      else e :: insertEntry entry entries

/-- Values that are no text are left out; of several values the last one stays. -/
def headersToMap (headers : HeaderMap) : List (String × String) :=
  (headers.filterMap fun header => (toStr header.2).map fun value => (header.1, value)).foldl
    (fun map entry => insertEntry entry map) []

/-! ## Identifiers -/

/-- The event of the attempt with another identifier. -/
def DecodedEvent.identified (attemptId : Uuid) : DecodedEvent → DecodedEvent
  | .taskObserved model => .taskObserved model
  | .attemptStarted _ model => .attemptStarted attemptId model
  | .toolCall _ toolName => .toolCall attemptId toolName
  | .attemptCompleted _ responseId endTurn usage =>
      .attemptCompleted attemptId responseId endTurn usage
  | .attemptFailed _ responseId error => .attemptFailed attemptId responseId error
  | .attemptIncomplete _ responseId error => .attemptIncomplete attemptId responseId error
  | .attemptCancelled _ responseId error => .attemptCancelled attemptId responseId error
  | .httpError id error => .httpError (id.map fun _ => attemptId) error

def DecodedAttempt.identified (attemptId : Uuid) (attempt : DecodedAttempt) : DecodedAttempt :=
  { attempt with
    attemptId
    decodedEvents := attempt.decodedEvents.map (DecodedEvent.identified attemptId) }

section Identified
variable (id id' : Uuid)

theorem identified_mapResponsesEvent (json : Json) :
    (mapResponsesEvent id json).map (DecodedEvent.identified id') = mapResponsesEvent id' json := by
  simp only [mapResponsesEvent]
  split <;> first
    | rfl
    | (cases toolCallOf json <;> rfl)

theorem identified_responseEvents (response : Response) :
    (responseEvents id response).map (DecodedEvent.identified id') = responseEvents id' response := by
  cases response with
  | error status text json => rfl
  | stream payloads =>
      simp only [responseEvents, List.map_flatMap, identified_mapResponsesEvent]

theorem identified_decodeHttpExchange (metadata : DecodedTurnMetadata) (requestJson : Json)
    (requestComplete responseComplete : Bool) (response : Response) (requestAtMs : ℤ) :
    (decodeHttpExchange id metadata requestJson requestComplete responseComplete response
      requestAtMs).identified id' =
      decodeHttpExchange id' metadata requestJson requestComplete responseComplete response
        requestAtMs := by
  simp only [DecodedAttempt.identified, decodeHttpExchange, List.map_append, List.map_cons,
    List.map_nil, DecodedEvent.identified, identified_responseEvents]

/-- The identifier is only passed on. -/
theorem identified_decodeExchange (library : ExchangeLibrary) (requestBytes responseBytes : Bytes)
    (requestAtMs : ℤ) :
    DecodedAttempt.identified id' <$>
        decodeExchange library id requestBytes responseBytes requestAtMs =
      decodeExchange library id' requestBytes responseBytes requestAtMs := by
  simp only [decodeExchange, map_bind, map_pure, identified_decodeHttpExchange]

end Identified

end Codexwatch.Capture
