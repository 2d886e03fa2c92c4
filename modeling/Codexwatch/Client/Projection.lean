import Codexwatch.Client.Attempt
import Codexwatch.Client.Ingress

/-!
# Projections of captured traffic

`project_exchange`, `project_gap` and `project_process_exit` of
`client/src/capture_lane.rs`: each reads the stored cursor of a task and builds the
records that take the task one step further. Nothing is persisted here.

A gap and a process exit leave a terminal task alone. An exchange does not look at
the phase it finds.

## Main definitions

* `DecodedExchange`, `CaptureBatch`.
* `projectExchange`, `projectGap`, `projectProcessExit`.
-/
namespace Codexwatch.Client

open Protocol Capture

structure CaptureBatch where
  records : List SummaryRecord
  contents : List StoredContentInput

def CaptureBatch.empty : CaptureBatch := ⟨[], []⟩

def CaptureBatch.isEmpty (batch : CaptureBatch) : Bool :=
  batch.records.isEmpty && batch.contents.isEmpty

def CaptureBatch.append (batch batch' : CaptureBatch) : CaptureBatch :=
  ⟨batch.records ++ batch'.records, batch.contents ++ batch'.contents⟩

/-- A completed exchange, with the decoded bodies of its two messages. -/
structure DecodedExchange where
  attempt : DecodedAttempt
  requestBody : Bytes
  responseBody : Bytes
  requestHeaders : List (String × String)
  responseHeaders : List (String × String)
  responseStatus : Option ℕ

def mergeUsage (current : Option TokenUsage) (update : TokenUsage) : TokenUsage :=
  let current := current.getD TokenUsage.none
  { inputTokens := update.inputTokens.or current.inputTokens
    outputTokens := update.outputTokens.or current.outputTokens
    cachedInputTokens := update.cachedInputTokens.or current.cachedInputTokens
    reasoningTokens := update.reasoningTokens.or current.reasoningTokens
    totalTokens := update.totalTokens.or current.totalTokens }

/-! ## Contents of an exchange -/

def extractToolInputs (toVec : List Json → Bytes) (attempt : DecodedAttempt) : Option Bytes :=
  let items := (attempt.responseJsonEvents.filterMap fun event => event.get "item").filter
    fun item => (item.getStr "type").any fun kind =>
      kind ∈ ["function_call", "tool_search_call", "custom_tool_call"]
  if items.isEmpty then none else some (toVec items)

def extractToolOutputs (toVec : List Json → Bytes) (attempt : DecodedAttempt) : Option Bytes :=
  let items := (((attempt.requestJson.get "input").bind Json.asArray).getD []).filter
    fun item => (item.getStr "type").any fun kind =>
      kind ∈ ["function_call_output", "tool_result", "tool_output"]
  if items.isEmpty then none else some (toVec items)

mutual

def collectTextNodes : Json → List String
  | .object members => collectMemberTexts members
  | .array items => collectItemTexts items
  | .null | .bool _ | .number _ | .string _ => []

def collectItemTexts : List Json → List String
  | [] => []
  | item :: items => collectTextNodes item ++ collectItemTexts items

def collectMemberTexts : List (String × Json) → List String
  | [] => []
  | (key, value) :: members =>
      (match decide (key ∈ ["text", "output_text", "delta"]), value with
        | true, .string text => [text]
        | _, value => collectTextNodes value) ++ collectMemberTexts members

end

def extractModelText (attempt : DecodedAttempt) : Option Bytes :=
  let text := (attempt.responseJsonEvents.flatMap collectTextNodes).filter
    fun line => !Text.isBlank line
  if text.isEmpty then none else some (utf8Bytes ("\n".intercalate text))

def contentType (headers : List (String × String)) (default : String) : String :=
  (headers.lookup "content-type").getD default

def exchangeContents (toVec : List Json → Bytes) (now : OffsetDateTime) (task : TaskKey)
    (exchange : DecodedExchange) : List StoredContentInput :=
  let content (part : ContentPart) (mediaType : String) (body : Bytes)
      (headers : List (String × String)) : StoredContentInput :=
    ⟨task, part, mediaType, body, headers, now⟩
  let additional (part : ContentPart) (mediaType : String) (body : Option Bytes) :
      List StoredContentInput :=
    (body.map fun body => content part mediaType body []).toList
  [content .request (contentType exchange.requestHeaders "application/json")
      exchange.requestBody exchange.requestHeaders,
    content .response (contentType exchange.responseHeaders "text/event-stream")
      exchange.responseBody exchange.responseHeaders] ++
    additional .toolInput "application/json" (extractToolInputs toVec exchange.attempt) ++
    additional .toolOutput "application/json" (extractToolOutputs toVec exchange.attempt) ++
    additional .modelText "text/plain" (extractModelText exchange.attempt)

/-! ## Exchanges -/

section Exchange
variable (client : ClientInstance) (title : String → Option String) (t : Tick) (index : ℕ)
  (exchange : DecodedExchange)

def exchangeTask : TaskKey where
  clientId := client.clientId
  provider := exchange.attempt.identity.provider
  sessionId := exchange.attempt.identity.sessionId
  threadId := exchange.attempt.identity.threadId
  turnId := exchange.attempt.identity.turnId

def taskSummaryOf (task : TaskKey) (cursor : Option TaskCursor) : TaskSummary :=
  let projection := mapAttemptProjection exchange.attempt
  { task
    conversationTitle := (title task.sessionId).or (cursor.bind TaskCursor.conversationTitle)
    phase := projection.taskPhase
    outcome := projection.taskOutcome
    sequence := (cursor.map fun cursor => cursor.sequence + 1).getD 1
    lastEventId := t.ids (.event index)
    startedAt := (cursor.map TaskCursor.startedAt).getD (fromMs exchange.attempt.requestAtMs)
    updatedAt := t.now
    terminalAt := if projection.taskPhase = .terminal then some t.terminalNow else none
    attemptCount := (cursor.map fun cursor => cursor.attemptCount + 1).getD 1
    model := exchange.attempt.model.or (cursor.bind TaskCursor.model)
    toolNames := mergeUnique ((cursor.map TaskCursor.toolNames).getD []) projection.toolNames
    responseIds :=
      mergeUnique ((cursor.map TaskCursor.responseIds).getD []) projection.responseId.toList
    usage := mergeUsage (cursor.map TaskCursor.usage) projection.usage
    completeness := projection.completeness
    lastError := projection.error }

def taskTransitionOf (summary : TaskSummary) : TaskTransition where
  eventId := summary.lastEventId
  task := summary.task
  sequence := summary.sequence
  observedAt := summary.updatedAt
  phase := summary.phase
  outcome := summary.outcome
  cause := (mapAttemptProjection exchange.attempt).cause
  completeness := summary.completeness
  error := summary.lastError

def attemptSummaryOf (summary : TaskSummary) : AttemptSummary :=
  let projection := mapAttemptProjection exchange.attempt
  { attemptId := exchange.attempt.attemptId
    task := summary.task
    ordinal := summary.attemptCount
    status := projection.attemptStatus
    startedAt := fromMs exchange.attempt.requestAtMs
    finishedAt := some t.now
    responseId := projection.responseId
    model := exchange.attempt.model
    toolNames := projection.toolNames
    usage := projection.usage
    completeness := projection.completeness
    error := projection.error }

def httpExchangeOf (codec : Codec) (task : TaskKey) : HttpExchangeSummary where
  exchangeId := t.ids (.item index)
  task := task
  attemptId := exchange.attempt.attemptId
  observedAt := t.now
  method := "POST"
  path := "/v1/responses"
  status := exchange.responseStatus
  requestBytes := exchange.requestBody.length
  responseBytes := exchange.responseBody.length
  requestSha256 := some (codec.sha256Hex exchange.requestBody)
  responseSha256 := some (codec.sha256Hex exchange.responseBody)
  completeness := (mapAttemptProjection exchange.attempt).completeness

def sessionSummaryOf (summary : TaskSummary) : SessionSummary where
  task := summary.task
  parentTurnId := exchange.attempt.codex.parentTurnId
  rootTurnId := exchange.attempt.codex.rootTurnId
  firstSeenAt := summary.startedAt

/-- The records of an exchange, from the cursor of its task. -/
def exchangeRecords (codec : Codec) (cursor : Option TaskCursor) : List SummaryRecord :=
  let summary := taskSummaryOf title t index exchange (exchangeTask client exchange) cursor
  [.session (sessionSummaryOf exchange summary),
    .attempt (attemptSummaryOf t exchange summary),
    .httpExchange (httpExchangeOf t index exchange codec summary.task),
    .task summary,
    .taskTransition (taskTransitionOf exchange summary)]

/-- The exchange belongs to a turn, and its response was not recorded before. -/
def isProjected (s : Store) : Bool :=
  exchange.attempt.codex.requestKind = "turn" &&
    !(mapAttemptProjection exchange.attempt).responseId.any fun responseId =>
      hasAttemptResponse s (exchangeTask client exchange) responseId

def projectExchange (codec : Codec) (toVec : List Json → Bytes) (s : Store) : CaptureBatch :=
  let task := exchangeTask client exchange
  if isProjected client exchange s then
    ⟨exchangeRecords client title t index exchange codec (loadTaskCursor s task),
      exchangeContents toVec t.now task exchange⟩
  else CaptureBatch.empty

end Exchange

def sampleClient : ClientInstance := ⟨"a", .v7 0, "h", "p", "v", 0⟩

/-- A captured exchange of the turn `s:t:u` whose response is the stream. -/
def streamExchange (attemptId : Uuid) (payloads : List Json) : DecodedExchange where
  attempt := decodeHttpExchange attemptId ⟨"s", "t", "u", "turn", none, none⟩ (.object []) true true
    (.stream payloads) 1000
  requestBody := []
  responseBody := []
  requestHeaders := []
  responseHeaders := []
  responseStatus := some 200

def completedPayload (responseId : String) : Json :=
  .object [("type", .string "response.completed"),
    ("response", .object [("id", .string responseId)])]

def errorPayload (message : String) : Json :=
  .object [("type", .string "error"), ("error", .object [("message", .string message)])]

/-! ## Gaps and process exits -/

/-- The summary and the transition that carry a stored task on without an exchange. -/
def carryOn (summary : TaskSummary) (cause : TransitionCause) : List SummaryRecord :=
  [.task summary,
    .taskTransition {
      eventId := summary.lastEventId
      task := summary.task
      sequence := summary.sequence
      observedAt := summary.updatedAt
      phase := summary.phase
      outcome := summary.outcome
      cause
      completeness := summary.completeness
      error := summary.lastError }]

/-- A summary built from the cursor alone. -/
def TaskCursor.summary (cursor : TaskCursor) (title : String → Option String) (task : TaskKey)
    (eventId : Uuid) (observedAt : OffsetDateTime) : TaskSummary where
  task := task
  conversationTitle := (title task.sessionId).or cursor.conversationTitle
  phase := cursor.phase
  outcome := cursor.outcome
  sequence := cursor.sequence + 1
  lastEventId := eventId
  startedAt := cursor.startedAt
  updatedAt := observedAt
  terminalAt := none
  attemptCount := cursor.attemptCount
  model := cursor.model
  toolNames := cursor.toolNames
  responseIds := cursor.responseIds
  usage := cursor.usage
  completeness := cursor.completeness
  lastError := none

/-- The stored cursor of a task that is not terminal yet. -/
def liveCursor (s : Store) (task : TaskKey) : Option TaskCursor :=
  (loadTaskCursor s task).filter fun cursor => cursor.phase ≠ .terminal

section Gaps
variable (client : ClientInstance) (title : String → Option String) (t : Tick) (s : Store)

def gapTaskRecords (index : ℕ) (task : TaskKey) (observedAt : OffsetDateTime) (loss : CaptureLoss) :
    List SummaryRecord :=
  match liveCursor s task with
  | none => []
  | some cursor =>
      carryOn { cursor.summary title task (t.ids (.event index)) observedAt with
        completeness := .degraded
        lastError := some (.captureLost loss) } .captureLost

def projectGap (index : ℕ) (flowId : Uuid) (task : Option TaskKey) (observedAt : OffsetDateTime)
    (reason : String) (lostBytes : Option ℕ) : CaptureBatch :=
  ⟨.captureGap {
      gapId := t.ids (.item index)
      clientInstanceId := client.instanceId
      task
      observedAt
      reason
      lostBytes
      flowId := some flowId } ::
    (task.map fun task => gapTaskRecords title t s index task observedAt ⟨reason, lostBytes⟩).getD [],
    []⟩

/-- How the tasks of a process end with it. -/
def exitOutcome (process : ProcessSummary) : TaskOutcome × StructuredError :=
  if process.signal.isSome || process.exitCode.any fun code => code ≠ 0 then
    (.terminated, .processTerminated ⟨process.exitCode, process.signal⟩)
  else (.lost, .captureLost ⟨"process exited without validated terminal turn event", none⟩)

def exitTaskRecords (process : ProcessSummary) (observedAt : OffsetDateTime)
    (task : TaskKey × ℕ) : List SummaryRecord :=
  match liveCursor s task.1 with
  | none => []
  | some cursor =>
      carryOn { cursor.summary title task.1 (t.ids (.event task.2)) observedAt with
        phase := .terminal
        outcome := some (exitOutcome process).1
        terminalAt := some observedAt
        lastError := some (exitOutcome process).2 } .processExited

def projectProcessExit (process : ProcessSummary) (tasks : List TaskKey) : CaptureBatch :=
  let observedAt := process.exitedAt.getD t.now
  ⟨.process process :: tasks.zipIdx.flatMap (exitTaskRecords title t s process observedAt), []⟩

end Gaps

end Codexwatch.Client
