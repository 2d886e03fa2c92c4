import Codexwatch.Protocol.Types

/-!
# Records of the client

The types of `client/src/model.rs`. An `OffsetDateTime` is its Unix time in
nanoseconds; `ts` and `from_ms` are the conversions of `client/src/store.rs`.
-/
namespace Codexwatch.Client

open Protocol

/-- Nanoseconds since the epoch. -/
abbrev OffsetDateTime := ℤ

/-- `unix_timestamp() * 1000`: whole seconds, in milliseconds. -/
def ts (value : OffsetDateTime) : ℤ := value / 1000000000 * 1000

theorem ts_mono {a b : OffsetDateTime} (h : a ≤ b) : ts a ≤ ts b := by
  have hseconds : a / 1000000000 ≤ b / 1000000000 := Int.ediv_le_ediv (by decide) h
  exact Int.mul_le_mul_of_nonneg_right hseconds (by decide)

def fromMs (value : ℤ) : OffsetDateTime := value * 1000000

structure TaskKey where
  clientId : String
  provider : String
  sessionId : String
  threadId : String
  turnId : String
  deriving DecidableEq

def TaskKey.taskRef (k : TaskKey) : String := k.sessionId ++ ":" ++ k.threadId ++ ":" ++ k.turnId

structure SessionSummary where
  task : TaskKey
  parentTurnId : Option String
  rootTurnId : Option String
  firstSeenAt : OffsetDateTime
  deriving DecidableEq

inductive TaskPhase
  | running | awaitingTool | retrying | terminal
  deriving DecidableEq, Repr

inductive TaskOutcome
  | completed | failed | aborted | terminated | lost
  deriving DecidableEq, Repr

inductive Completeness
  | complete | degraded | unknown
  deriving DecidableEq, Repr

inductive AttemptStatus
  | running | completed | failed | incomplete | cancelled | transportLost
  deriving DecidableEq, Repr

inductive TransitionCause
  | captureStarted | attemptStarted | attemptCompleted | responseEndTurn | toolCallObserved
  | retryScheduled | codexTurnComplete | codexTurnAborted | processExited | captureLost
  | clientRecovered
  deriving DecidableEq, Repr

structure ProviderError where
  wireType : String
  code : Option String
  message : String
  param : Option String
  deriving DecidableEq

structure HttpError where
  status : ℕ
  providerError : Option ProviderError
  deriving DecidableEq

structure ProcessTermination where
  exitCode : Option ℤ
  signal : Option ℤ
  deriving DecidableEq

structure CaptureLoss where
  reason : String
  lostBytes : Option ℕ
  deriving DecidableEq

structure UnsupportedCodexBuild where
  executableSha256 : String
  architecture : String
  codexVersion : Option String
  deriving DecidableEq

inductive StructuredError
  | provider (error : ProviderError)
  | http (error : HttpError)
  | incomplete (reason : String)
  | codexTerminal (code : Option String) (message : String)
  | turnAborted (reason : String)
  | processTerminated (error : ProcessTermination)
  | captureLost (error : CaptureLoss)
  | unsupportedCodexBuild (error : UnsupportedCodexBuild)
  deriving DecidableEq

structure TokenUsage where
  inputTokens : Option ℕ
  outputTokens : Option ℕ
  cachedInputTokens : Option ℕ
  reasoningTokens : Option ℕ
  totalTokens : Option ℕ
  deriving DecidableEq

/-- `TokenUsage::default()`. -/
def TokenUsage.none : TokenUsage := ⟨.none, .none, .none, .none, .none⟩

structure TaskTransition where
  eventId : Uuid
  task : TaskKey
  sequence : ℕ
  observedAt : OffsetDateTime
  phase : TaskPhase
  outcome : Option TaskOutcome
  cause : TransitionCause
  completeness : Completeness
  error : Option StructuredError
  deriving DecidableEq

structure TaskSummary where
  task : TaskKey
  conversationTitle : Option String
  phase : TaskPhase
  outcome : Option TaskOutcome
  sequence : ℕ
  lastEventId : Uuid
  startedAt : OffsetDateTime
  updatedAt : OffsetDateTime
  terminalAt : Option OffsetDateTime
  attemptCount : ℕ
  model : Option String
  toolNames : List String
  responseIds : List String
  usage : TokenUsage
  completeness : Completeness
  lastError : Option StructuredError
  deriving DecidableEq

structure AttemptSummary where
  attemptId : Uuid
  task : TaskKey
  ordinal : ℕ
  status : AttemptStatus
  startedAt : OffsetDateTime
  finishedAt : Option OffsetDateTime
  responseId : Option String
  model : Option String
  toolNames : List String
  usage : TokenUsage
  completeness : Completeness
  error : Option StructuredError
  deriving DecidableEq

structure HttpExchangeSummary where
  exchangeId : Uuid
  task : TaskKey
  attemptId : Uuid
  observedAt : OffsetDateTime
  method : String
  path : String
  status : Option ℕ
  requestBytes : ℕ
  responseBytes : ℕ
  requestSha256 : Option String
  responseSha256 : Option String
  completeness : Completeness
  deriving DecidableEq

structure CaptureGapSummary where
  gapId : Uuid
  clientInstanceId : Uuid
  task : Option TaskKey
  observedAt : OffsetDateTime
  reason : String
  lostBytes : Option ℕ
  flowId : Option Uuid
  deriving DecidableEq

structure ProcessSummary where
  processInstanceId : Uuid
  clientInstanceId : Uuid
  pid : ℕ
  executableSha256 : String
  codexVersion : Option String
  startedAt : OffsetDateTime
  exitedAt : Option OffsetDateTime
  exitCode : Option ℤ
  signal : Option ℤ
  deriving DecidableEq

structure CaptureHealth where
  afPacketActive : Bool
  uprobeActive : Bool
  profileSupported : Bool
  ringBufferDrops : ℕ
  activeFlows : ℕ
  outboxBytes : ℕ
  lastError : Option StructuredError
  deriving DecidableEq

structure HeartbeatSummary where
  clientInstanceId : Uuid
  observedAt : OffsetDateTime
  clientVersion : String
  health : CaptureHealth
  deriving DecidableEq

inductive SummaryRecord
  | session (record : SessionSummary)
  | task (record : TaskSummary)
  | taskTransition (record : TaskTransition)
  | attempt (record : AttemptSummary)
  | httpExchange (record : HttpExchangeSummary)
  | captureGap (record : CaptureGapSummary)
  | process (record : ProcessSummary)
  | heartbeat (record : HeartbeatSummary)
  deriving DecidableEq

end Codexwatch.Client
