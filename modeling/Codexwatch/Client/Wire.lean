import Codexwatch.Client.Model
import Codexwatch.Lib.Checked

/-!
# Client records on the wire

The conversions of `client/src/store.rs` from the client's records to the wire
types. Each `Uuid::now_v7()` of the source is an argument.

## Main definitions

* `mapUsage`, `mapUsageChecked` — the sum of the tokens, without and with overflow checks.
* `mapErrorRecord`, `mapTransitionEvent`, `mapGapRecord`.
-/
namespace Codexwatch.Client

open Protocol

def mapPhase : TaskPhase → Protocol.TaskPhase
  | .running => .running
  | .awaitingTool => .awaitingTool
  | .retrying => .retrying
  | .terminal => .terminal

def mapOutcome : TaskOutcome → TerminalOutcome
  | .completed => .completed
  | .failed => .failed
  | .aborted => .aborted
  | .terminated => .terminated
  | .lost => .lost

def mapIntegrity : Completeness → IntegrityState
  | .complete => .complete
  | .degraded | .unknown => .degraded

/-- The tokens beside the total. -/
def TokenUsage.parts (usage : TokenUsage) : ℕ :=
  usage.inputTokens.getD 0 + usage.outputTokens.getD 0 + usage.reasoningTokens.getD 0

/-- The sum of the parts is in `u64`, and wraps in a build without overflow checks. -/
def mapUsage (usage : TokenUsage) : UsageSummary where
  inputTokens := usage.inputTokens.getD 0
  outputTokens := usage.outputTokens.getD 0
  reasoningTokens := usage.reasoningTokens.getD 0
  totalTokens := usage.totalTokens.getD (usage.parts % 2 ^ 64)

/-- `map_usage` in a build with overflow checks: the parts are added whether or not there is a
total. -/
def mapUsageChecked (usage : TokenUsage) : Option UsageSummary := do
  let sum ← Checked.add (usage.inputTokens.getD 0) (usage.outputTokens.getD 0)
  let sum ← Checked.add sum (usage.reasoningTokens.getD 0)
  pure {
    inputTokens := usage.inputTokens.getD 0
    outputTokens := usage.outputTokens.getD 0
    reasoningTokens := usage.reasoningTokens.getD 0
    totalTokens := usage.totalTokens.getD sum }

theorem mapUsageChecked_eq (usage : TokenUsage) :
    mapUsageChecked usage = if usage.parts < 2 ^ 64 then some (mapUsage usage) else none := by
  split
  · rename_i hparts
    rw [mapUsage, Nat.mod_eq_of_lt hparts]
    rw [TokenUsage.parts] at hparts ⊢
    rw [mapUsageChecked, Checked.add_eq_some (by omega), Option.bind_eq_bind, Option.bind_some,
      Checked.add_eq_some hparts]
    rfl
  · rename_i hparts
    rw [TokenUsage.parts, Nat.not_lt] at hparts
    rw [mapUsageChecked]
    by_cases hsum : usage.inputTokens.getD 0 + usage.outputTokens.getD 0 < 2 ^ 64
    · rw [Checked.add_eq_some hsum, Option.bind_eq_bind, Option.bind_some,
        Checked.add_eq_none hparts]
      rfl
    · rw [Checked.add_eq_none (Nat.not_lt.mp hsum)]
      rfl

def mapAttemptStatus : AttemptStatus → Protocol.AttemptStatus
  | .running => .running
  | .completed => .completed
  | .failed => .failed
  | .incomplete => .incomplete
  | .cancelled => .cancelled
  | .transportLost => .transportLost

@[simp] theorem mapPhase_eq_terminal {phase : TaskPhase} :
    mapPhase phase = .terminal ↔ phase = .terminal := by cases phase <;> simp [mapPhase]

/-! ## Errors -/

/-- `{kind:?}` -/
def debugName : TaskEventKind → String
  | .taskObserved => "TaskObserved"
  | .attemptStarted => "AttemptStarted"
  | .attemptCompleted => "AttemptCompleted"
  | .attemptFailed => "AttemptFailed"
  | .attemptIncomplete => "AttemptIncomplete"
  | .attemptCancelled => "AttemptCancelled"
  | .attemptLost => "AttemptLost"
  | .awaitingTool => "AwaitingTool"
  | .retrying => "Retrying"
  | .terminalCompleted => "TerminalCompleted"
  | .terminalFailed => "TerminalFailed"
  | .terminalAborted => "TerminalAborted"
  | .terminalTerminated => "TerminalTerminated"
  | .terminalLost => "TerminalLost"
  | .captureGap => "CaptureGap"
  | .unsupportedBuild => "UnsupportedBuild"
  | .processExit => "ProcessExit"

def mapErrorRecord (errorId : Uuid) (taskRef : String) (attemptId : Option Uuid)
    (occurredAtMs : TimestampMs) (error : StructuredError) (eventKind : Option TaskEventKind) :
    ErrorRecord :=
  let record (source : ErrorSource) (message : String) : ErrorRecord :=
    ⟨errorId, taskRef, attemptId, occurredAtMs, source, none, none, message, none, none, none,
      none, none⟩
  match error with
  | .provider inner =>
      { record (if inner.wireType = "response.cancelled" then .responseCancelled
          else .responseFailed) inner.message with
        wireType := some inner.wireType
        code := inner.code
        param := inner.param }
  | .http inner =>
      { record .httpStatus
          ((inner.providerError.map ProviderError.message).getD s!"http {inner.status}") with
        wireType := inner.providerError.map ProviderError.wireType
        code := inner.providerError.bind ProviderError.code
        param := inner.providerError.bind ProviderError.param
        httpStatus := some inner.status }
  | .incomplete reason => { record .responseIncomplete reason with reason := some reason }
  | .codexTerminal code message => { record .turnComplete message with code }
  | .turnAborted reason => { record .turnAborted reason with reason := some reason }
  | .processTerminated inner =>
      { record .processExit "process exited" with
        reason := eventKind.map debugName
        exitCode := inner.exitCode
        signal := inner.signal }
  | .captureLost inner => { record .captureGap inner.reason with reason := some inner.reason }
  | .unsupportedCodexBuild inner =>
      { record .unsupportedCodexBuild s!"unsupported build {inner.architecture}" with
        code := some inner.executableSha256
        param := inner.codexVersion }

/-- The source of an error record, which depends on the structured error alone. -/
def errorSource : StructuredError → ErrorSource
  | .provider inner =>
      if inner.wireType = "response.cancelled" then .responseCancelled else .responseFailed
  | .http _ => .httpStatus
  | .incomplete _ => .responseIncomplete
  | .codexTerminal _ _ => .turnComplete
  | .turnAborted _ => .turnAborted
  | .processTerminated _ => .processExit
  | .captureLost _ => .captureGap
  | .unsupportedCodexBuild _ => .unsupportedCodexBuild

section
variable {errorId : Uuid} {taskRef : String} {attemptId : Option Uuid} {occurredAtMs : TimestampMs}
  {error : StructuredError} {kind : Option TaskEventKind}

@[simp] theorem mapErrorRecord_source :
    (mapErrorRecord errorId taskRef attemptId occurredAtMs error kind).source = errorSource error := by
  cases error <;> rfl

@[simp] theorem mapErrorRecord_taskRef :
    (mapErrorRecord errorId taskRef attemptId occurredAtMs error kind).taskRef = taskRef := by
  cases error <;> rfl

@[simp] theorem mapErrorRecord_errorId :
    (mapErrorRecord errorId taskRef attemptId occurredAtMs error kind).errorId = errorId := by
  cases error <;> rfl

end

def extractHttpStatus : Option StructuredError → Option ℕ
  | some (.http inner) => some inner.status
  | _ => none

def extractProcessExit : Option StructuredError → Option ℤ × Option ℤ
  | some (.processTerminated inner) => (inner.exitCode, inner.signal)
  | _ => (none, none)

/-! ## Transitions and gaps -/

def classifyAttemptFailure : Option StructuredError → TaskEventKind
  | some (.incomplete _) => .attemptIncomplete
  | some (.captureLost _) => .attemptLost
  | some (.provider provider) =>
      if provider.wireType = "response.cancelled" then .attemptCancelled else .attemptFailed
  | some (.http _) => .attemptFailed
  | _ => .retrying

def transitionKind (transition : TaskTransition) : TaskEventKind :=
  match transition.cause, transition.phase, transition.outcome with
  | .attemptStarted, _, _ => .attemptStarted
  | .responseEndTurn, .terminal, some .completed => .terminalCompleted
  | .responseEndTurn, _, _ => .attemptCompleted
  | .toolCallObserved, _, _ => .awaitingTool
  | .retryScheduled, _, _ => .retrying
  | .captureLost, .terminal, some .lost => .terminalLost
  | .captureLost, _, _ => .captureGap
  | .processExited, _, some .lost => .terminalLost
  | .processExited, _, _ => .processExit
  | .codexTurnAborted, _, _ => .terminalAborted
  | .codexTurnComplete, _, some .completed => .terminalCompleted
  | .codexTurnComplete, _, some .failed => .terminalFailed
  | .codexTurnComplete, _, some .aborted => .terminalAborted
  | .codexTurnComplete, _, some .terminated => .terminalTerminated
  | .codexTurnComplete, _, some .lost => .terminalLost
  | .codexTurnComplete, _, none => .attemptCompleted
  | .attemptCompleted, .awaitingTool, _ => .awaitingTool
  | .attemptCompleted, .retrying, _ => classifyAttemptFailure transition.error
  | .attemptCompleted, _, _ => .attemptCompleted
  | .captureStarted, _, _ | .clientRecovered, _, _ => .taskObserved

def mapTransitionEvent (errorId : Uuid) (transition : TaskTransition) : TaskEvent :=
  let kind := transitionKind transition
  { eventId := transition.eventId
    taskRef := transition.task.taskRef
    sequence := transition.sequence
    occurredAtMs := ts transition.observedAt
    kind
    phase := mapPhase transition.phase
    terminal := transition.outcome.map mapOutcome
    attemptId := none
    responseId := none
    model := none
    toolNames := []
    usage := UsageSummary.zero
    error := transition.error.map fun error =>
      mapErrorRecord errorId transition.task.taskRef none (ts transition.observedAt) error
        (some kind)
    httpStatus := extractHttpStatus transition.error
    exitCode := (extractProcessExit transition.error).1
    signal := (extractProcessExit transition.error).2
    note := none }

def mapGapRecord (gap : CaptureGapSummary) : CaptureGapRecord where
  gapId := gap.gapId
  taskRef := gap.task.map TaskKey.taskRef
  flowId := (gap.flowId.map Uuid.toString).getD "unknown"
  direction := .serverToClient
  occurredAtMs := ts gap.observedAt
  startSeq := gap.lostBytes.getD 0
  endSeq := gap.lostBytes.getD 0
  reason := gap.reason

end Codexwatch.Client
