import Mathlib.Data.List.Induction
import Codexwatch.Capture.Responses
import Codexwatch.Client.Model

/-!
# The projection of a decoded attempt

`map_attempt_projection` of `client/src/capture_lane.rs` folds the decoded events of an
attempt into its status, the phase of its task and the error to show for it.

The status follows the last event that closes the attempt. The error does not: an
error stays when a later event completes the attempt.

## Main definitions

* `mapAttemptProjection` — the projection.
* `closing`, `lastError` — the events the projection depends on.
* `endsTurn` — the attempts that complete their task.
* `Evident` — an outcome or a loss that the decoded events show.
-/
namespace Codexwatch.Client

open Protocol Capture

structure AttemptProjection where
  attemptStatus : AttemptStatus
  taskPhase : TaskPhase
  taskOutcome : Option TaskOutcome
  completeness : Completeness
  error : Option StructuredError
  responseId : Option String
  toolNames : List String
  usage : TokenUsage
  cause : TransitionCause
  deriving DecidableEq

def structuredErrorFromDecoded (error : DecodedError) : StructuredError :=
  match error.httpStatus, error.reason with
  | some status, _ => .http {
      status
      providerError := some {
        wireType := error.wireType.getD "http_error"
        code := error.code
        message := error.message.getD s!"http {status}"
        param := error.param } }
  | none, some reason => .incomplete reason
  | none, none => .provider {
      wireType := error.wireType.getD "response.failed"
      code := error.code
      message := error.message.getD "unknown error"
      param := error.param }

/-- The variables of the loop. -/
structure Scan where
  responseId : Option String
  toolNames : List String
  usage : TokenUsage
  error : Option StructuredError
  endTurn : Bool
  status : AttemptStatus
  phase : TaskPhase
  cause : TransitionCause
  sawTerminal : Bool

namespace Scan

def start : Scan := ⟨none, [], TokenUsage.none, none, true, .running, .running, .attemptStarted, false⟩

def fail (s : Scan) (status : AttemptStatus) (error : DecodedError) : Scan :=
  { s with
    status
    phase := .retrying
    cause := .retryScheduled
    error := some (structuredErrorFromDecoded error)
    sawTerminal := true }

def step (s : Scan) : DecodedEvent → Scan
  | .toolCall _ toolName =>
      { s with
        toolNames := if toolName ∈ s.toolNames then s.toolNames else s.toolNames ++ [toolName] }
  | .attemptCompleted _ responseId endTurn usage =>
      { s with
        responseId
        endTurn
        usage := {
          inputTokens := some usage.inputTokens
          outputTokens := some usage.outputTokens
          cachedInputTokens := none
          reasoningTokens := some usage.reasoningTokens
          totalTokens := some usage.totalTokens }
        status := .completed
        phase := .running
        cause := .attemptCompleted
        sawTerminal := true }
  | .attemptFailed _ responseId error => { s.fail .failed error with responseId }
  | .attemptIncomplete _ responseId error => { s.fail .incomplete error with responseId }
  | .attemptCancelled _ responseId error => { s.fail .cancelled error with responseId }
  | .httpError _ error => s.fail .failed error
  | .taskObserved _ | .attemptStarted _ _ => s

end Scan

def scan (events : List DecodedEvent) : Scan := events.foldl Scan.step Scan.start

def lostReason (sawTerminal : Bool) : String :=
  if sawTerminal then "request or response body incomplete"
  else "stream closed before response.completed"

def mapAttemptProjection (attempt : DecodedAttempt) : AttemptProjection :=
  let s := scan attempt.decodedEvents
  let completeness : Completeness :=
    if attempt.requestComplete && (attempt.responseComplete || s.sawTerminal) then .complete
    else .degraded
  let projection (status : AttemptStatus) (phase : TaskPhase) (outcome : Option TaskOutcome)
      (cause : TransitionCause) (error : Option StructuredError) : AttemptProjection :=
    ⟨status, phase, outcome, completeness, error, s.responseId, s.toolNames, s.usage, cause⟩
  if !s.sawTerminal || completeness = .degraded then
    { projection .transportLost .retrying none .captureLost
        (some (.captureLost ⟨lostReason s.sawTerminal, none⟩)) with completeness := .degraded }
  else if s.status = .completed && (!s.toolNames.isEmpty || !s.endTurn) then
    projection s.status .awaitingTool none .toolCallObserved s.error
  else if s.status = .completed && s.endTurn then
    projection s.status .terminal (some .completed) .responseEndTurn s.error
  else projection s.status s.phase none s.cause s.error

/-! ## What the projection depends on -/

/-- The error an event carries. -/
def eventError : DecodedEvent → Option DecodedError
  | .attemptFailed _ _ error | .attemptIncomplete _ _ error | .attemptCancelled _ _ error
  | .httpError _ error => some error
  | .taskObserved _ | .attemptStarted _ _ | .toolCall _ _ | .attemptCompleted _ _ _ _ => none

/-- The status an event gives the attempt. -/
def eventStatus : DecodedEvent → Option AttemptStatus
  | .attemptCompleted _ _ _ _ => some .completed
  | .attemptFailed _ _ _ | .httpError _ _ => some .failed
  | .attemptIncomplete _ _ _ => some .incomplete
  | .attemptCancelled _ _ _ => some .cancelled
  | .taskObserved _ | .attemptStarted _ _ | .toolCall _ _ => none

def isToolCall : DecodedEvent → Bool
  | .toolCall _ _ => true
  | _ => false

/-- The last event that gives the attempt a status. -/
def closing (events : List DecodedEvent) : Option DecodedEvent :=
  (events.filter fun event => (eventStatus event).isSome).getLast?

def lastError (events : List DecodedEvent) : Option DecodedError :=
  (events.filterMap eventError).getLast?

/-- The attempt completes its turn: the request is whole, no tool is called, and the
closing event is a completion that ends the turn. -/
def endsTurn (attempt : DecodedAttempt) : Bool :=
  attempt.requestComplete && !attempt.decodedEvents.any isToolCall &&
    match closing attempt.decodedEvents with
    | some (.attemptCompleted _ _ endTurn _) => endTurn
    | _ => false

theorem ne_completed_of_error {event : DecodedEvent} {error : DecodedError}
    {status : AttemptStatus} (herror : eventError event = some error)
    (hstatus : eventStatus event = some status) : status ≠ .completed := by
  intro h
  subst h
  cases event <;> simp [eventStatus] at hstatus
  simp [eventError] at herror

section Scan
variable {events : List DecodedEvent} {event : DecodedEvent}

theorem scan_append_singleton : scan (events ++ [event]) = (scan events).step event := by
  simp [scan]

theorem closing_append_singleton :
    closing (events ++ [event]) =
      if (eventStatus event).isSome then some event else closing events := by
  cases h : (eventStatus event).isSome <;> simp [closing, h]

theorem lastError_append_singleton :
    lastError (events ++ [event]) = (eventError event).or (lastError events) := by
  cases h : eventError event <;> simp [lastError, h]

theorem scan_error : (scan events).error = (lastError events).map structuredErrorFromDecoded := by
  induction events using List.reverseRecOn with
  | nil => rfl
  | append_singleton events event ih =>
      rw [scan_append_singleton, lastError_append_singleton]
      cases event <;> simp [Scan.step, Scan.fail, eventError, ih]

theorem scan_toolNames : (scan events).toolNames.isEmpty = !events.any isToolCall := by
  induction events using List.reverseRecOn with
  | nil => rfl
  | append_singleton events event ih =>
      rw [scan_append_singleton, List.any_append, Bool.not_or, ← ih]
      cases event with
      | toolCall attemptId toolName =>
          by_cases h : toolName ∈ (scan events).toolNames
          · simp [Scan.step, isToolCall, h, List.ne_nil_of_mem h]
          · simp [Scan.step, isToolCall, h]
      | _ => simp [Scan.step, Scan.fail, isToolCall]

theorem scan_of_closing_none (h : closing events = none) : (scan events).sawTerminal = false := by
  induction events using List.reverseRecOn with
  | nil => rfl
  | append_singleton events event ih =>
      rw [closing_append_singleton] at h
      rw [scan_append_singleton]
      cases event <;> simp_all [Scan.step, eventStatus]

/-- The closing event is a completion: its status, and whether it ends the turn. -/
theorem scan_of_closing_completed {attemptId : Uuid} {responseId : Option String} {endTurn : Bool}
    {usage : UsageSummary}
    (h : closing events = some (.attemptCompleted attemptId responseId endTurn usage)) :
    (scan events).sawTerminal = true ∧ (scan events).status = .completed ∧
      (scan events).endTurn = endTurn := by
  induction events using List.reverseRecOn with
  | nil => simp [closing] at h
  | append_singleton events event ih =>
      rw [closing_append_singleton] at h
      rw [scan_append_singleton]
      cases event <;> simp_all [Scan.step, eventStatus]

/-- The closing event carries an error: its status, the retry, and its own error. -/
theorem scan_of_closing_error {error : DecodedError} (h : closing events = some event)
    (herror : eventError event = some error) :
    (scan events).sawTerminal = true ∧ some (scan events).status = eventStatus event ∧
      (scan events).phase = .retrying ∧ (scan events).cause = .retryScheduled ∧
      (scan events).error = some (structuredErrorFromDecoded error) := by
  induction events using List.reverseRecOn with
  | nil => simp [closing] at h
  | append_singleton events last ih =>
      rw [closing_append_singleton] at h
      rw [scan_append_singleton]
      cases last <;> simp_all [Scan.step, Scan.fail, eventStatus, eventError] <;>
        (subst h; simp_all)

end Scan

/-! ## The cases of the projection -/

section Projection
variable {attempt : DecodedAttempt}

theorem mapAttemptProjection_of_lost
    (h : attempt.requestComplete = false ∨ closing attempt.decodedEvents = none) :
    ∃ reason, (reason = lostReason true ∨ reason = lostReason false) ∧
      mapAttemptProjection attempt = {
        attemptStatus := .transportLost
        taskPhase := .retrying
        taskOutcome := none
        completeness := .degraded
        error := some (.captureLost ⟨reason, none⟩)
        responseId := (scan attempt.decodedEvents).responseId
        toolNames := (scan attempt.decodedEvents).toolNames
        usage := (scan attempt.decodedEvents).usage
        cause := .captureLost } := by
  refine ⟨lostReason (scan attempt.decodedEvents).sawTerminal, ?_, ?_⟩
  · cases (scan attempt.decodedEvents).sawTerminal <;> simp
  · obtain hrequest | hclosing := h
    · simp [mapAttemptProjection, hrequest]
    · simp [mapAttemptProjection, scan_of_closing_none hclosing]

theorem mapAttemptProjection_of_completed {attemptId : Uuid} {responseId : Option String}
    {endTurn : Bool} {usage : UsageSummary} (hrequest : attempt.requestComplete = true)
    (h : closing attempt.decodedEvents = some (.attemptCompleted attemptId responseId endTurn usage)) :
    mapAttemptProjection attempt = {
      attemptStatus := .completed
      taskPhase := if endsTurn attempt then .terminal else .awaitingTool
      taskOutcome := if endsTurn attempt then some .completed else none
      completeness := .complete
      error := (lastError attempt.decodedEvents).map structuredErrorFromDecoded
      responseId := (scan attempt.decodedEvents).responseId
      toolNames := (scan attempt.decodedEvents).toolNames
      usage := (scan attempt.decodedEvents).usage
      cause := if endsTurn attempt then .responseEndTurn else .toolCallObserved } := by
  obtain ⟨hsaw, hstatus, hend⟩ := scan_of_closing_completed h
  cases htools : attempt.decodedEvents.any isToolCall <;> cases endTurn <;>
    simp [mapAttemptProjection, endsTurn, hrequest, hsaw, hstatus, hend, h, htools,
      scan_toolNames, scan_error]

theorem mapAttemptProjection_of_error {event : DecodedEvent} {error : DecodedError}
    {status : AttemptStatus} (hrequest : attempt.requestComplete = true)
    (h : closing attempt.decodedEvents = some event) (herror : eventError event = some error)
    (hstatus : eventStatus event = some status) :
    mapAttemptProjection attempt = {
      attemptStatus := status
      taskPhase := .retrying
      taskOutcome := none
      completeness := .complete
      error := some (structuredErrorFromDecoded error)
      responseId := (scan attempt.decodedEvents).responseId
      toolNames := (scan attempt.decodedEvents).toolNames
      usage := (scan attempt.decodedEvents).usage
      cause := .retryScheduled } := by
  obtain ⟨hsaw, hstatus', hphase, hcause, herror'⟩ := scan_of_closing_error h herror
  have hs : (scan attempt.decodedEvents).status = status :=
    Option.some.inj (hstatus'.trans hstatus)
  have hne : status ≠ .completed := ne_completed_of_error herror hstatus
  simp [mapAttemptProjection, hrequest, hsaw, hs, hne, hphase, hcause, herror']

/-- A closing event is a completion, or it carries an error. -/
theorem closing_cases {event : DecodedEvent} (h : closing attempt.decodedEvents = some event) :
    (∃ attemptId responseId endTurn usage,
      event = .attemptCompleted attemptId responseId endTurn usage) ∨
    (∃ error status, eventError event = some error ∧ eventStatus event = some status) := by
  have hmem := List.mem_of_getLast? h
  rw [List.mem_filter] at hmem
  cases event <;> simp_all [eventStatus, eventError]

/-- An attempt that ends its turn completes the task. -/
theorem mapAttemptProjection_of_endsTurn (h : endsTurn attempt = true) :
    (mapAttemptProjection attempt).taskPhase = .terminal ∧
      (mapAttemptProjection attempt).taskOutcome = some .completed := by
  have hends := h
  simp only [endsTurn, Bool.and_eq_true] at h
  obtain ⟨⟨hrequest, -⟩, hclosing⟩ := h
  split at hclosing
  · rename_i hevent
    rw [mapAttemptProjection_of_completed hrequest hevent]
    simp [hends]
  · cases hclosing

theorem endsTurn_iff : endsTurn attempt = true ↔ attempt.requestComplete = true ∧
    (∃ attemptId responseId usage, closing attempt.decodedEvents =
      some (.attemptCompleted attemptId responseId true usage)) ∧
    ∀ event ∈ attempt.decodedEvents, isToolCall event = false := by
  rw [endsTurn, Bool.and_eq_true, Bool.and_eq_true, Bool.not_eq_true', List.any_eq_false]
  constructor
  · rintro ⟨⟨hrequest, htools⟩, hclosing⟩
    refine ⟨hrequest, ?_, fun event hevent => Bool.eq_false_iff.mpr (htools event hevent)⟩
    split at hclosing
    · rename_i attemptId responseId endTurn usage hevent
      exact ⟨attemptId, responseId, usage, by rw [hevent, hclosing]⟩
    · cases hclosing
  · rintro ⟨hrequest, ⟨attemptId, responseId, usage, hclosing⟩, htools⟩
    refine ⟨⟨hrequest, fun event hevent => ?_⟩, ?_⟩
    · rw [htools event hevent]
      exact Bool.false_ne_true
    · rw [hclosing]

/-- The task is completed, or the transport lost, exactly where the decoded events say so. -/
structure Evident (attempt : DecodedAttempt) (projection : AttemptProjection) : Prop where
  completed : projection.taskPhase = .terminal ∧ projection.taskOutcome = some .completed ↔
    attempt.requestComplete = true ∧
      (∃ attemptId responseId usage, closing attempt.decodedEvents =
        some (.attemptCompleted attemptId responseId true usage)) ∧
      ∀ event ∈ attempt.decodedEvents, isToolCall event = false
  lost : projection.attemptStatus = .transportLost ∧ projection.cause = .captureLost ∧
      projection.completeness = .degraded ↔
    closing attempt.decodedEvents = none ∨ attempt.requestComplete = false
  outcome : projection.taskOutcome = none ∨ projection.taskOutcome = some .completed

theorem evident_mapAttemptProjection (attempt : DecodedAttempt) :
    Evident attempt (mapAttemptProjection attempt) := by
  by_cases hlost : closing attempt.decodedEvents = none ∨ attempt.requestComplete = false
  · obtain ⟨reason, -, hp⟩ := mapAttemptProjection_of_lost hlost.symm
    have hends : endsTurn attempt = false := by
      obtain hnone | hrequest := hlost
      · simp [endsTurn, hnone]
      · simp [endsTurn, hrequest]
    rw [hp]
    refine ⟨?_, iff_of_true ⟨rfl, rfl, rfl⟩ hlost, .inl rfl⟩
    rw [← endsTurn_iff, hends]
    simp
  · obtain ⟨hsome, hrequest⟩ := not_or.mp hlost
    rw [Bool.not_eq_false] at hrequest
    obtain ⟨event, hevent⟩ := Option.ne_none_iff_exists'.mp hsome
    obtain ⟨attemptId, responseId, endTurn, usage, rfl⟩ | ⟨error, status, herror, hstatus⟩ :=
      closing_cases hevent
    · rw [mapAttemptProjection_of_completed hrequest hevent]
      refine ⟨?_, iff_of_false (by simp) hlost, ?_⟩
      · rw [← endsTurn_iff]
        cases endsTurn attempt <;> simp
      · cases endsTurn attempt <;> simp
    · have hends : ¬ endsTurn attempt = true := by
        rw [endsTurn_iff]
        rintro ⟨-, ⟨attemptId, responseId, usage, hclosing⟩, -⟩
        cases hevent.symm.trans hclosing
        cases herror
      rw [mapAttemptProjection_of_error hrequest hevent herror hstatus]
      refine ⟨?_, iff_of_false (by simp) hlost, .inl rfl⟩
      rw [← endsTurn_iff]
      exact iff_of_false (by simp) hends

end Projection

end Codexwatch.Client
