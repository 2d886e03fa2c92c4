import Codexwatch.Client.Projection

/-!
# The evidence of projected attempts

The validation of the protocol checks that the status of an attempt, the kind of an
event and the source of an error go together. The projection of an exchange chooses
all three, and they go together exactly for the attempts of `evidenceFits`: an error
stays when a later event completes the attempt, and the source of an error follows
its fields while the status follows the type of the event.

## Main definitions

* `EvidenceValid` — what validation checks of the records of an exchange.
* `evidence_iff` — the attempts whose records pass.
-/
namespace Codexwatch.Client

open Protocol Capture

/-- What validation checks of the evidence in records that are about to be sent. -/
structure EvidenceValid (c : Contents) (records : List SummaryRecord) : Prop where
  attempt : ∀ attempt, .attempt attempt ∈ records → ∀ errorId,
    (buildAttemptRecord errorId c attempt).terminalFieldsValid = true
  projection : ∀ transition, .taskTransition transition ∈ records → ∀ errorId,
    validateEventProjection (mapTransitionEvent errorId transition) = .ok ()
  evidence : ∀ transition, .taskTransition transition ∈ records → ∀ errorId,
    validateEventEvidence (mapTransitionEvent errorId transition) = .ok ()
  attemptError : ∀ attempt, .attempt attempt ∈ records → ∀ errorId error,
    (buildAttemptRecord errorId c attempt).error = some error → error.sourceFieldsValid = true
  eventError : ∀ transition, .taskTransition transition ∈ records → ∀ errorId error,
    (mapTransitionEvent errorId transition).error = some error → error.sourceFieldsValid = true
  snapshotError : ∀ summary, .task summary ∈ records → ∀ errorId occurredAtMs error,
    summary.lastError = some error →
      (mapErrorRecord errorId summary.task.taskRef none occurredAtMs error none).sourceFieldsValid
        = true

/-- The error of a failed attempt shows as a failure: a status, or no reason and no
cancellation. -/
def showsFailed (error : DecodedError) : Bool :=
  error.httpStatus.isSome || (error.reason.isNone && error.wireType ≠ some "response.cancelled")

def showsIncomplete (error : DecodedError) : Bool :=
  error.httpStatus.isNone && error.reason.isSome

def showsCancelled (error : DecodedError) : Bool :=
  error.httpStatus.isNone && error.reason.isNone && error.wireType = some "response.cancelled"

/-- The request is cut, or no event closes the attempt, or the closing event fits the errors. -/
def evidenceFits (attempt : DecodedAttempt) : Bool :=
  !attempt.requestComplete ||
    match closing attempt.decodedEvents with
    | some (.attemptCompleted _ _ _ _) =>
        attempt.decodedEvents.all fun event => (eventError event).isNone
    | some (.attemptFailed _ _ error) | some (.httpError _ error) => showsFailed error
    | some (.attemptIncomplete _ _ error) => showsIncomplete error
    | some (.attemptCancelled _ _ error) => showsCancelled error
    | some (.taskObserved _) | some (.attemptStarted _ _) | some (.toolCall _ _) | none => true

/-! ## Error sources -/

/-- The status of a finished attempt and the source of its error. -/
def statusFits (status : AttemptStatus) (source : Option ErrorSource) : Bool :=
  match status with
  | .running => false
  | .completed => source.isNone
  | .failed => source.any fun source =>
      source = .responseFailed ∨ source = .sseError ∨ source = .httpStatus
  | .incomplete => source = some .responseIncomplete
  | .cancelled => source = some .responseCancelled
  | .transportLost => source = some .captureGap

@[simp] theorem errorSource_normalizeError {codec : Codec} {error : StructuredError} :
    errorSource (normalizeError codec error) = errorSource error := by
  cases error <;> rfl

/-- The sources that a decoded error can show. -/
def isDecodedSource (source : ErrorSource) : Bool :=
  source ∈ [.responseFailed, .responseCancelled, .responseIncomplete, .httpStatus, .captureGap]

theorem sourceFieldsValid_mapErrorRecord {errorId : Uuid} {taskRef : String}
    {attemptId : Option Uuid} {occurredAtMs : TimestampMs} {error : StructuredError}
    {kind : Option TaskEventKind} (h : isDecodedSource (errorSource error) = true) :
    (mapErrorRecord errorId taskRef attemptId occurredAtMs error kind).sourceFieldsValid = true := by
  cases error with
  | provider inner =>
      by_cases hwire : inner.wireType = "response.cancelled" <;>
        simp [ErrorRecord.sourceFieldsValid, mapErrorRecord, hwire]
  | codexTerminal code message => simp [errorSource, isDecodedSource] at h
  | turnAborted reason => simp [errorSource, isDecodedSource] at h
  | processTerminated inner => simp [errorSource, isDecodedSource] at h
  | unsupportedCodexBuild inner => simp [errorSource, isDecodedSource] at h
  | http inner => rfl
  | incomplete reason => rfl
  | captureLost inner => rfl

theorem errorSource_structuredErrorFromDecoded {error : DecodedError} :
    errorSource (structuredErrorFromDecoded error) =
      match error.httpStatus, error.reason with
      | some _, _ => .httpStatus
      | none, some _ => .responseIncomplete
      | none, none =>
          if error.wireType = some "response.cancelled" then .responseCancelled
          else .responseFailed := by
  obtain ⟨wireType, code, message, param, reason, httpStatus⟩ := error
  cases httpStatus with
  | some status => rfl
  | none =>
      cases reason with
      | some reason => rfl
      | none => cases wireType <;> simp [structuredErrorFromDecoded, errorSource]

/-- The source that an error shows, and the status it fits. -/
theorem statusFits_structuredErrorFromDecoded (error : DecodedError) :
    statusFits .failed (some (errorSource (structuredErrorFromDecoded error))) =
        showsFailed error ∧
      statusFits .incomplete (some (errorSource (structuredErrorFromDecoded error))) =
        showsIncomplete error ∧
      statusFits .cancelled (some (errorSource (structuredErrorFromDecoded error))) =
        showsCancelled error := by
  rw [errorSource_structuredErrorFromDecoded]
  obtain ⟨wireType, code, message, param, reason, httpStatus⟩ := error
  cases httpStatus <;> cases reason <;> by_cases hwire : wireType = some "response.cancelled" <;>
    simp [statusFits, showsFailed, showsIncomplete, showsCancelled, hwire]

theorem isDecodedSource_structuredErrorFromDecoded {error : DecodedError} :
    isDecodedSource (errorSource (structuredErrorFromDecoded error)) = true := by
  rw [errorSource_structuredErrorFromDecoded]
  split
  · rfl
  · rfl
  · split <;> rfl

/-! ## Attempts and events -/

theorem terminalFieldsValid_buildAttemptRecord {errorId : Uuid} {c : Contents}
    {attempt : AttemptSummary} (h : attempt.finishedAt.isSome) :
    (buildAttemptRecord errorId c attempt).terminalFieldsValid =
      statusFits attempt.status (attempt.error.map errorSource) := by
  obtain ⟨finished, hfinished⟩ := Option.isSome_iff_exists.mp h
  cases hstatus : attempt.status <;> cases herror : attempt.error <;>
    simp [AttemptRecord.terminalFieldsValid, buildAttemptRecord, mapAttemptStatus, statusFits,
      hstatus, herror, hfinished]

/-- The transitions of an exchange that leave the task open. -/
inductive OpenTransition : TransitionCause → TaskPhase → Option TaskOutcome → Prop
  | lost : OpenTransition .captureLost .retrying none
  | retry : OpenTransition .retryScheduled .retrying none
  | tool : OpenTransition .toolCallObserved .awaitingTool none

section Events
variable {errorId : Uuid} {transition : TaskTransition}

theorem event_of_open (h : OpenTransition transition.cause transition.phase transition.outcome) :
    validateEventProjection (mapTransitionEvent errorId transition) = .ok () ∧
      validateEventEvidence (mapTransitionEvent errorId transition) = .ok () := by
  obtain ⟨eventId, task, sequence, observedAt, phase, outcome, cause, completeness, error⟩ :=
    transition
  cases h <;>
    simp [validateEventProjection, validateEventEvidence, mapTransitionEvent, transitionKind,
      expectedTerminal, phaseValid, evidenceValid, mapPhase]

theorem event_of_endTurn (errorId : Uuid) (hcause : transition.cause = .responseEndTurn)
    (hphase : transition.phase = .terminal) (houtcome : transition.outcome = some .completed) :
    validateEventProjection (mapTransitionEvent errorId transition) = .ok () ∧
      (validateEventEvidence (mapTransitionEvent errorId transition) = .ok () ↔
        transition.error = none) := by
  simp [validateEventProjection, validateEventEvidence, mapTransitionEvent, transitionKind,
    expectedTerminal, phaseValid, evidenceValid, mapPhase, mapOutcome, hcause, hphase, houtcome]

end Events

/-! ## The records of an exchange -/

section Exchange
variable {client : ClientInstance} {title : String → Option String} {codec : Codec} {t : Tick}
  {index : ℕ} {exchange : DecodedExchange} {cursor : Option TaskCursor} {c : Contents}

/-- The records of an exchange, as they are applied. -/
abbrev normalizedRecords (client : ClientInstance) (title : String → Option String) (t : Tick)
    (index : ℕ) (exchange : DecodedExchange) (codec : Codec) (cursor : Option TaskCursor) :
    List SummaryRecord :=
  (exchangeRecords client title t index exchange codec cursor).map (normalizeRecord codec)

theorem attempt_of_mem {attempt : AttemptSummary}
    (h : .attempt attempt ∈ normalizedRecords client title t index exchange codec cursor) :
    attempt.finishedAt.isSome ∧
      attempt.status = (mapAttemptProjection exchange.attempt).attemptStatus ∧
      attempt.error = (mapAttemptProjection exchange.attempt).error.map (normalizeError codec) := by
  simp [normalizedRecords, exchangeRecords, normalizeRecord, attemptSummaryOf] at h
  simp [h]

theorem transition_of_mem {transition : TaskTransition}
    (h : .taskTransition transition ∈
      normalizedRecords client title t index exchange codec cursor) :
    transition.cause = (mapAttemptProjection exchange.attempt).cause ∧
      transition.phase = (mapAttemptProjection exchange.attempt).taskPhase ∧
      transition.outcome = (mapAttemptProjection exchange.attempt).taskOutcome ∧
      transition.error =
        (mapAttemptProjection exchange.attempt).error.map (normalizeError codec) := by
  simp [normalizedRecords, exchangeRecords, normalizeRecord, taskTransitionOf, taskSummaryOf] at h
  simp [h]

theorem summary_of_mem {summary : TaskSummary}
    (h : .task summary ∈ normalizedRecords client title t index exchange codec cursor) :
    summary.lastError =
      (mapAttemptProjection exchange.attempt).error.map (normalizeError codec) := by
  simp [normalizedRecords, exchangeRecords, normalizeRecord, taskSummaryOf] at h
  simp [h]

/-- Any projection shows an error of the decoder, or none. -/
theorem isDecodedSource_projection {error : StructuredError}
    (h : (mapAttemptProjection exchange.attempt).error = some error) :
    isDecodedSource (errorSource error) = true := by
  cases hrequest : exchange.attempt.requestComplete with
  | false =>
      obtain ⟨reason, -, hp⟩ := mapAttemptProjection_of_lost (.inl hrequest)
      rw [hp] at h
      obtain rfl := Option.some.inj h
      rfl
  | true =>
      cases hclosing : closing exchange.attempt.decodedEvents with
      | none =>
          obtain ⟨reason, -, hp⟩ := mapAttemptProjection_of_lost (.inr hclosing)
          rw [hp] at h
          obtain rfl := Option.some.inj h
          rfl
      | some event =>
          obtain ⟨attemptId, responseId, endTurn, usage, rfl⟩ | ⟨decoded, status, herror, hstatus⟩ :=
            closing_cases hclosing
          · rw [mapAttemptProjection_of_completed hrequest hclosing] at h
            obtain ⟨decoded, -, rfl⟩ := Option.map_eq_some_iff.mp h
            exact isDecodedSource_structuredErrorFromDecoded
          · rw [mapAttemptProjection_of_error hrequest hclosing herror hstatus] at h
            obtain rfl := Option.some.inj h
            exact isDecodedSource_structuredErrorFromDecoded

/-- The end of a turn comes with a completed attempt, other transitions leave the task open. -/
theorem transition_cases (exchange : DecodedExchange) :
    OpenTransition (mapAttemptProjection exchange.attempt).cause
        (mapAttemptProjection exchange.attempt).taskPhase
        (mapAttemptProjection exchange.attempt).taskOutcome ∨
      (mapAttemptProjection exchange.attempt).cause = .responseEndTurn ∧
        (mapAttemptProjection exchange.attempt).taskPhase = .terminal ∧
        (mapAttemptProjection exchange.attempt).taskOutcome = some .completed ∧
        (mapAttemptProjection exchange.attempt).attemptStatus = .completed := by
  cases hrequest : exchange.attempt.requestComplete with
  | false =>
      obtain ⟨reason, -, hp⟩ := mapAttemptProjection_of_lost (.inl hrequest)
      rw [hp]
      exact .inl .lost
  | true =>
      cases hclosing : closing exchange.attempt.decodedEvents with
      | none =>
          obtain ⟨reason, -, hp⟩ := mapAttemptProjection_of_lost (.inr hclosing)
          rw [hp]
          exact .inl .lost
      | some event =>
          obtain ⟨attemptId, responseId, endTurn, usage, rfl⟩ | ⟨decoded, status, herror, hstatus⟩ :=
            closing_cases hclosing
          · rw [mapAttemptProjection_of_completed hrequest hclosing]
            cases endsTurn exchange.attempt with
            | false => exact .inl .tool
            | true => exact .inr ⟨rfl, rfl, rfl, rfl⟩
          · rw [mapAttemptProjection_of_error hrequest hclosing herror hstatus]
            exact .inl .retry

/-- Only the status of the attempt is left to check. -/
theorem evidenceValid_iff_statusFits :
    EvidenceValid c (normalizedRecords client title t index exchange codec cursor) ↔
      statusFits (mapAttemptProjection exchange.attempt).attemptStatus
        ((mapAttemptProjection exchange.attempt).error.map errorSource) = true := by
  have hmap : ((mapAttemptProjection exchange.attempt).error.map (normalizeError codec)).map
      errorSource = (mapAttemptProjection exchange.attempt).error.map errorSource := by
    simp [Function.comp_def]
  have hfits : ∀ attempt, .attempt attempt ∈
      normalizedRecords client title t index exchange codec cursor → ∀ errorId,
      (buildAttemptRecord errorId c attempt).terminalFieldsValid =
        statusFits (mapAttemptProjection exchange.attempt).attemptStatus
          ((mapAttemptProjection exchange.attempt).error.map errorSource) := by
    intro attempt hmem errorId
    obtain ⟨hfinished, hstatus, herror⟩ := attempt_of_mem hmem
    rw [terminalFieldsValid_buildAttemptRecord hfinished, hstatus, herror, hmap]
  have hsource : ∀ error, (mapAttemptProjection exchange.attempt).error.map (normalizeError codec) =
      some error → isDecodedSource (errorSource error) = true := by
    intro error h
    obtain ⟨decoded, hdecoded, rfl⟩ := Option.map_eq_some_iff.mp h
    rw [errorSource_normalizeError]
    exact isDecodedSource_projection hdecoded
  constructor
  · intro h
    have hmem : .attempt _ ∈ normalizedRecords client title t index exchange codec cursor :=
      List.mem_cons_of_mem _ List.mem_cons_self
    rw [← hfits _ hmem exchange.attempt.attemptId]
    exact h.attempt _ hmem _
  · intro h
    have hevent : ∀ transition, .taskTransition transition ∈
        normalizedRecords client title t index exchange codec cursor → ∀ errorId,
        validateEventProjection (mapTransitionEvent errorId transition) = .ok () ∧
          validateEventEvidence (mapTransitionEvent errorId transition) = .ok () := by
      intro transition hmem errorId
      obtain ⟨hcause, hphase, houtcome, herror⟩ := transition_of_mem hmem
      obtain hopen | ⟨hcause', hphase', houtcome', hstatus'⟩ :=
        transition_cases exchange
      · rw [← hcause, ← hphase, ← houtcome] at hopen
        exact event_of_open hopen
      · -- a completed attempt fits its status only without an error
        have hevent := event_of_endTurn errorId (hcause.trans hcause')
          (hphase.trans hphase') (houtcome.trans houtcome')
        refine ⟨hevent.1, hevent.2.mpr ?_⟩
        rw [hstatus', statusFits] at h
        rw [herror]
        simpa using h
    refine ⟨?_, ?_, ?_, ?_, ?_, ?_⟩
    · intro attempt hmem errorId
      rw [hfits attempt hmem, h]
    · exact fun transition hmem errorId => (hevent transition hmem errorId).1
    · exact fun transition hmem errorId => (hevent transition hmem errorId).2
    · intro attempt hmem errorId error he
      obtain ⟨structured, hs, rfl⟩ := Option.map_eq_some_iff.mp he
      exact sourceFieldsValid_mapErrorRecord (hsource structured ((attempt_of_mem hmem).2.2 ▸ hs))
    · intro transition hmem errorId error he
      obtain ⟨structured, hs, rfl⟩ := Option.map_eq_some_iff.mp he
      exact sourceFieldsValid_mapErrorRecord
        (hsource structured ((transition_of_mem hmem).2.2.2 ▸ hs))
    · intro summary hmem errorId occurredAtMs error he
      exact sourceFieldsValid_mapErrorRecord (hsource error (summary_of_mem hmem ▸ he))

/-- The status of the projection goes with its error exactly when the attempt fits. -/
theorem statusFits_projection (attempt : DecodedAttempt) :
    statusFits (mapAttemptProjection attempt).attemptStatus
      ((mapAttemptProjection attempt).error.map errorSource) = true ↔
        evidenceFits attempt = true := by
  rw [evidenceFits]
  cases hrequest : attempt.requestComplete with
  | false =>
      obtain ⟨reason, -, hp⟩ := mapAttemptProjection_of_lost (.inl hrequest)
      simp [hp, statusFits, errorSource]
  | true =>
      cases hclosing : closing attempt.decodedEvents with
      | none =>
          obtain ⟨reason, -, hp⟩ := mapAttemptProjection_of_lost (.inr hclosing)
          simp [hp, statusFits, errorSource]
      | some event =>
          obtain ⟨attemptId, responseId, endTurn, usage, rfl⟩ | ⟨decoded, status, herror, hstatus⟩ :=
            closing_cases hclosing
          · rw [mapAttemptProjection_of_completed hrequest hclosing]
            simp [statusFits, lastError]
          · rw [mapAttemptProjection_of_error hrequest hclosing herror hstatus, Option.map_some]
            obtain ⟨hfailed, hincomplete, hcancelled⟩ :=
              statusFits_structuredErrorFromDecoded decoded
            cases event with
            | attemptFailed attemptId responseId error =>
                cases herror
                cases hstatus
                simp [hfailed]
            | attemptIncomplete attemptId responseId error =>
                cases herror
                cases hstatus
                simp [hincomplete]
            | attemptCancelled attemptId responseId error =>
                cases herror
                cases hstatus
                simp [hcancelled]
            | httpError attemptId error =>
                cases herror
                cases hstatus
                simp [hfailed]
            | _ => cases herror

/-- The records of an exchange pass the checks of evidence exactly when its attempt fits. -/
theorem evidence_iff (client : ClientInstance) (title : String → Option String) (codec : Codec)
    (t : Tick) (index : ℕ) (exchange : DecodedExchange) (cursor : Option TaskCursor)
    (c : Contents) :
    EvidenceValid c ((exchangeRecords client title t index exchange codec cursor).map
        (normalizeRecord codec)) ↔ evidenceFits exchange.attempt = true :=
  evidenceValid_iff_statusFits.trans (statusFits_projection exchange.attempt)

end Exchange

/-- An `error` payload, and then the response completes after all. -/
def recoveredExchange : DecodedExchange :=
  streamExchange (.v7 1) [errorPayload "overloaded", completedPayload "r"]

example : evidenceFits recoveredExchange.attempt = false := by decide +kernel

theorem not_evidence_recovered :
    ¬ EvidenceValid Store.empty.contents
      ((exchangeRecords sampleClient (fun _ => none) ⟨2000000000, 2000000000, fun _ => .v7 2⟩
        0 recoveredExchange (.numbered []) none).map (normalizeRecord (.numbered []))) := by
  rw [evidenceValid_iff_statusFits]
  decide +kernel

end Codexwatch.Client
