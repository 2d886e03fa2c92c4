import Codexwatch.Lib.Check
import Codexwatch.Lib.Text
import Codexwatch.Protocol.Types

/-!
# Validation of wire records

The checks of `protocol/src/validation.rs`, in their order and with their field
paths and messages. For each record, `validate_eq_ok` says what a successful
validation has established.

The checks of one record fall into two groups. `InLimits` collects the checks of
text lengths and numeric ranges, which depend on data that comes from outside;
the rest relates the fields to each other.

## Main definitions

* `ErrorRecord.validate`, `TaskSnapshot.validate`, `AttemptRecord.validate`,
  `TaskEvent.validate`, `CaptureGapRecord.validate`, `TaskUpload.validate`,
  `Heartbeat.validate`, `IngestBatch.validate`.
-/
namespace Codexwatch.Protocol

open Check Text

def MAX_ID_BYTES : ℕ := 512
def MAX_SHORT_TEXT_BYTES : ℕ := 4096
def MAX_BATCH_TASKS : ℕ := 1024
def MAX_BATCH_HEARTBEATS : ℕ := 1024

structure ValidationError where
  path : String
  message : String
  deriving DecidableEq

def ValidationError.under (scope : String) (e : ValidationError) : ValidationError :=
  ⟨scope ++ "." ++ e.path, e.message⟩

abbrev Checked := Except ValidationError Unit

def isUuidV7 (value : Uuid) : Bool := value.getVersionNum = 7

@[simp] theorem isUuidV7_v7 (n : BitVec 64) : isUuidV7 (Uuid.v7 n) = true := by
  simp [isUuidV7, Uuid.getVersionNum_v7]

def validateUuidV7 (path : String) (value : Uuid) : Checked :=
  ensure (isUuidV7 value) ⟨path, "must be a UUIDv7"⟩

def validateText (path value : String) (max : ℕ) : Checked := do
  ensure (isBlank value = false) ⟨path, "must not be empty"⟩
  ensure (value.utf8ByteSize ≤ max) ⟨path, s!"must not exceed {max} bytes"⟩

def validateSha256 (path value : String) : Checked :=
  ensure (isHexDigest value) ⟨path, "must contain exactly 64 hexadecimal characters"⟩

/-- What `validateText` accepts. -/
def TextWithin (max : ℕ) (value : String) : Prop :=
  isBlank value = false ∧ value.utf8ByteSize ≤ max

instance (max : ℕ) (value : String) : Decidable (TextWithin max value) :=
  inferInstanceAs (Decidable (_ ∧ _))

@[simp] theorem validateUuidV7_eq_ok {path : String} {value : Uuid} :
    validateUuidV7 path value = .ok () ↔ isUuidV7 value := by simp [validateUuidV7]

@[simp] theorem validateText_eq_ok {path value : String} {max : ℕ} :
    validateText path value max = .ok () ↔ TextWithin max value := by
  simp [validateText, TextWithin]

@[simp] theorem validateSha256_eq_ok {path value : String} :
    validateSha256 path value = .ok () ↔ isHexDigest value := by simp [validateSha256]

/-- What is checked of an optional text. -/
def OptTextWithin (max : ℕ) (value : Option String) : Prop := ∀ s, value = some s → TextWithin max s

@[simp] theorem optTextWithin_none {max : ℕ} : OptTextWithin max none := by simp [OptTextWithin]

@[simp] theorem optTextWithin_some {max : ℕ} {s : String} :
    OptTextWithin max (some s) ↔ TextWithin max s := by simp [OptTextWithin]

@[simp] theorem whenSome_validateText {path : String} {value : Option String} {max : ℕ} :
    whenSome value (fun s => validateText path s max) = .ok () ↔ OptTextWithin max value := by
  simp [whenSome_eq_ok, OptTextWithin]

/-! ## Error records -/

namespace ErrorRecord

/-- The fields that each error source requires. -/
def sourceFieldsValid (e : ErrorRecord) : Bool :=
  match e.source with
  | .responseFailed | .responseCancelled | .sseError => e.wireType.isSome
  | .responseIncomplete => e.reason.isSome
  | .httpStatus => e.httpStatus.isSome
  | .turnComplete => e.httpStatus.isNone
  | .turnAborted | .captureGap | .contentExpired => e.reason.isSome
  | .processExit => e.exitCode.isSome || e.signal.isSome
  | .unsupportedCodexBuild => e.code.any isHexDigest

def validate (e : ErrorRecord) : Checked := do
  validateUuidV7 "error_id" e.errorId
  validateText "task_ref" e.taskRef MAX_ID_BYTES
  validateText "message" e.message MAX_ERROR_MESSAGE_BYTES
  whenSome e.wireType fun s => validateText "wire_type" s MAX_SHORT_TEXT_BYTES
  whenSome e.code fun s => validateText "code" s MAX_SHORT_TEXT_BYTES
  whenSome e.param fun s => validateText "param" s MAX_SHORT_TEXT_BYTES
  whenSome e.reason fun s => validateText "reason" s MAX_ERROR_MESSAGE_BYTES
  whenSome e.httpStatus fun status =>
    ensure (100 ≤ status ∧ status ≤ 599) ⟨"http_status", "must be between 100 and 599"⟩
  ensure e.sourceFieldsValid
    ⟨"source", "required structured fields are missing for this error source"⟩

/-- The text and range checks of an error record. -/
@[mk_iff]
structure InLimits (e : ErrorRecord) : Prop where
  taskRef : TextWithin MAX_ID_BYTES e.taskRef
  message : TextWithin MAX_ERROR_MESSAGE_BYTES e.message
  wireType : OptTextWithin MAX_SHORT_TEXT_BYTES e.wireType
  code : OptTextWithin MAX_SHORT_TEXT_BYTES e.code
  param : OptTextWithin MAX_SHORT_TEXT_BYTES e.param
  reason : OptTextWithin MAX_ERROR_MESSAGE_BYTES e.reason
  httpStatus : ∀ status, e.httpStatus = some status → 100 ≤ status ∧ status ≤ 599

theorem validate_eq_ok {e : ErrorRecord} :
    e.validate = .ok () ↔ isUuidV7 e.errorId ∧ e.InLimits ∧ e.sourceFieldsValid := by
  simp only [validate, bind_eq_ok, exists_unit_and, validateUuidV7_eq_ok, validateText_eq_ok,
    whenSome_eq_ok, ensure_eq_ok]
  constructor
  · rintro ⟨hid, href, hmessage, hwire, hcode, hparam, hreason, hstatus, hsource⟩
    exact ⟨hid, ⟨href, hmessage, hwire, hcode, hparam, hreason, hstatus⟩, hsource⟩
  · rintro ⟨hid, ⟨href, hmessage, hwire, hcode, hparam, hreason, hstatus⟩, hsource⟩
    exact ⟨hid, href, hmessage, hwire, hcode, hparam, hreason, hstatus, hsource⟩

end ErrorRecord

/-! ## Task snapshots -/

namespace TaskSnapshot

/-- An outcome and a completion time belong to the terminal phase, and only to it. -/
def terminalFieldsValid (s : TaskSnapshot) : Bool :=
  match s.phase with
  | .terminal => s.terminal.isSome && s.completedAtMs.isSome
  | .running | .awaitingTool | .retrying => s.terminal.isNone && s.completedAtMs.isNone

def terminalFieldsMessage (s : TaskSnapshot) : String :=
  if s.phase = .terminal then "terminal phase requires outcome and completed_at_ms"
  else "non-terminal phase forbids outcome and completed_at_ms"

def validate (s : TaskSnapshot) : Checked := do
  validateText "task_ref" s.taskRef MAX_ID_BYTES
  validateText "identity.provider" s.identity.provider 64
  validateText "identity.session_id" s.identity.sessionId MAX_ID_BYTES
  validateText "identity.thread_id" s.identity.threadId MAX_ID_BYTES
  validateText "identity.turn_id" s.identity.turnId MAX_ID_BYTES
  ensure (s.identity.taskRef = s.taskRef)
    ⟨"task_ref", "must match session_id:thread_id:turn_id"⟩
  ensure (s.codex.requestKind = "turn")
    ⟨"codex.request_kind", "only request_kind=turn may create a task"⟩
  whenSome s.conversationTitle fun title => validateText "conversation_title" title 512
  ensure (s.startedAtMs ≤ s.updatedAtMs) ⟨"updated_at_ms", "must not predate started_at_ms"⟩
  ensure s.terminalFieldsValid ⟨"terminal", s.terminalFieldsMessage⟩
  whenSome s.lastError fun e => e.validate.mapError (.under "last_error")

/-- The text and range checks of a snapshot. -/
structure InLimits (s : TaskSnapshot) : Prop where
  taskRef : TextWithin MAX_ID_BYTES s.taskRef
  provider : TextWithin 64 s.identity.provider
  sessionId : TextWithin MAX_ID_BYTES s.identity.sessionId
  threadId : TextWithin MAX_ID_BYTES s.identity.threadId
  turnId : TextWithin MAX_ID_BYTES s.identity.turnId
  conversationTitle : OptTextWithin 512 s.conversationTitle
  lastError : ∀ e, s.lastError = some e → e.InLimits

/-- The checks of a snapshot that relate its fields. -/
structure Consistent (s : TaskSnapshot) : Prop where
  taskRef : s.identity.taskRef = s.taskRef
  requestKind : s.codex.requestKind = "turn"
  times : s.startedAtMs ≤ s.updatedAtMs
  terminal : s.terminalFieldsValid
  lastErrorId : ∀ e, s.lastError = some e → isUuidV7 e.errorId
  lastErrorSource : ∀ e, s.lastError = some e → e.sourceFieldsValid

theorem validate_eq_ok {s : TaskSnapshot} :
    s.validate = .ok () ↔ s.InLimits ∧ s.Consistent := by
  simp only [validate, bind_eq_ok, exists_unit_and, validateText_eq_ok, whenSome_eq_ok,
    ensure_eq_ok, mapError_eq_ok, ErrorRecord.validate_eq_ok]
  constructor
  · rintro ⟨h₁, h₂, h₃, h₄, h₅, h₆, h₇, h₈, h₉, h₁₀, h₁₁⟩
    exact ⟨⟨h₁, h₂, h₃, h₄, h₅, h₈, fun e he => (h₁₁ e he).2.1⟩,
      ⟨h₆, h₇, h₉, h₁₀, fun e he => (h₁₁ e he).1, fun e he => (h₁₁ e he).2.2⟩⟩
  · rintro ⟨⟨h₁, h₂, h₃, h₄, h₅, h₈, h₁₁⟩, ⟨h₆, h₇, h₉, h₁₀, h₁₂, h₁₃⟩⟩
    exact ⟨h₁, h₂, h₃, h₄, h₅, h₆, h₇, h₈, h₉, h₁₀,
      fun e he => ⟨h₁₂ e he, h₁₁ e he, h₁₃ e he⟩⟩

end TaskSnapshot

/-! ## Attempts -/

namespace AttemptRecord

/-- The end time and the error evidence that each status requires. -/
def terminalFieldsValid (a : AttemptRecord) : Bool :=
  match a.status with
  | .running => a.endedAtMs.isNone && a.error.isNone
  | .completed => a.endedAtMs.isSome && a.error.isNone
  | .failed => a.endedAtMs.isSome && a.error.any fun e =>
      e.source = .responseFailed ∨ e.source = .sseError ∨ e.source = .httpStatus
  | .incomplete => a.endedAtMs.isSome && a.error.any fun e => e.source = .responseIncomplete
  | .cancelled => a.endedAtMs.isSome && a.error.any fun e => e.source = .responseCancelled
  | .transportLost => a.endedAtMs.isSome && a.error.any fun e => e.source = .captureGap

def validate (a : AttemptRecord) : Checked := do
  validateUuidV7 "attempt_id" a.attemptId
  validateText "task_ref" a.taskRef MAX_ID_BYTES
  validateText "transport" a.transport 64
  ensure (a.ordinal ≠ 0) ⟨"ordinal", "must be greater than zero"⟩
  ensure (a.endedAtMs.all fun ended => a.startedAtMs ≤ ended)
    ⟨"ended_at_ms", "must not predate started_at_ms"⟩
  whenSome a.requestObjectSha256 fun digest => validateSha256 "request_object_sha256" digest
  whenSome a.responseObjectSha256 fun digest => validateSha256 "response_object_sha256" digest
  whenSome a.error fun e => e.validate.mapError (.under "error")
  ensure a.terminalFieldsValid
    ⟨"status", "attempt status, terminal time, and error evidence are inconsistent"⟩

/-- The text and range checks of an attempt. -/
structure InLimits (a : AttemptRecord) : Prop where
  taskRef : TextWithin MAX_ID_BYTES a.taskRef
  transport : TextWithin 64 a.transport
  ordinal : a.ordinal ≠ 0
  error : ∀ e, a.error = some e → e.InLimits

/-- The checks of an attempt that relate its fields, and of its identifiers. -/
structure Consistent (a : AttemptRecord) : Prop where
  attemptId : isUuidV7 a.attemptId
  times : a.endedAtMs.all fun ended => a.startedAtMs ≤ ended
  requestObject : ∀ d, a.requestObjectSha256 = some d → isHexDigest d
  responseObject : ∀ d, a.responseObjectSha256 = some d → isHexDigest d
  status : a.terminalFieldsValid
  errorId : ∀ e, a.error = some e → isUuidV7 e.errorId
  errorSource : ∀ e, a.error = some e → e.sourceFieldsValid

theorem validate_eq_ok {a : AttemptRecord} :
    a.validate = .ok () ↔ a.InLimits ∧ a.Consistent := by
  simp only [validate, bind_eq_ok, exists_unit_and, validateUuidV7_eq_ok, validateText_eq_ok,
    validateSha256_eq_ok, whenSome_eq_ok, ensure_eq_ok, mapError_eq_ok,
    ErrorRecord.validate_eq_ok]
  constructor
  · rintro ⟨h₁, h₂, h₃, h₄, h₅, h₆, h₇, h₈, h₉⟩
    exact ⟨⟨h₂, h₃, h₄, fun e he => (h₈ e he).2.1⟩,
      ⟨h₁, h₅, h₆, h₇, h₉, fun e he => (h₈ e he).1, fun e he => (h₈ e he).2.2⟩⟩
  · rintro ⟨⟨h₂, h₃, h₄, h₈⟩, ⟨h₁, h₅, h₆, h₇, h₉, h₁₀, h₁₁⟩⟩
    exact ⟨h₁, h₂, h₃, h₄, h₅, h₆, h₇, fun e he => ⟨h₁₀ e he, h₈ e he, h₁₁ e he⟩, h₉⟩

end AttemptRecord

/-! ## Task events -/

/-- The outcome that an event of each kind must carry. -/
def expectedTerminal : TaskEventKind → Option TerminalOutcome
  | .terminalCompleted => some .completed
  | .terminalFailed => some .failed
  | .terminalAborted => some .aborted
  | .terminalTerminated | .processExit => some .terminated
  | .terminalLost => some .lost
  | _ => none

/-- The phases that an event of each kind may carry. -/
def phaseValid : TaskEventKind → TaskPhase → Bool
  | .taskObserved, phase | .attemptStarted, phase => phase = .running
  | .attemptCompleted, phase => phase = .running ∨ phase = .awaitingTool
  | .attemptFailed, phase | .attemptIncomplete, phase | .attemptCancelled, phase
  | .attemptLost, phase | .retrying, phase => phase = .retrying
  | .awaitingTool, phase => phase = .awaitingTool
  | .captureGap, phase | .unsupportedBuild, phase => phase ≠ .terminal
  | .terminalCompleted, phase | .terminalFailed, phase | .terminalAborted, phase
  | .terminalTerminated, phase | .terminalLost, phase | .processExit, phase =>
      phase = .terminal

def validateEventProjection (event : TaskEvent) : Checked := do
  ensure (event.terminal = expectedTerminal event.kind ∧
      ((expectedTerminal event.kind).isSome ↔ event.phase = .terminal))
    ⟨"terminal", "phase and outcome must match the event kind"⟩
  ensure (phaseValid event.kind event.phase) ⟨"phase", "is not valid for the event kind"⟩

/-- The error source that an event of each kind must show. -/
def evidenceValid (event : TaskEvent) : Bool :=
  match event.kind with
  | .terminalCompleted => event.error.isNone
  | .terminalFailed => event.error.any fun e => e.source = .turnComplete
  | .terminalAborted => event.error.any fun e => e.source = .turnAborted
  | .terminalTerminated | .processExit => event.error.any fun e => e.source = .processExit
  | .terminalLost => event.error.any fun e => e.source = .captureGap
  | .attemptFailed => event.error.any fun e =>
      e.source = .responseFailed ∨ e.source = .sseError ∨ e.source = .httpStatus
  | .attemptIncomplete => event.error.any fun e => e.source = .responseIncomplete
  | .attemptCancelled => event.error.any fun e => e.source = .responseCancelled
  | .attemptLost => event.error.any fun e => e.source = .captureGap
  | .unsupportedBuild => event.error.any fun e => e.source = .unsupportedCodexBuild
  | .taskObserved | .attemptStarted | .attemptCompleted | .awaitingTool | .retrying
  | .captureGap => true

def validateEventEvidence (event : TaskEvent) : Checked :=
  ensure (evidenceValid event) ⟨"error", "structured evidence does not match the event kind"⟩

namespace TaskEvent

def validate (event : TaskEvent) : Checked := do
  validateUuidV7 "event_id" event.eventId
  validateText "task_ref" event.taskRef MAX_ID_BYTES
  ensure (event.sequence ≠ 0) ⟨"sequence", "must be greater than zero"⟩
  whenSome event.error fun e => do
    e.validate.mapError (.under "error")
    ensure (e.taskRef = event.taskRef) ⟨"error.task_ref", "must match event task_ref"⟩
  validateEventProjection event
  validateEventEvidence event

/-- The text and range checks of an event. -/
structure InLimits (event : TaskEvent) : Prop where
  taskRef : TextWithin MAX_ID_BYTES event.taskRef
  sequence : event.sequence ≠ 0
  error : ∀ e, event.error = some e → e.InLimits

/-- The checks of an event that relate its fields. -/
structure Consistent (event : TaskEvent) : Prop where
  eventId : isUuidV7 event.eventId
  errorId : ∀ e, event.error = some e → isUuidV7 e.errorId
  errorSource : ∀ e, event.error = some e → e.sourceFieldsValid
  errorTask : ∀ e, event.error = some e → e.taskRef = event.taskRef
  projection : validateEventProjection event = .ok ()
  evidence : evidenceValid event

theorem validate_eq_ok {event : TaskEvent} :
    event.validate = .ok () ↔ event.InLimits ∧ event.Consistent := by
  simp only [validate, bind_eq_ok, exists_unit_and, validateUuidV7_eq_ok, validateText_eq_ok,
    whenSome_eq_ok, ensure_eq_ok, mapError_eq_ok, ErrorRecord.validate_eq_ok,
    validateEventEvidence]
  constructor
  · rintro ⟨h₁, h₂, h₃, h₄, h₅, h₆⟩
    exact ⟨⟨h₂, h₃, fun e he => (h₄ e he).1.2.1⟩,
      ⟨h₁, fun e he => (h₄ e he).1.1, fun e he => (h₄ e he).1.2.2, fun e he => (h₄ e he).2,
        h₅, h₆⟩⟩
  · rintro ⟨⟨h₂, h₃, h₄⟩, ⟨h₁, h₇, h₈, h₉, h₅, h₆⟩⟩
    exact ⟨h₁, h₂, h₃, fun e he => ⟨⟨h₇ e he, h₄ e he, h₈ e he⟩, h₉ e he⟩, h₅, h₆⟩

end TaskEvent

/-! ## Capture gaps and heartbeats -/

def CaptureGapRecord.validate (g : CaptureGapRecord) : Checked := do
  validateUuidV7 "gap_id" g.gapId
  validateText "flow_id" g.flowId MAX_ID_BYTES
  validateText "reason" g.reason MAX_ERROR_MESSAGE_BYTES
  ensure (g.startSeq ≤ g.endSeq) ⟨"end_seq", "must not be smaller than start_seq"⟩

/-- The text and range checks of a gap. -/
structure CaptureGapRecord.InLimits (g : CaptureGapRecord) : Prop where
  flowId : TextWithin MAX_ID_BYTES g.flowId
  reason : TextWithin MAX_ERROR_MESSAGE_BYTES g.reason
  range : g.startSeq ≤ g.endSeq

theorem CaptureGapRecord.validate_eq_ok {g : CaptureGapRecord} :
    g.validate = .ok () ↔ isUuidV7 g.gapId ∧ g.InLimits := by
  simp only [validate, bind_eq_ok, exists_unit_and, validateUuidV7_eq_ok, validateText_eq_ok,
    ensure_eq_ok]
  constructor
  · intro h
    rcases h with ⟨hid, hflow, hreason, hrange⟩
    exact ⟨hid, hflow, hreason, hrange⟩
  · intro h
    rcases h with ⟨hid, hflow, hreason, hrange⟩
    exact ⟨hid, hflow, hreason, hrange⟩

def Heartbeat.validate (h : Heartbeat) : Checked := do
  validateUuidV7 "heartbeat_id" h.heartbeatId
  validateUuidV7 "instance_id" h.instanceId
  validateText "client_id" h.clientId MAX_ID_BYTES
  whenSome h.note fun note => validateText "note" note MAX_ERROR_MESSAGE_BYTES

/-- The text checks of a heartbeat. -/
structure Heartbeat.InLimits (h : Heartbeat) : Prop where
  clientId : TextWithin MAX_ID_BYTES h.clientId
  note : OptTextWithin MAX_ERROR_MESSAGE_BYTES h.note

theorem Heartbeat.validate_eq_ok {h : Heartbeat} :
    h.validate = .ok () ↔ (isUuidV7 h.heartbeatId ∧ isUuidV7 h.instanceId) ∧ h.InLimits := by
  simp only [validate, bind_eq_ok, exists_unit_and, validateUuidV7_eq_ok, validateText_eq_ok,
    whenSome_validateText]
  constructor
  · intro h
    rcases h with ⟨hid, hinstance, hclient, hnote⟩
    exact ⟨⟨hid, hinstance⟩, hclient, hnote⟩
  · intro h
    rcases h with ⟨⟨hid, hinstance⟩, hclient, hnote⟩
    exact ⟨hid, hinstance, hclient, hnote⟩

/-! ## Uploads and batches -/

namespace TaskUpload

def validateAttempt (taskRef : String) (seen : List AttemptRecord) (a : AttemptRecord) :
    Checked := do
  a.validate.mapError (.under s!"attempts[{seen.length}]")
  ensure (a.taskRef = taskRef)
    ⟨s!"attempts[{seen.length}].task_ref", "must match snapshot task_ref"⟩
  ensure (a.attemptId ∉ seen.map AttemptRecord.attemptId ∧
      a.ordinal ∉ seen.map AttemptRecord.ordinal)
    ⟨s!"attempts[{seen.length}]", "attempt_id and ordinal must be unique"⟩

def validateEvent (taskRef : String) (seen : List TaskEvent) (event : TaskEvent) : Checked := do
  event.validate.mapError (.under s!"events[{seen.length}]")
  ensure (event.taskRef = taskRef)
    ⟨s!"events[{seen.length}].task_ref", "must match snapshot task_ref"⟩
  ensure (∀ last ∈ seen.getLast?, last.terminal = none)
    ⟨s!"events[{seen.length}]", "no event may follow a terminal task event"⟩
  ensure (∀ last ∈ seen.getLast?, last.sequence < event.sequence)
    ⟨s!"events[{seen.length}].sequence", "events must be in strictly increasing sequence order"⟩

def validateError (taskRef : String) (seen : List ErrorRecord) (e : ErrorRecord) : Checked := do
  e.validate.mapError (.under s!"errors[{seen.length}]")
  ensure (e.taskRef = taskRef ∧ e.errorId ∉ seen.map ErrorRecord.errorId)
    ⟨s!"errors[{seen.length}]", "task_ref must match and error_id must be unique"⟩

def validateGap (taskRef : String) (seen : List CaptureGapRecord) (g : CaptureGapRecord) :
    Checked := do
  g.validate.mapError (.under s!"gaps[{seen.length}]")
  ensure (∀ value ∈ g.taskRef, value = taskRef)
    ⟨s!"gaps[{seen.length}].task_ref", "must match snapshot task_ref"⟩

/-- The sets and the previous event that the loops keep are functions of the elements
already checked. -/
def validate (u : TaskUpload) : Checked := do
  u.snapshot.validate.mapError (.under "snapshot")
  eachAfter (validateAttempt u.snapshot.taskRef) [] u.attempts
  eachAfter (validateEvent u.snapshot.taskRef) [] u.events
  ensure (∀ last ∈ u.events.getLast?, last.sequence ≤ u.snapshot.sequence)
    ⟨"snapshot.sequence", "must not predate an uploaded event sequence"⟩
  eachAfter (validateError u.snapshot.taskRef) [] u.errors
  eachAfter (validateGap u.snapshot.taskRef) [] u.gaps

/-- What a valid upload is. -/
structure Valid (u : TaskUpload) : Prop where
  snapshot : u.snapshot.validate = .ok ()
  attempt : ∀ a ∈ u.attempts, a.validate = .ok ()
  attemptTask : ∀ a ∈ u.attempts, a.taskRef = u.snapshot.taskRef
  attemptIds : (u.attempts.map AttemptRecord.attemptId).Nodup
  ordinals : (u.attempts.map AttemptRecord.ordinal).Nodup
  event : ∀ e ∈ u.events, e.validate = .ok ()
  eventTask : ∀ e ∈ u.events, e.taskRef = u.snapshot.taskRef
  eventOrder : u.events.IsChain fun a b => a.terminal = none ∧ a.sequence < b.sequence
  lastEvent : ∀ last ∈ u.events.getLast?, last.sequence ≤ u.snapshot.sequence
  error : ∀ e ∈ u.errors, e.validate = .ok ()
  errorTask : ∀ e ∈ u.errors, e.taskRef = u.snapshot.taskRef
  errorIds : (u.errors.map ErrorRecord.errorId).Nodup
  gap : ∀ g ∈ u.gaps, g.validate = .ok ()
  gapTask : ∀ g ∈ u.gaps, ∀ value ∈ g.taskRef, value = u.snapshot.taskRef

/-- The text and range checks of an upload. -/
structure InLimits (u : TaskUpload) : Prop where
  snapshot : u.snapshot.InLimits
  attempt : ∀ a ∈ u.attempts, a.InLimits
  event : ∀ e ∈ u.events, e.InLimits
  error : ∀ e ∈ u.errors, e.InLimits
  gap : ∀ g ∈ u.gaps, g.InLimits

/-- The checks that relate the parts of an upload, and those within its records. -/
structure Consistent (u : TaskUpload) : Prop where
  snapshot : u.snapshot.Consistent
  attempt : ∀ a ∈ u.attempts, a.Consistent
  attemptTask : ∀ a ∈ u.attempts, a.taskRef = u.snapshot.taskRef
  attemptIds : (u.attempts.map AttemptRecord.attemptId).Nodup
  ordinals : (u.attempts.map AttemptRecord.ordinal).Nodup
  event : ∀ e ∈ u.events, e.Consistent
  eventTask : ∀ e ∈ u.events, e.taskRef = u.snapshot.taskRef
  eventOrder : u.events.IsChain fun a b => a.terminal = none ∧ a.sequence < b.sequence
  lastEvent : ∀ last ∈ u.events.getLast?, last.sequence ≤ u.snapshot.sequence
  errorId : ∀ e ∈ u.errors, isUuidV7 e.errorId
  errorSource : ∀ e ∈ u.errors, e.sourceFieldsValid
  errorTask : ∀ e ∈ u.errors, e.taskRef = u.snapshot.taskRef
  errorIds : (u.errors.map ErrorRecord.errorId).Nodup
  gapId : ∀ g ∈ u.gaps, isUuidV7 g.gapId
  gapTask : ∀ g ∈ u.gaps, ∀ value ∈ g.taskRef, value = u.snapshot.taskRef

/-- Validation is the checks of each record and those between them. -/
theorem valid_iff {u : TaskUpload} : u.Valid ↔ u.InLimits ∧ u.Consistent := by
  constructor
  · intro h
    have hsnapshot := TaskSnapshot.validate_eq_ok.mp h.snapshot
    have hattempt := fun a ha => AttemptRecord.validate_eq_ok.mp (h.attempt a ha)
    have hevent := fun e he => TaskEvent.validate_eq_ok.mp (h.event e he)
    have herror := fun e he => ErrorRecord.validate_eq_ok.mp (h.error e he)
    have hgap := fun g hg => CaptureGapRecord.validate_eq_ok.mp (h.gap g hg)
    exact ⟨⟨hsnapshot.1, fun a ha => (hattempt a ha).1, fun e he => (hevent e he).1,
        fun e he => (herror e he).2.1, fun g hg => (hgap g hg).2⟩,
      ⟨hsnapshot.2, fun a ha => (hattempt a ha).2, h.attemptTask, h.attemptIds, h.ordinals,
        fun e he => (hevent e he).2, h.eventTask, h.eventOrder, h.lastEvent,
        fun e he => (herror e he).1, fun e he => (herror e he).2.2, h.errorTask, h.errorIds,
        fun g hg => (hgap g hg).1, h.gapTask⟩⟩
  · intro ⟨h, h'⟩
    exact {
      snapshot := TaskSnapshot.validate_eq_ok.mpr ⟨h.snapshot, h'.snapshot⟩
      attempt := fun a ha => AttemptRecord.validate_eq_ok.mpr ⟨h.attempt a ha, h'.attempt a ha⟩
      attemptTask := h'.attemptTask
      attemptIds := h'.attemptIds
      ordinals := h'.ordinals
      event := fun e he => TaskEvent.validate_eq_ok.mpr ⟨h.event e he, h'.event e he⟩
      eventTask := h'.eventTask
      eventOrder := h'.eventOrder
      lastEvent := h'.lastEvent
      error := fun e he =>
        ErrorRecord.validate_eq_ok.mpr ⟨h'.errorId e he, h.error e he, h'.errorSource e he⟩
      errorTask := h'.errorTask
      errorIds := h'.errorIds
      gap := fun g hg => CaptureGapRecord.validate_eq_ok.mpr ⟨h'.gapId g hg, h.gap g hg⟩
      gapTask := h'.gapTask }

theorem attempts_eq_ok {taskRef : String} {l : List AttemptRecord} :
    eachAfter (validateAttempt taskRef) [] l = .ok () ↔
      (∀ a ∈ l, a.validate = .ok () ∧ a.taskRef = taskRef) ∧
        (l.map AttemptRecord.attemptId).Nodup ∧ (l.map AttemptRecord.ordinal).Nodup := by
  rw [eachAfter_eq_ok_iff (p := fun a => a.validate = .ok () ∧ a.taskRef = taskRef)
    (q := fun seen a => a.attemptId ∉ seen.map AttemptRecord.attemptId ∧
      a.ordinal ∉ seen.map AttemptRecord.ordinal) (by simp [validateAttempt, and_assoc]),
    nodup_map_iff_split, nodup_map_iff_split]
  simp only [imp_and, forall_and]

theorem events_eq_ok {taskRef : String} {l : List TaskEvent} :
    eachAfter (validateEvent taskRef) [] l = .ok () ↔
      (∀ e ∈ l, e.validate = .ok () ∧ e.taskRef = taskRef) ∧
        l.IsChain fun a b => a.terminal = none ∧ a.sequence < b.sequence := by
  rw [eachAfter_eq_ok_iff (p := fun e => e.validate = .ok () ∧ e.taskRef = taskRef)
    (q := fun seen e => ∀ last, seen.getLast? = some last →
      last.terminal = none ∧ last.sequence < e.sequence)
    (by simp [validateEvent, and_assoc, imp_and, forall_and]), isChain_iff_split]

theorem errors_eq_ok {taskRef : String} {l : List ErrorRecord} :
    eachAfter (validateError taskRef) [] l = .ok () ↔
      (∀ e ∈ l, e.validate = .ok () ∧ e.taskRef = taskRef) ∧
        (l.map ErrorRecord.errorId).Nodup := by
  rw [eachAfter_eq_ok_iff (p := fun e => e.validate = .ok () ∧ e.taskRef = taskRef)
    (q := fun seen e => e.errorId ∉ seen.map ErrorRecord.errorId)
    (by simp [validateError, and_assoc]), nodup_map_iff_split]

theorem gaps_eq_ok {taskRef : String} {l : List CaptureGapRecord} :
    eachAfter (validateGap taskRef) [] l = .ok () ↔
      ∀ g ∈ l, g.validate = .ok () ∧ ∀ value ∈ g.taskRef, value = taskRef := by
  rw [eachAfter_eq_ok_iff (p := fun g => g.validate = .ok () ∧ ∀ value ∈ g.taskRef,
    value = taskRef) (q := fun _ _ => True) (by simp [validateGap])]
  simp

theorem validate_eq_ok {u : TaskUpload} : u.validate = .ok () ↔ u.Valid := by
  simp only [validate, bind_eq_ok, exists_unit_and, mapError_eq_ok, ensure_eq_ok,
    attempts_eq_ok, events_eq_ok, errors_eq_ok, gaps_eq_ok]
  constructor
  · rintro ⟨hs, ⟨ha, hids, hords⟩, ⟨he, horder⟩, hlast, ⟨herr, herrids⟩, hg⟩
    exact ⟨hs, fun a h => (ha a h).1, fun a h => (ha a h).2, hids, hords, fun e h => (he e h).1,
      fun e h => (he e h).2, horder, hlast, fun e h => (herr e h).1, fun e h => (herr e h).2,
      herrids, fun g h => (hg g h).1, fun g h => (hg g h).2⟩
  · intro h
    exact ⟨h.snapshot, ⟨fun a ha => ⟨h.attempt a ha, h.attemptTask a ha⟩, h.attemptIds,
      h.ordinals⟩, ⟨fun e he => ⟨h.event e he, h.eventTask e he⟩, h.eventOrder⟩, h.lastEvent,
      ⟨fun e he => ⟨h.error e he, h.errorTask e he⟩, h.errorIds⟩,
      fun g hg => ⟨h.gap g hg, h.gapTask g hg⟩⟩

end TaskUpload

namespace IngestBatch

def validateTask (seen : List TaskUpload) (task : TaskUpload) : Checked := do
  task.validate.mapError (.under s!"tasks[{seen.length}]")
  ensure (task.snapshot.taskRef ∉ seen.map fun t => t.snapshot.taskRef)
    ⟨s!"tasks[{seen.length}].snapshot.task_ref", "must be unique within a batch"⟩

def validateHeartbeat (client : ClientInstance) (seen : List Heartbeat) (h : Heartbeat) :
    Checked := do
  h.validate.mapError (.under s!"heartbeats[{seen.length}]")
  ensure (h.clientId = client.clientId ∧ h.instanceId = client.instanceId)
    ⟨s!"heartbeats[{seen.length}]", "client identity must match the batch envelope"⟩

def validate (b : IngestBatch) : Checked := do
  ensure (b.version = PROTOCOL_VERSION) ⟨"version", s!"must equal {PROTOCOL_VERSION}"⟩
  validateUuidV7 "batch_id" b.batchId
  validateUuidV7 "client.instance_id" b.client.instanceId
  validateText "client.client_id" b.client.clientId MAX_ID_BYTES
  validateText "client.hostname" b.client.hostname MAX_SHORT_TEXT_BYTES
  validateText "client.platform" b.client.platform MAX_SHORT_TEXT_BYTES
  validateText "client.codex_version" b.client.codexVersion MAX_SHORT_TEXT_BYTES
  ensure (b.tasks.length ≤ MAX_BATCH_TASKS ∧ b.heartbeats.length ≤ MAX_BATCH_HEARTBEATS)
    ⟨"tasks", "batch contains too many tasks or heartbeats"⟩
  eachAfter validateTask [] b.tasks
  eachAfter (validateHeartbeat b.client) [] b.heartbeats

/-- The envelope of a batch: everything but its tasks and heartbeats. -/
structure EnvelopeValid (b : IngestBatch) : Prop where
  version : b.version = PROTOCOL_VERSION
  batchId : isUuidV7 b.batchId
  instanceId : isUuidV7 b.client.instanceId
  clientId : TextWithin MAX_ID_BYTES b.client.clientId
  hostname : TextWithin MAX_SHORT_TEXT_BYTES b.client.hostname
  platform : TextWithin MAX_SHORT_TEXT_BYTES b.client.platform
  codexVersion : TextWithin MAX_SHORT_TEXT_BYTES b.client.codexVersion
  counts : b.tasks.length ≤ MAX_BATCH_TASKS ∧ b.heartbeats.length ≤ MAX_BATCH_HEARTBEATS

/-- What a valid batch is. -/
structure Valid (b : IngestBatch) : Prop where
  envelope : b.EnvelopeValid
  task : ∀ t ∈ b.tasks, t.Valid
  taskRefs : (b.tasks.map fun t => t.snapshot.taskRef).Nodup
  heartbeat : ∀ h ∈ b.heartbeats, h.validate = .ok ()
  heartbeatClient : ∀ h ∈ b.heartbeats,
    h.clientId = b.client.clientId ∧ h.instanceId = b.client.instanceId

/-- The text and range checks of the tasks and heartbeats in a batch. -/
structure InLimits (b : IngestBatch) : Prop where
  task : ∀ t ∈ b.tasks, t.InLimits
  heartbeat : ∀ h ∈ b.heartbeats, h.InLimits

theorem validate_eq_ok {b : IngestBatch} : b.validate = .ok () ↔ b.Valid := by
  simp only [validate, bind_eq_ok, exists_unit_and, validateUuidV7_eq_ok, validateText_eq_ok,
    ensure_eq_ok]
  rw [eachAfter_eq_ok_iff (p := TaskUpload.Valid)
      (q := fun seen t => t.snapshot.taskRef ∉ seen.map fun t => t.snapshot.taskRef)
      (by simp [validateTask, TaskUpload.validate_eq_ok]),
    eachAfter_eq_ok_iff (p := fun h => h.validate = .ok () ∧ h.clientId = b.client.clientId ∧
      h.instanceId = b.client.instanceId) (q := fun _ _ => True) (by simp [validateHeartbeat])]
  rw [← nodup_map_iff_split (f := fun t : TaskUpload => t.snapshot.taskRef)]
  constructor
  · rintro ⟨h₁, h₂, h₃, h₄, h₅, h₆, h₇, h₈, ⟨ht, hrefs⟩, hh, -⟩
    exact ⟨⟨h₁, h₂, h₃, h₄, h₅, h₆, h₇, h₈⟩, ht, hrefs, fun h hm => (hh h hm).1,
      fun h hm => (hh h hm).2⟩
  · rintro ⟨⟨h₁, h₂, h₃, h₄, h₅, h₆, h₇, h₈⟩, ht, hrefs, hh, hc⟩
    exact ⟨h₁, h₂, h₃, h₄, h₅, h₆, h₇, h₈, ⟨ht, hrefs⟩, fun h hm => ⟨hh h hm, hc h hm⟩,
      fun _ _ _ _ => trivial⟩

end IngestBatch

end Codexwatch.Protocol
