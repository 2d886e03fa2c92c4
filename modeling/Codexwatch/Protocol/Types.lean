import Mathlib.Data.List.Basic
import Mathlib.Data.Int.Notation
import Codexwatch.Lib.Text

/-!
# Wire types

The types of `protocol/src/types.rs`. Unsigned counters are natural numbers and
`TimestampMs` is an integer; where an operation on them can leave the machine
range, the operation says so.
-/
namespace Codexwatch.Protocol

abbrev TimestampMs := ℤ

/-- The bytes of a payload, a file or a request body. -/
abbrev Bytes := List UInt8

def PROTOCOL_VERSION : ℕ := 1
def MAX_ERROR_MESSAGE_BYTES : ℕ := 32 * 1024
def MAX_CONTENT_CHUNK_BYTES : ℕ := 1024 * 1024

/-- A UUID as its 128 bits, the first byte uppermost. -/
structure Uuid where
  bits : BitVec 128
  deriving DecidableEq, Repr

namespace Uuid

/-- The high half of byte six. -/
def getVersionNum (u : Uuid) : ℕ := (u.bits.toNat >>> 76) % 16

/-- The version 7 UUID with the given low bits. -/
def v7 (n : BitVec 64) : Uuid := ⟨(0x7000#64 ++ n)⟩

/-- The hyphenated lower-case form. -/
def toString (u : Uuid) : String :=
  let digits := (List.range 32).map fun i => Text.hexDigit ((u.bits.toNat >>> (4 * (31 - i))) % 16)
  let part (start len : ℕ) : String := String.ofList ((digits.drop start).take len)
  part 0 8 ++ "-" ++ part 8 4 ++ "-" ++ part 12 4 ++ "-" ++ part 16 4 ++ "-" ++ part 20 12

theorem getVersionNum_v7 (n : BitVec 64) : (v7 n).getVersionNum = 7 := by
  have hn : n.toNat < 2 ^ 64 := n.isLt
  simp only [v7, getVersionNum, BitVec.toNat_append, BitVec.toNat_ofNat, Nat.shiftRight_eq_div_pow,
    Nat.shiftLeft_eq]
  rw [← Nat.shiftLeft_eq, ← Nat.shiftLeft_add_eq_or_of_lt hn, Nat.shiftLeft_eq]
  omega

end Uuid

structure ClientInstance where
  clientId : String
  instanceId : Uuid
  hostname : String
  platform : String
  codexVersion : String
  startedAtMs : TimestampMs
  deriving DecidableEq

inductive TaskPhase
  | running | awaitingTool | retrying | terminal
  deriving DecidableEq, Repr

inductive TerminalOutcome
  | completed | failed | aborted | terminated | lost
  deriving DecidableEq, Repr

inductive IntegrityState
  | complete | degraded | lost | unsupportedBuild
  deriving DecidableEq, Repr

inductive AttemptStatus
  | running | completed | failed | incomplete | cancelled | transportLost
  deriving DecidableEq, Repr

inductive ErrorSource
  | responseFailed | responseIncomplete | responseCancelled | sseError | httpStatus
  | turnComplete | turnAborted | processExit | captureGap | unsupportedCodexBuild
  | contentExpired
  deriving DecidableEq, Repr

inductive FlowDirection
  | clientToServer | serverToClient
  deriving DecidableEq, Repr

structure Heartbeat where
  heartbeatId : Uuid
  clientId : String
  instanceId : Uuid
  observedAtMs : TimestampMs
  queueDepth : ℕ
  activeTaskCount : ℕ
  captureHealth : IntegrityState
  note : Option String
  deriving DecidableEq

structure TaskIdentity where
  provider : String
  sessionId : String
  threadId : String
  turnId : String
  deriving DecidableEq

def TaskIdentity.taskRef (i : TaskIdentity) : String :=
  i.sessionId ++ ":" ++ i.threadId ++ ":" ++ i.turnId

structure CodexTaskMetadata where
  requestKind : String
  parentTurnId : Option String
  rootTurnId : Option String
  deriving DecidableEq

structure UsageSummary where
  inputTokens : ℕ
  outputTokens : ℕ
  reasoningTokens : ℕ
  totalTokens : ℕ
  deriving DecidableEq

/-- `UsageSummary::default()`. -/
def UsageSummary.zero : UsageSummary := ⟨0, 0, 0, 0⟩

structure ErrorRecord where
  errorId : Uuid
  taskRef : String
  attemptId : Option Uuid
  occurredAtMs : TimestampMs
  source : ErrorSource
  wireType : Option String
  code : Option String
  message : String
  param : Option String
  reason : Option String
  httpStatus : Option ℕ
  exitCode : Option ℤ
  signal : Option ℤ
  deriving DecidableEq

structure CaptureGapRecord where
  gapId : Uuid
  taskRef : Option String
  flowId : String
  direction : FlowDirection
  occurredAtMs : TimestampMs
  startSeq : ℕ
  endSeq : ℕ
  reason : String
  deriving DecidableEq

structure TaskSnapshot where
  taskRef : String
  identity : TaskIdentity
  codex : CodexTaskMetadata
  conversationTitle : Option String
  sequence : ℕ
  phase : TaskPhase
  terminal : Option TerminalOutcome
  integrity : IntegrityState
  model : Option String
  attemptCount : ℕ
  toolNames : List String
  responseIds : List String
  usage : UsageSummary
  startedAtMs : TimestampMs
  updatedAtMs : TimestampMs
  completedAtMs : Option TimestampMs
  lastError : Option ErrorRecord
  deriving DecidableEq

structure AttemptRecord where
  attemptId : Uuid
  taskRef : String
  ordinal : ℕ
  responseId : Option String
  transport : String
  status : AttemptStatus
  httpStatus : Option ℕ
  model : Option String
  toolNames : List String
  usage : UsageSummary
  error : Option ErrorRecord
  requestObjectSha256 : Option String
  responseObjectSha256 : Option String
  startedAtMs : TimestampMs
  endedAtMs : Option TimestampMs
  awaitingTool : Bool
  deriving DecidableEq

inductive TaskEventKind
  | taskObserved | attemptStarted | attemptCompleted | attemptFailed | attemptIncomplete
  | attemptCancelled | attemptLost | awaitingTool | retrying | terminalCompleted
  | terminalFailed | terminalAborted | terminalTerminated | terminalLost | captureGap
  | unsupportedBuild | processExit
  deriving DecidableEq, Repr

def TaskEventKind.terminalHint : TaskEventKind → Option TerminalOutcome
  | .terminalCompleted => some .completed
  | .terminalFailed => some .failed
  | .terminalAborted => some .aborted
  | .terminalTerminated | .processExit => some .terminated
  | .terminalLost => some .lost
  | _ => none

structure TaskEvent where
  eventId : Uuid
  taskRef : String
  sequence : ℕ
  occurredAtMs : TimestampMs
  kind : TaskEventKind
  phase : TaskPhase
  terminal : Option TerminalOutcome
  attemptId : Option Uuid
  responseId : Option String
  model : Option String
  toolNames : List String
  usage : UsageSummary
  error : Option ErrorRecord
  httpStatus : Option ℕ
  exitCode : Option ℤ
  signal : Option ℤ
  note : Option String
  deriving DecidableEq

structure TaskUpload where
  snapshot : TaskSnapshot
  attempts : List AttemptRecord
  events : List TaskEvent
  errors : List ErrorRecord
  gaps : List CaptureGapRecord
  deriving DecidableEq

structure IngestBatch where
  version : ℕ
  batchId : Uuid
  generatedAtMs : TimestampMs
  client : ClientInstance
  tasks : List TaskUpload
  heartbeats : List Heartbeat
  deriving DecidableEq

structure IngestAck where
  batchId : Uuid
  payloadSha256 : String
  acceptedTasks : ℕ
  acceptedHeartbeats : ℕ
  duplicate : Bool
  deriving DecidableEq

/-! ## Full content -/

inductive ContentPart
  | request | response | toolInput | toolOutput | modelText
  deriving DecidableEq, Repr

structure ContentRequest where
  requestId : Uuid
  clientId : String
  taskRef : String
  sessionId : String
  threadId : String
  createdAtMs : TimestampMs
  expiresAtMs : Option TimestampMs
  parts : List ContentPart
  deriving DecidableEq

structure ContentRequestCommand where
  commandId : Uuid
  request : ContentRequest
  deriving DecidableEq

structure ContentUploadChunk where
  requestId : Uuid
  chunkIndex : ℕ
  chunkCount : ℕ
  objectSha256 : String
  payloadSha256 : String
  payloadZstd : Bytes
  isLast : Bool
  deriving DecidableEq

structure ContentObjectManifest where
  requestId : Uuid
  taskRef : String
  sessionId : String
  threadId : String
  part : ContentPart
  objectSha256 : String
  mediaType : String
  uncompressedBytes : ℕ
  compressedBytes : ℕ
  chunkCount : ℕ
  createdAtMs : TimestampMs
  deriving DecidableEq

inductive ContentUploadStatus
  | stored | contentExpired | rejected
  deriving DecidableEq, Repr

structure ContentUploadResult where
  requestId : Uuid
  status : ContentUploadStatus
  note : Option String
  deriving DecidableEq

end Codexwatch.Protocol
