import Codexwatch.Lib.Cbor
import Codexwatch.Protocol.Codec

/-!
# Batches as CBOR

What `ciborium` writes for the types of `protocol/src/types.rs`: a structure is a map of its
fields under their names, a variant is its name in snake case, an identifier is 16 bytes.

## Main definitions

* `IngestBatch.cbor` — the encoding of a batch.
* `Codec.WritesCbor` — the library writes it.
* `Codec.writing` — a codec that does, with frames that are not compressed.
-/
namespace Codexwatch.Protocol

open Cbor

def Uuid.cbor (u : Uuid) : Bytes := bytes (bigEndian 16 u.bits.toNat)

/-! ## Variants -/

def TaskPhase.snakeCase : TaskPhase → String
  | .running => "running"
  | .awaitingTool => "awaiting_tool"
  | .retrying => "retrying"
  | .terminal => "terminal"

def TerminalOutcome.snakeCase : TerminalOutcome → String
  | .completed => "completed"
  | .failed => "failed"
  | .aborted => "aborted"
  | .terminated => "terminated"
  | .lost => "lost"

def IntegrityState.snakeCase : IntegrityState → String
  | .complete => "complete"
  | .degraded => "degraded"
  | .lost => "lost"
  | .unsupportedBuild => "unsupported_build"

def AttemptStatus.snakeCase : AttemptStatus → String
  | .running => "running"
  | .completed => "completed"
  | .failed => "failed"
  | .incomplete => "incomplete"
  | .cancelled => "cancelled"
  | .transportLost => "transport_lost"

def ErrorSource.snakeCase : ErrorSource → String
  | .responseFailed => "response_failed"
  | .responseIncomplete => "response_incomplete"
  | .responseCancelled => "response_cancelled"
  | .sseError => "sse_error"
  | .httpStatus => "http_status"
  | .turnComplete => "turn_complete"
  | .turnAborted => "turn_aborted"
  | .processExit => "process_exit"
  | .captureGap => "capture_gap"
  | .unsupportedCodexBuild => "unsupported_codex_build"
  | .contentExpired => "content_expired"

def FlowDirection.snakeCase : FlowDirection → String
  | .clientToServer => "client_to_server"
  | .serverToClient => "server_to_client"

def TaskEventKind.snakeCase : TaskEventKind → String
  | .taskObserved => "task_observed"
  | .attemptStarted => "attempt_started"
  | .attemptCompleted => "attempt_completed"
  | .attemptFailed => "attempt_failed"
  | .attemptIncomplete => "attempt_incomplete"
  | .attemptCancelled => "attempt_cancelled"
  | .attemptLost => "attempt_lost"
  | .awaitingTool => "awaiting_tool"
  | .retrying => "retrying"
  | .terminalCompleted => "terminal_completed"
  | .terminalFailed => "terminal_failed"
  | .terminalAborted => "terminal_aborted"
  | .terminalTerminated => "terminal_terminated"
  | .terminalLost => "terminal_lost"
  | .captureGap => "capture_gap"
  | .unsupportedBuild => "unsupported_build"
  | .processExit => "process_exit"

/-! ## Structures -/

def ClientInstance.cbor (c : ClientInstance) : Bytes := map [
  ("client_id", text c.clientId), ("instance_id", c.instanceId.cbor),
  ("hostname", text c.hostname), ("platform", text c.platform),
  ("codex_version", text c.codexVersion), ("started_at_ms", int c.startedAtMs)]

def Heartbeat.cbor (h : Heartbeat) : Bytes := map [
  ("heartbeat_id", h.heartbeatId.cbor), ("client_id", text h.clientId),
  ("instance_id", h.instanceId.cbor), ("observed_at_ms", int h.observedAtMs),
  ("queue_depth", uint h.queueDepth), ("active_task_count", uint h.activeTaskCount),
  ("capture_health", text h.captureHealth.snakeCase), ("note", option text h.note)]

def TaskIdentity.cbor (i : TaskIdentity) : Bytes := map [
  ("provider", text i.provider), ("session_id", text i.sessionId),
  ("thread_id", text i.threadId), ("turn_id", text i.turnId)]

def CodexTaskMetadata.cbor (m : CodexTaskMetadata) : Bytes := map [
  ("request_kind", text m.requestKind), ("parent_turn_id", option text m.parentTurnId),
  ("root_turn_id", option text m.rootTurnId)]

def UsageSummary.cbor (u : UsageSummary) : Bytes := map [
  ("input_tokens", uint u.inputTokens), ("output_tokens", uint u.outputTokens),
  ("reasoning_tokens", uint u.reasoningTokens), ("total_tokens", uint u.totalTokens)]

def ErrorRecord.cbor (e : ErrorRecord) : Bytes := map [
  ("error_id", e.errorId.cbor), ("task_ref", text e.taskRef),
  ("attempt_id", option Uuid.cbor e.attemptId), ("occurred_at_ms", int e.occurredAtMs),
  ("source", text e.source.snakeCase), ("wire_type", option text e.wireType),
  ("code", option text e.code), ("message", text e.message), ("param", option text e.param),
  ("reason", option text e.reason), ("http_status", option uint e.httpStatus),
  ("exit_code", option int e.exitCode), ("signal", option int e.signal)]

def CaptureGapRecord.cbor (g : CaptureGapRecord) : Bytes := map [
  ("gap_id", g.gapId.cbor), ("task_ref", option text g.taskRef), ("flow_id", text g.flowId),
  ("direction", text g.direction.snakeCase), ("occurred_at_ms", int g.occurredAtMs),
  ("start_seq", uint g.startSeq), ("end_seq", uint g.endSeq), ("reason", text g.reason)]

/-- The title is skipped where there is none. -/
def TaskSnapshot.cbor (s : TaskSnapshot) : Bytes := map <|
  [("task_ref", text s.taskRef), ("identity", s.identity.cbor), ("codex", s.codex.cbor)] ++
  (s.conversationTitle.toList.map fun title => ("conversation_title", text title)) ++
  [("sequence", uint s.sequence), ("phase", text s.phase.snakeCase),
    ("terminal", option (fun t => text t.snakeCase) s.terminal),
    ("integrity", text s.integrity.snakeCase), ("model", option text s.model),
    ("attempt_count", uint s.attemptCount), ("tool_names", array text s.toolNames),
    ("response_ids", array text s.responseIds), ("usage", s.usage.cbor),
    ("started_at_ms", int s.startedAtMs), ("updated_at_ms", int s.updatedAtMs),
    ("completed_at_ms", option int s.completedAtMs),
    ("last_error", option ErrorRecord.cbor s.lastError)]

def AttemptRecord.cbor (a : AttemptRecord) : Bytes := map [
  ("attempt_id", a.attemptId.cbor), ("task_ref", text a.taskRef), ("ordinal", uint a.ordinal),
  ("response_id", option text a.responseId), ("transport", text a.transport),
  ("status", text a.status.snakeCase), ("http_status", option uint a.httpStatus),
  ("model", option text a.model), ("tool_names", array text a.toolNames),
  ("usage", a.usage.cbor), ("error", option ErrorRecord.cbor a.error),
  ("request_object_sha256", option text a.requestObjectSha256),
  ("response_object_sha256", option text a.responseObjectSha256),
  ("started_at_ms", int a.startedAtMs), ("ended_at_ms", option int a.endedAtMs),
  ("awaiting_tool", bool a.awaitingTool)]

def TaskEvent.cbor (e : TaskEvent) : Bytes := map [
  ("event_id", e.eventId.cbor), ("task_ref", text e.taskRef), ("sequence", uint e.sequence),
  ("occurred_at_ms", int e.occurredAtMs), ("kind", text e.kind.snakeCase),
  ("phase", text e.phase.snakeCase),
  ("terminal", option (fun t => text t.snakeCase) e.terminal),
  ("attempt_id", option Uuid.cbor e.attemptId), ("response_id", option text e.responseId),
  ("model", option text e.model), ("tool_names", array text e.toolNames),
  ("usage", e.usage.cbor), ("error", option ErrorRecord.cbor e.error),
  ("http_status", option uint e.httpStatus), ("exit_code", option int e.exitCode),
  ("signal", option int e.signal), ("note", option text e.note)]

def TaskUpload.cbor (u : TaskUpload) : Bytes := map [
  ("snapshot", u.snapshot.cbor), ("attempts", array AttemptRecord.cbor u.attempts),
  ("events", array TaskEvent.cbor u.events), ("errors", array ErrorRecord.cbor u.errors),
  ("gaps", array CaptureGapRecord.cbor u.gaps)]

def IngestBatch.cbor (b : IngestBatch) : Bytes := map [
  ("version", uint b.version), ("batch_id", b.batchId.cbor),
  ("generated_at_ms", int b.generatedAtMs), ("client", b.client.cbor),
  ("tasks", array TaskUpload.cbor b.tasks), ("heartbeats", array Heartbeat.cbor b.heartbeats)]

/-- `ciborium::ser::into_writer` -/
def Codec.WritesCbor (codec : Codec) : Prop := ∀ batch, codec.intoWriter batch = batch.cbor

/-! ## Their lengths -/

@[simp] theorem length_cbor_uuid (u : Uuid) : u.cbor.length = 17 := by
  rw [Uuid.cbor, length_bytes, bigEndian, List.length_map, List.length_range]
  rfl

theorem ClientInstance.length_cbor (c : ClientInstance) : c.cbor.length =
    69 + [textSize c.clientId, 17, textSize c.hostname, textSize c.platform,
      textSize c.codexVersion, intSize c.startedAtMs].sum := by
  have hframe : frame ["client_id", "instance_id", "hostname", "platform", "codex_version",
    "started_at_ms"] = 69 := by decide
  rw [ClientInstance.cbor, length_map]
  simp only [List.map_cons, List.map_nil, hframe, length_text, length_cbor_uuid, length_int]

theorem Heartbeat.length_cbor (h : Heartbeat) : h.cbor.length =
    101 + [17, textSize h.clientId, 17, intSize h.observedAtMs, headSize h.queueDepth,
      headSize h.activeTaskCount, textSize h.captureHealth.snakeCase,
      optionSize textSize h.note].sum := by
  have hframe : frame ["heartbeat_id", "client_id", "instance_id", "observed_at_ms",
    "queue_depth", "active_task_count", "capture_health", "note"] = 101 := by decide
  rw [Heartbeat.cbor, length_map]
  simp only [List.map_cons, List.map_nil, hframe, length_text, length_cbor_uuid, length_int,
    length_uint, length_option]

theorem TaskIdentity.length_cbor (i : TaskIdentity) : i.cbor.length =
    39 + [textSize i.provider, textSize i.sessionId, textSize i.threadId,
      textSize i.turnId].sum := by
  have hframe : frame ["provider", "session_id", "thread_id", "turn_id"] = 39 := by decide
  rw [TaskIdentity.cbor, length_map]
  simp only [List.map_cons, List.map_nil, hframe, length_text]

theorem CodexTaskMetadata.length_cbor (m : CodexTaskMetadata) : m.cbor.length =
    42 + [textSize m.requestKind, optionSize textSize m.parentTurnId,
      optionSize textSize m.rootTurnId].sum := by
  have hframe : frame ["request_kind", "parent_turn_id", "root_turn_id"] = 42 := by decide
  rw [CodexTaskMetadata.cbor, length_map]
  simp only [List.map_cons, List.map_nil, hframe, length_text, length_option]

theorem UsageSummary.length_cbor (u : UsageSummary) : u.cbor.length =
    58 + [headSize u.inputTokens, headSize u.outputTokens, headSize u.reasoningTokens,
      headSize u.totalTokens].sum := by
  have hframe : frame ["input_tokens", "output_tokens", "reasoning_tokens",
    "total_tokens"] = 58 := by decide
  rw [UsageSummary.cbor, length_map]
  simp only [List.map_cons, List.map_nil, hframe, length_uint]

theorem ErrorRecord.length_cbor (e : ErrorRecord) : e.cbor.length =
    117 + [17, textSize e.taskRef, optionSize (fun _ => 17) e.attemptId, intSize e.occurredAtMs,
      textSize e.source.snakeCase, optionSize textSize e.wireType, optionSize textSize e.code,
      textSize e.message, optionSize textSize e.param, optionSize textSize e.reason,
      optionSize headSize e.httpStatus, optionSize intSize e.exitCode,
      optionSize intSize e.signal].sum := by
  have hframe : frame ["error_id", "task_ref", "attempt_id", "occurred_at_ms", "source",
    "wire_type", "code", "message", "param", "reason", "http_status", "exit_code",
    "signal"] = 117 := by decide
  rw [ErrorRecord.cbor, length_map]
  simp only [List.map_cons, List.map_nil, hframe, length_text, length_cbor_uuid, length_int,
    length_uint, length_option]

theorem CaptureGapRecord.length_cbor (g : CaptureGapRecord) : g.cbor.length =
    75 + [17, optionSize textSize g.taskRef, textSize g.flowId, textSize g.direction.snakeCase,
      intSize g.occurredAtMs, headSize g.startSeq, headSize g.endSeq, textSize g.reason].sum := by
  have hframe : frame ["gap_id", "task_ref", "flow_id", "direction", "occurred_at_ms",
    "start_seq", "end_seq", "reason"] = 75 := by decide
  rw [CaptureGapRecord.cbor, length_map]
  simp only [List.map_cons, List.map_nil, hframe, length_text, length_cbor_uuid, length_int,
    length_uint, length_option]

theorem TaskSnapshot.length_cbor (s : TaskSnapshot) : s.cbor.length =
    164 + (s.conversationTitle.elim 0 fun title => 19 + textSize title) +
      [textSize s.taskRef, s.identity.cbor.length, s.codex.cbor.length, headSize s.sequence,
        textSize s.phase.snakeCase, optionSize (fun t => textSize t.snakeCase) s.terminal,
        textSize s.integrity.snakeCase, optionSize textSize s.model, headSize s.attemptCount,
        arraySize (s.toolNames.map textSize), arraySize (s.responseIds.map textSize),
        s.usage.cbor.length, intSize s.startedAtMs, intSize s.updatedAtMs,
        optionSize intSize s.completedAtMs,
        optionSize (fun e => e.cbor.length) s.lastError].sum := by
  have hframe : frame ["task_ref", "identity", "codex", "sequence", "phase", "terminal",
    "integrity", "model", "attempt_count", "tool_names", "response_ids", "usage", "started_at_ms",
    "updated_at_ms", "completed_at_ms", "last_error"] = 164 := by decide
  have htitled : frame ["task_ref", "identity", "codex", "conversation_title", "sequence", "phase",
    "terminal", "integrity", "model", "attempt_count", "tool_names", "response_ids", "usage",
    "started_at_ms", "updated_at_ms", "completed_at_ms", "last_error"] = 183 := by decide
  have hsum (a b c title : ℕ) (rest : List ℕ) : 183 + (a :: b :: c :: title :: rest).sum =
      164 + (19 + title) + (a :: b :: c :: rest).sum := by
    simp only [List.sum_cons]
    omega
  rw [TaskSnapshot.cbor, length_map]
  cases s.conversationTitle with
  | none =>
      simp only [Option.toList_none, List.map_nil, List.append_nil, List.cons_append,
        List.nil_append, List.map_cons, hframe, length_text, length_int, length_uint,
        length_option, length_array, Option.elim_none, Nat.add_zero]
  | some title =>
      simp only [Option.toList_some, List.map_nil, List.cons_append, List.nil_append,
        List.map_cons, htitled, length_text, length_int, length_uint, length_option,
        length_array, Option.elim_some]
      exact hsum ..

theorem AttemptRecord.length_cbor (a : AttemptRecord) : a.cbor.length =
    184 + [17, textSize a.taskRef, headSize a.ordinal, optionSize textSize a.responseId,
      textSize a.transport, textSize a.status.snakeCase, optionSize headSize a.httpStatus,
      optionSize textSize a.model, arraySize (a.toolNames.map textSize), a.usage.cbor.length,
      optionSize (fun e => e.cbor.length) a.error, optionSize textSize a.requestObjectSha256,
      optionSize textSize a.responseObjectSha256, intSize a.startedAtMs,
      optionSize intSize a.endedAtMs, 1].sum := by
  have hframe : frame ["attempt_id", "task_ref", "ordinal", "response_id", "transport", "status",
    "http_status", "model", "tool_names", "usage", "error", "request_object_sha256",
    "response_object_sha256", "started_at_ms", "ended_at_ms", "awaiting_tool"] = 184 := by decide
  rw [AttemptRecord.cbor, length_map]
  simp only [List.map_cons, List.map_nil, hframe, length_text, length_cbor_uuid, length_int,
    length_uint, length_bool, length_option, length_array]

theorem TaskEvent.length_cbor (e : TaskEvent) : e.cbor.length =
    149 + [17, textSize e.taskRef, headSize e.sequence, intSize e.occurredAtMs,
      textSize e.kind.snakeCase, textSize e.phase.snakeCase,
      optionSize (fun t => textSize t.snakeCase) e.terminal, optionSize (fun _ => 17) e.attemptId,
      optionSize textSize e.responseId, optionSize textSize e.model,
      arraySize (e.toolNames.map textSize), e.usage.cbor.length,
      optionSize (fun e => e.cbor.length) e.error, optionSize headSize e.httpStatus,
      optionSize intSize e.exitCode, optionSize intSize e.signal,
      optionSize textSize e.note].sum := by
  have hframe : frame ["event_id", "task_ref", "sequence", "occurred_at_ms", "kind", "phase",
    "terminal", "attempt_id", "response_id", "model", "tool_names", "usage", "error",
    "http_status", "exit_code", "signal", "note"] = 149 := by decide
  rw [TaskEvent.cbor, length_map]
  simp only [List.map_cons, List.map_nil, hframe, length_text, length_cbor_uuid, length_int,
    length_uint, length_option, length_array]

theorem TaskUpload.length_cbor (u : TaskUpload) : u.cbor.length =
    38 + [u.snapshot.cbor.length, arraySize (u.attempts.map fun a => a.cbor.length),
      arraySize (u.events.map fun e => e.cbor.length),
      arraySize (u.errors.map fun e => e.cbor.length),
      arraySize (u.gaps.map fun g => g.cbor.length)].sum := by
  have hframe : frame ["snapshot", "attempts", "events", "errors", "gaps"] = 38 := by decide
  rw [TaskUpload.cbor, length_map]
  simp only [List.map_cons, List.map_nil, hframe, length_array]

theorem IngestBatch.length_cbor (b : IngestBatch) : b.cbor.length =
    58 + [headSize b.version, 17, intSize b.generatedAtMs, b.client.cbor.length,
      arraySize (b.tasks.map fun u => u.cbor.length),
      arraySize (b.heartbeats.map fun h => h.cbor.length)].sum := by
  have hframe : frame ["version", "batch_id", "generated_at_ms", "client", "tasks",
    "heartbeats"] = 58 := by decide
  rw [IngestBatch.cbor, length_map]
  simp only [List.map_cons, List.map_nil, hframe, length_cbor_uuid, length_int, length_uint,
    length_array]

/-! ## A codec -/

/-- Batches in CBOR, in frames that are not compressed; it reads back those of a list. -/
def Codec.writing (batches : List IngestBatch) : Codec where
  intoWriter := IngestBatch.cbor
  fromReader payload :=
    (batches.find? fun batch => batch.cbor.isPrefixOf payload).map fun batch =>
      (batch, batch.cbor.length)
  encodeAll payload := payload
  readDecoded bytes limit := some (bytes.take limit)
  decodeAll bytes := some bytes
  sha256 payload := Vector.replicate 32 (payload.foldl (· + ·) 0)

theorem Codec.writesCbor_writing (batches : List IngestBatch) :
    (Codec.writing batches).WritesCbor := fun _ => rfl

theorem Codec.lawfulFor_writing {batches : List IngestBatch} {batch : IngestBatch}
    (h : batches.find? (fun other => other.cbor.isPrefixOf batch.cbor) = some batch) :
    (Codec.writing batches).LawfulFor batch where
  fromReader_intoWriter := by
    simp only [writing, h, Option.map_some]
  readDecoded_encodeAll _ := rfl

/-! ## A small batch -/

/-- A running task of session `s`, thread `t`. -/
def sampleSnapshot (turnId : String) (sequence : ℕ) : TaskSnapshot where
  taskRef := "s:t:" ++ turnId
  identity := { provider := "codex", sessionId := "s", threadId := "t", turnId }
  codex := { requestKind := "turn", parentTurnId := none, rootTurnId := none }
  conversationTitle := none
  sequence := sequence
  phase := .running
  terminal := none
  integrity := .complete
  model := none
  attemptCount := 0
  toolNames := []
  responseIds := []
  usage := .zero
  startedAtMs := 5
  updatedAtMs := 10
  completedAtMs := none
  lastError := none

/-- A batch with one task and one heartbeat, as the client sends it. -/
def sampleBatch (clientId turnId : String) (batchId sequence : ℕ) : IngestBatch where
  version := PROTOCOL_VERSION
  batchId := .v7 batchId
  generatedAtMs := 10
  client :=
    { clientId, instanceId := .v7 batchId, hostname := "host", platform := "linux-x86_64"
      codexVersion := "0.148.0", startedAtMs := 1 }
  tasks := [⟨sampleSnapshot turnId sequence, [], [], [], []⟩]
  heartbeats := [
    { heartbeatId := .v7 batchId, clientId, instanceId := .v7 batchId, observedAtMs := 10
      queueDepth := 0, activeTaskCount := 1, captureHealth := .complete, note := none }]

end Codexwatch.Protocol
