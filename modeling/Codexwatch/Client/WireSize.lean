import Mathlib.Algebra.Group.Action.Defs
import Mathlib.Algebra.Order.BigOperators.Group.List
import Codexwatch.Client.Uploads
import Codexwatch.Client.Lane
import Codexwatch.Protocol.Encoding

/-!
# How long a batch is on the wire

The batches of `client/src/store.rs` hold up to 128 records, whatever their size. Here is what
each record and each stored row adds to the encoding of its batch: the text of an error is in
its event or attempt and again among the errors of its task, and the row of a task comes with
every batch that names the task.

## Main definitions

* `transitionBytes`, `attemptBytes`, `gapBytes`, `heartbeatBytes`, `rowBytes` — the parts.
* `chunkBytes` — a batch, from its records and the rows of their tasks.
* `batchesFit_iff` — the batches that are built are in the limits when this is.
-/
namespace Codexwatch.Client

open Protocol Cbor

/-! ## Parts -/

/-- The source of an error record and what follows it, field by field. -/
def errorFields (kind : Option TaskEventKind) : StructuredError → List ℕ
  | .provider inner =>
      [textSize (if inner.wireType = "response.cancelled" then "response_cancelled"
          else "response_failed"),
        textSize inner.wireType, optionSize textSize inner.code, textSize inner.message,
        optionSize textSize inner.param, 1, 1, 1, 1]
  | .http inner =>
      [textSize "http_status", optionSize (fun e => textSize e.wireType) inner.providerError,
        optionSize textSize (inner.providerError.bind ProviderError.code),
        textSize ((inner.providerError.map ProviderError.message).getD s!"http {inner.status}"),
        optionSize textSize (inner.providerError.bind ProviderError.param), 1,
        headSize inner.status, 1, 1]
  | .incomplete reason =>
      [textSize "response_incomplete", 1, 1, textSize reason, 1, textSize reason, 1, 1, 1]
  | .codexTerminal code message =>
      [textSize "turn_complete", 1, optionSize textSize code, textSize message, 1, 1, 1, 1, 1]
  | .turnAborted reason =>
      [textSize "turn_aborted", 1, 1, textSize reason, 1, textSize reason, 1, 1, 1]
  | .processTerminated inner =>
      [textSize "process_exit", 1, 1, textSize "process exited", 1,
        optionSize (fun kind => textSize (debugName kind)) kind, 1,
        optionSize intSize inner.exitCode, optionSize intSize inner.signal]
  | .captureLost inner =>
      [textSize "capture_gap", 1, 1, textSize inner.reason, 1, textSize inner.reason, 1, 1, 1]
  | .unsupportedCodexBuild inner =>
      [textSize "unsupported_codex_build", 1, textSize inner.executableSha256,
        textSize s!"unsupported build {inner.architecture}", optionSize textSize inner.codexVersion,
        1, 1, 1, 1]

def errorBytes (taskRef : String) (ofAttempt : Bool) (occurredAtMs : ℤ)
    (kind : Option TaskEventKind) (error : StructuredError) : ℕ :=
  117 + (17 :: textSize taskRef :: (if ofAttempt then 17 else 1) :: intSize occurredAtMs ::
    errorFields kind error).sum

def usageBytes (usage : TokenUsage) : ℕ :=
  58 + [headSize (usage.inputTokens.getD 0), headSize (usage.outputTokens.getD 0),
    headSize (usage.reasoningTokens.getD 0),
    headSize (usage.totalTokens.getD (usage.parts % 2 ^ 64))].sum

def transitionErrorBytes (transition : TaskTransition) : StructuredError → ℕ :=
  errorBytes transition.task.taskRef false (ts transition.observedAt)
    (some (transitionKind transition))

def transitionBytes (transition : TaskTransition) : ℕ :=
  149 + [17, textSize transition.task.taskRef, headSize transition.sequence,
    intSize (ts transition.observedAt), textSize (transitionKind transition).snakeCase,
    textSize (mapPhase transition.phase).snakeCase,
    optionSize (fun outcome => textSize (mapOutcome outcome).snakeCase) transition.outcome,
    1, 1, 1, 1, 62, optionSize (transitionErrorBytes transition) transition.error,
    optionSize headSize (extractHttpStatus transition.error),
    optionSize intSize (extractProcessExit transition.error).1,
    optionSize intSize (extractProcessExit transition.error).2, 1].sum

def attemptErrorBytes (attempt : AttemptSummary) : StructuredError → ℕ :=
  errorBytes attempt.task.taskRef true (ts (attempt.finishedAt.getD attempt.startedAt)) none

def attemptBytes (c : Contents) (attempt : AttemptSummary) : ℕ :=
  184 + [17, textSize attempt.task.taskRef, headSize attempt.ordinal,
    optionSize textSize attempt.responseId, textSize RESPONSES_TRANSPORT,
    textSize (mapAttemptStatus attempt.status).snakeCase,
    optionSize headSize (extractHttpStatus attempt.error), optionSize textSize attempt.model,
    arraySize (attempt.toolNames.map textSize), usageBytes attempt.usage,
    optionSize (attemptErrorBytes attempt) attempt.error,
    optionSize (fun object => textSize object.1) (newestObject c attempt.task.taskRef .request),
    optionSize (fun object => textSize object.1) (newestObject c attempt.task.taskRef .response),
    intSize (ts attempt.startedAt), optionSize (fun at_ => intSize (ts at_)) attempt.finishedAt,
    1].sum

def gapBytes (gap : CaptureGapSummary) : ℕ :=
  75 + [17, optionSize (fun task => textSize (TaskKey.taskRef task)) gap.task,
    textSize ((gap.flowId.map Uuid.toString).getD "unknown"), textSize "server_to_client",
    intSize (ts gap.observedAt), headSize (gap.lostBytes.getD 0), headSize (gap.lostBytes.getD 0),
    textSize gap.reason].sum

def heartbeatBytes (client : ClientInstance) (heartbeat : HeartbeatSummary) : ℕ :=
  101 + [17, textSize client.clientId, 17, intSize (ts heartbeat.observedAt), 1, 1,
    textSize (captureHealth heartbeat.health).snakeCase, textSize heartbeat.clientVersion].sum

/-- The stored task, with all tool names and response ids it has accumulated. -/
def rowBytes (taskRef : String) (row : TaskRow) : ℕ :=
  164 + (row.conversationTitle.elim 0 fun title => 19 + textSize title) +
    [textSize taskRef,
      39 + [textSize row.task.provider, textSize row.task.sessionId, textSize row.task.threadId,
        textSize row.task.turnId].sum,
      42 + [textSize "turn", optionSize textSize row.parentTurnId,
        optionSize textSize row.rootTurnId].sum,
      headSize row.sequence, textSize (mapPhase row.phase).snakeCase,
      optionSize (fun outcome => textSize (mapOutcome outcome).snakeCase) row.outcome,
      textSize (mapIntegrity row.completeness).snakeCase, optionSize textSize row.model,
      headSize row.attemptCount, arraySize (row.toolNames.map textSize),
      arraySize (row.responseIds.map textSize), usageBytes row.usage, intSize row.startedAt,
      intSize row.updatedAt, optionSize intSize row.terminalAt,
      optionSize (errorBytes taskRef false row.updatedAt none) row.lastError].sum

/-! ## Batches -/

section Bytes
variable (client : ClientInstance) (t : Tick) (s : Store) (taskRef : String)

/-- What a record of the task adds to the attempts of its upload, and so on. -/
def recordAttempt : SummaryRecord → Option ℕ
  | .attempt attempt =>
      if attempt.task.taskRef = taskRef then some (attemptBytes s.contents attempt) else none
  | _ => none

def recordEvent : SummaryRecord → Option ℕ
  | .taskTransition transition =>
      if transition.task.taskRef = taskRef then some (transitionBytes transition) else none
  | _ => none

def recordError : SummaryRecord → Option ℕ
  | .taskTransition transition =>
      if transition.task.taskRef = taskRef then
        transition.error.map (transitionErrorBytes transition)
      else none
  | .attempt attempt =>
      if attempt.task.taskRef = taskRef then attempt.error.map (attemptErrorBytes attempt)
      else none
  | _ => none

def recordGap : SummaryRecord → Option ℕ
  | .captureGap gap =>
      if gap.task.map TaskKey.taskRef = some taskRef then some (gapBytes gap) else none
  | _ => none

def recordHeartbeat : SummaryRecord → Option ℕ
  | .heartbeat heartbeat => some (heartbeatBytes client heartbeat)
  | _ => none

def uploadBytes (records : List SummaryRecord) (row : TaskRow) : ℕ :=
  38 + [rowBytes taskRef row, arraySize (records.filterMap (recordAttempt s taskRef)),
    arraySize (records.filterMap (recordEvent taskRef)),
    arraySize (records.filterMap (recordError taskRef)),
    arraySize (records.filterMap (recordGap taskRef))].sum

/-- The records of one batch, with the rows of the tasks that they name. -/
def chunkBytes (records : List SummaryRecord) : ℕ :=
  58 + [1, 17, intSize t.nowMs,
    69 + [textSize client.clientId, 17, textSize client.hostname, textSize client.platform,
      textSize client.codexVersion, intSize client.startedAtMs].sum,
    arraySize ((uploadTasks records).filterMap fun taskRef =>
      (s.activeTasks.get? taskRef).map (uploadBytes s taskRef records)),
    arraySize (records.filterMap (recordHeartbeat client))].sum

end Bytes

/-! ## One record -/

section Records
variable {errorId : Uuid} {taskRef : String}

theorem length_cbor_mapErrorRecord (attemptId : Option Uuid) (occurredAtMs : TimestampMs)
    (error : StructuredError) (kind : Option TaskEventKind) :
    (mapErrorRecord errorId taskRef attemptId occurredAtMs error kind).cbor.length =
      errorBytes taskRef attemptId.isSome occurredAtMs kind error := by
  have hattempt : optionSize (fun _ => 17) attemptId = if attemptId.isSome then 17 else 1 := by
    cases attemptId <;> rfl
  rw [ErrorRecord.length_cbor, errorBytes, ← hattempt]
  cases error with
  | provider inner =>
      simp only [mapErrorRecord, errorFields, optionSize_none, optionSize_some]
      split <;> simp only [ErrorSource.snakeCase]
  | http inner =>
      simp only [mapErrorRecord, errorFields, ErrorSource.snakeCase, optionSize_none,
        optionSize_some, optionSize_map]
  | processTerminated inner =>
      simp only [mapErrorRecord, errorFields, ErrorSource.snakeCase, optionSize_none,
        optionSize_map]
  | _ =>
      simp only [mapErrorRecord, errorFields, ErrorSource.snakeCase, optionSize_none,
        optionSize_some]

theorem length_cbor_mapUsage (usage : TokenUsage) :
    (mapUsage usage).cbor.length = usageBytes usage := UsageSummary.length_cbor _

theorem length_cbor_mapTransitionEvent (transition : TaskTransition) :
    (mapTransitionEvent errorId transition).cbor.length = transitionBytes transition := by
  have hzero : UsageSummary.zero.cbor.length = 62 := by
    rw [UsageSummary.length_cbor]
    decide
  have hnone : arraySize [] = 1 := by decide
  rw [TaskEvent.length_cbor, transitionBytes]
  simp only [mapTransitionEvent, optionSize_map, optionSize_none, length_cbor_mapErrorRecord,
    hzero, hnone, List.map_nil, transitionErrorBytes, Option.isSome_none]

theorem length_cbor_buildAttemptRecord (c : Contents) (attempt : AttemptSummary) :
    (buildAttemptRecord errorId c attempt).cbor.length = attemptBytes c attempt := by
  rw [AttemptRecord.length_cbor, attemptBytes]
  simp only [buildAttemptRecord, optionSize_map, length_cbor_mapErrorRecord, length_cbor_mapUsage,
    attemptErrorBytes, Option.isSome_some]

theorem length_cbor_mapGapRecord (gap : CaptureGapSummary) :
    (mapGapRecord gap).cbor.length = gapBytes gap := by
  rw [CaptureGapRecord.length_cbor, gapBytes]
  simp only [mapGapRecord, optionSize_map, FlowDirection.snakeCase]

theorem length_cbor_buildHeartbeat (client : ClientInstance) (heartbeat : HeartbeatSummary) :
    (buildHeartbeat errorId client heartbeat).cbor.length = heartbeatBytes client heartbeat := by
  have hzero : headSize 0 = 1 := rfl
  rw [Heartbeat.length_cbor, heartbeatBytes]
  simp only [buildHeartbeat, optionSize_some, hzero]

theorem length_cbor_snapshot (row : TaskRow) :
    (row.snapshot errorId taskRef).cbor.length = rowBytes taskRef row := by
  rw [TaskSnapshot.length_cbor, rowBytes]
  simp only [TaskRow.snapshot, TaskIdentity.length_cbor, CodexTaskMetadata.length_cbor,
    optionSize_map, length_cbor_mapErrorRecord, length_cbor_mapUsage, Option.isSome_none]

end Records

/-! ## One upload -/

def builtAttempt (t : Tick) (s : Store) (chunk : ℕ) (record : SummaryRecord × ℕ) :
    Option AttemptRecord :=
  match record.1 with
  | .attempt attempt =>
      some (buildAttemptRecord (t.ids (.record chunk record.2)) s.contents attempt)
  | _ => none

def builtGap (record : SummaryRecord × ℕ) : Option CaptureGapRecord :=
  match record.1 with
  | .captureGap gap => some (mapGapRecord gap)
  | _ => none

/-- The error of an event or attempt. -/
def builtError (t : Tick) (s : Store) (chunk : ℕ) (record : SummaryRecord × ℕ) :
    Option ErrorRecord :=
  match record.1 with
  | .taskTransition transition =>
      (mapTransitionEvent (t.ids (.record chunk record.2)) transition).error
  | .attempt attempt =>
      (buildAttemptRecord (t.ids (.record chunk record.2)) s.contents attempt).error
  | _ => none

/-- The identifiers that one batch draws for its records differ. -/
def Tick.Distinct (t : Tick) : Prop :=
  ∀ chunk, ∀ i < 128, ∀ j < 128, t.ids (.record chunk i) = t.ids (.record chunk j) → i = j

theorem dedupeErrors_of_nodup {errors : List ErrorRecord}
    (h : (errors.map ErrorRecord.errorId).Nodup) : dedupeErrors errors = errors := by
  have hfold : ∀ (l kept : List ErrorRecord), ((kept ++ l).map ErrorRecord.errorId).Nodup →
      l.foldl (fun kept error => if error.errorId ∈ kept.map ErrorRecord.errorId then kept
        else kept ++ [error]) kept = kept ++ l := by
    intro l
    induction l with
    | nil => simp
    | cons error l ih =>
        intro kept hnodup
        have hnew : error.errorId ∉ kept.map ErrorRecord.errorId := by
          intro hmem
          rw [List.map_append, List.nodup_append'] at hnodup
          exact hnodup.2.2 hmem (List.mem_map_of_mem List.mem_cons_self)
        rw [List.foldl_cons, if_neg hnew, ih, List.append_assoc, List.singleton_append]
        rwa [List.append_assoc, List.singleton_append]
  exact hfold errors [] h

/-- The sizes of what numbered records add, when the numbers have no part in them. -/
theorem sizes_zipIdx {α β γ : Type} {p : α × ℕ → Bool} {f : α × ℕ → Option β} {size : β → γ}
    {g : α → Option γ} (h : ∀ a n, (if p (a, n) then (f (a, n)).map size else none) = g a)
    (l : List α) (n : ℕ) : (((l.zipIdx n).filter p).filterMap f).map size = l.filterMap g := by
  induction l generalizing n with
  | nil => rfl
  | cons a l ih =>
      have ha := h a n
      rw [List.zipIdx_cons, List.filter_cons, List.filterMap_cons, ← ih (n + 1), ← ha]
      split
      · rw [List.filterMap_cons]
        cases f (a, n) <;> rfl
      · rfl

section Upload
variable {client : ClientInstance} {t : Tick} {s : Store} {chunk : ℕ}
  {records : List SummaryRecord} {taskRef : String}

theorem accumulatorOf_eq (records : List SummaryRecord) :
    accumulatorOf t s chunk records taskRef =
      let named := records.zipIdx.filter fun r => r.1.uploadTask = some taskRef
      ⟨named.filterMap (builtAttempt t s chunk), named.filterMap (eventOf t chunk),
        named.filterMap (builtError t s chunk), named.filterMap builtGap⟩ := by
  have hfold : ∀ (l : List (SummaryRecord × ℕ)) (acc : TaskAccumulator),
      l.foldl (accumulate t s chunk) acc =
        ⟨acc.attempts ++ l.filterMap (builtAttempt t s chunk),
          acc.events ++ l.filterMap (eventOf t chunk),
          acc.errors ++ l.filterMap (builtError t s chunk), acc.gaps ++ l.filterMap builtGap⟩ := by
    intro l
    induction l with
    | nil => simp
    | cons record l ih =>
        intro acc
        obtain ⟨record, index⟩ := record
        rw [List.foldl_cons, ih]
        cases record with
        | taskTransition transition =>
            simp only [accumulate, builtAttempt, eventOf, builtError, builtGap,
              List.filterMap_cons, List.append_assoc, List.singleton_append]
            cases (mapTransitionEvent (t.ids (.record chunk index)) transition).error <;> rfl
        | attempt attempt =>
            simp only [accumulate, builtAttempt, eventOf, builtError, builtGap,
              List.filterMap_cons, List.append_assoc, List.singleton_append]
            cases (buildAttemptRecord (t.ids (.record chunk index)) s.contents attempt).error <;>
              rfl
        | _ => simp [accumulate, builtAttempt, eventOf, builtError, builtGap, List.filterMap_cons]
  rw [accumulatorOf, hfold]
  simp only [List.nil_append]

/-- The errors of one batch have different identifiers. -/
theorem nodup_errors (ht : t.Distinct) (hlength : records.length ≤ 128) :
    (((records.zipIdx.filter fun r => r.1.uploadTask = some taskRef).filterMap
      (builtError t s chunk)).map ErrorRecord.errorId).Nodup := by
  have hid : ∀ (r : SummaryRecord × ℕ) (error : ErrorRecord),
      builtError t s chunk r = some error → error.errorId = t.ids (.record chunk r.2) := by
    rintro ⟨record, index⟩ error herror
    cases record with
    | taskTransition transition =>
        obtain ⟨inner, -, rfl⟩ := Option.map_eq_some_iff.mp herror
        exact mapErrorRecord_errorId
    | attempt attempt =>
        obtain ⟨inner, -, rfl⟩ := Option.map_eq_some_iff.mp herror
        exact mapErrorRecord_errorId
    | _ => cases herror
  have hsorted : records.zipIdx.Pairwise fun r r' => r.2 ≠ r'.2 := by
    rw [← List.pairwise_map (f := Prod.snd) (R := (· ≠ ·)), List.zipIdx_map_snd]
    exact List.nodup_range'
  rw [List.Nodup, List.pairwise_map, List.pairwise_filterMap]
  refine ((hsorted.filter _).imp_of_mem ?_)
  intro r r' hr hr' hne error herror error' herror' heq
  rw [hid r error herror, hid r' error' herror'] at heq
  have hlt : r.2 < 128 := (List.snd_lt_of_mem_zipIdx (List.mem_of_mem_filter hr)).trans_le hlength
  have hlt' : r'.2 < 128 :=
    (List.snd_lt_of_mem_zipIdx (List.mem_of_mem_filter hr')).trans_le hlength
  exact hne (ht chunk r.2 hlt r'.2 hlt' heq)

/-- The records that name the task, with their places in the chunk. -/
def namedRecords (taskRef : String) (records : List SummaryRecord) : List (SummaryRecord × ℕ) :=
  records.zipIdx.filter fun r => r.1.uploadTask = some taskRef

theorem sizes_attempts (t : Tick) (chunk : ℕ) :
    ((namedRecords taskRef records).filterMap (builtAttempt t s chunk)).map
    (fun a => a.cbor.length) = records.filterMap (recordAttempt s taskRef) := by
  refine sizes_zipIdx (fun record n => ?_) records 0
  cases record <;> simp [SummaryRecord.uploadTask, builtAttempt, recordAttempt,
    length_cbor_buildAttemptRecord]

theorem sizes_events (t : Tick) (chunk : ℕ) :
    ((namedRecords taskRef records).filterMap (eventOf t chunk)).map
    (fun e => e.cbor.length) = records.filterMap (recordEvent taskRef) := by
  refine sizes_zipIdx (fun record n => ?_) records 0
  cases record <;> simp [SummaryRecord.uploadTask, eventOf, recordEvent,
    length_cbor_mapTransitionEvent]

theorem sizes_gaps : ((namedRecords taskRef records).filterMap builtGap).map
    (fun g => g.cbor.length) = records.filterMap (recordGap taskRef) := by
  refine sizes_zipIdx (fun record n => ?_) records 0
  cases record <;> simp [SummaryRecord.uploadTask, builtGap, recordGap, length_cbor_mapGapRecord]

theorem sizes_errors (t : Tick) (chunk : ℕ) :
    ((namedRecords taskRef records).filterMap (builtError t s chunk)).map
    (fun e => e.cbor.length) = records.filterMap (recordError taskRef) := by
  refine sizes_zipIdx (fun record n => ?_) records 0
  cases record with
  | taskTransition transition =>
      simp only [SummaryRecord.uploadTask, builtError, recordError, mapTransitionEvent,
        Option.map_map, Option.some.injEq, decide_eq_true_eq]
      congr 2
      funext error
      exact length_cbor_mapErrorRecord ..
  | attempt attempt =>
      simp only [SummaryRecord.uploadTask, builtError, recordError, buildAttemptRecord,
        Option.map_map, Option.some.injEq, decide_eq_true_eq]
      congr 2
      funext error
      exact length_cbor_mapErrorRecord ..
  | _ => simp [SummaryRecord.uploadTask, builtError, recordError]

theorem length_cbor_buildUpload (ht : t.Distinct) (hlength : records.length ≤ 128) :
    (buildUpload t s chunk records taskRef).map (fun upload => upload.cbor.length) =
      (s.activeTasks.get? taskRef).map (uploadBytes s taskRef records) := by
  cases hrow : s.activeTasks.get? taskRef with
  | none => simp [buildUpload, loadSnapshot, hrow]
  | some row =>
      simp only [buildUpload, loadSnapshot, hrow, Option.map_some, Option.bind_eq_bind,
        Option.bind_some, Option.some.injEq]
      rw [TaskUpload.length_cbor, uploadBytes, length_cbor_snapshot, accumulatorOf_eq,
        dedupeErrors_of_nodup (nodup_errors ht hlength), ← sizes_attempts t chunk,
        ← sizes_events t chunk, ← sizes_errors t chunk, ← sizes_gaps]
      rfl

end Upload

/-! ## Batches -/

section Batches
variable {client : ClientInstance} {codec : Codec} {t : Tick} {s : Store}
  {records : List SummaryRecord}

theorem sizes_heartbeats (chunk : ℕ) :
    (buildWireBatch client t s chunk records).heartbeats.map (fun h => h.cbor.length) =
      records.filterMap (recordHeartbeat client) := by
  have hall : (records.zipIdx.filter fun _ => true) = records.zipIdx := List.filter_true _
  rw [buildWireBatch, ← hall]
  refine sizes_zipIdx (fun record n => ?_) records 0
  cases record <;> simp [recordHeartbeat, length_cbor_buildHeartbeat]

/-- The parts make up the batch. -/
theorem length_cbor_buildWireBatch (ht : t.Distinct) (chunk : ℕ) (hlength : records.length ≤ 128) :
    (buildWireBatch client t s chunk records).cbor.length = chunkBytes client t s records := by
  have htasks : (buildWireBatch client t s chunk records).tasks.map (fun u => u.cbor.length) =
      (uploadTasks records).filterMap fun taskRef =>
        (s.activeTasks.get? taskRef).map (uploadBytes s taskRef records) := by
    rw [buildWireBatch, List.map_filterMap]
    refine List.filterMap_congr fun taskRef _ => ?_
    exact length_cbor_buildUpload ht hlength
  rw [IngestBatch.length_cbor, htasks, sizes_heartbeats, ClientInstance.length_cbor, chunkBytes]
  rfl

theorem length_uploadTasks_le (records : List SummaryRecord) :
    (uploadTasks records).length ≤ records.length := by
  rw [uploadTasks, (List.perm_insertionSort _ _).length_eq]
  exact (List.dedup_sublist _).length_le.trans (List.length_filterMap_le _ _)

/-- The batch is within the limits of the protocol, so that its size is no reason to refuse it. -/
structure FitsWire (codec : Codec) (batch : IngestBatch) : Prop where
  tasks : batch.tasks.length ≤ MAX_BATCH_TASKS
  heartbeats : batch.heartbeats.length ≤ MAX_BATCH_HEARTBEATS
  encoding : (codec.intoWriter batch).length ≤ MAX_DECOMPRESSED_BATCH_BYTES
  accepted : codec.encodeBatch batch ≠ .error .payloadTooLarge

/-- The batches that are built from the records are within the limits. -/
def BatchesFit (client : ClientInstance) (codec : Codec) (t : Tick) (s : Store)
    (records : List SummaryRecord) : Prop :=
  ∀ chunk ∈ (splitRecords records).zipIdx,
    FitsWire codec (buildWireBatch client t s chunk.2 chunk.1)

theorem fitsWire_of_length {batch : IngestBatch} (htasks : batch.tasks.length ≤ MAX_BATCH_TASKS)
    (hheartbeats : batch.heartbeats.length ≤ MAX_BATCH_HEARTBEATS)
    (h : (codec.intoWriter batch).length ≤ MAX_DECOMPRESSED_BATCH_BYTES) :
    FitsWire codec batch := by
  refine ⟨htasks, hheartbeats, h, fun herror => ?_⟩
  rw [Codec.encodeBatch] at herror
  cases hvalid : batch.validate with
  | error error =>
      rw [hvalid] at herror
      cases herror
  | ok =>
      rw [hvalid] at herror
      simp only [Check.ensure, if_pos h] at herror
      cases herror

theorem length_le_of_mem_splitRecords {chunk : List SummaryRecord}
    (h : chunk ∈ splitRecords records) : chunk.length ≤ 128 := by
  obtain ⟨i, -, rfl⟩ := List.mem_map.mp h
  exact Chunks.length_piece_le 128 records i

end Batches

/-! ## A moment and a codec -/

theorem uuid_v7_injective : Function.Injective Uuid.v7 := by
  intro m n h
  have hbits : (0x7000#64 ++ m) = (0x7000#64 ++ n) := congrArg Uuid.bits h
  have hvalue := congrArg BitVec.toNat hbits
  rw [BitVec.toNat_append, BitVec.toNat_append, ← Nat.shiftLeft_add_eq_or_of_lt m.isLt,
    ← Nat.shiftLeft_add_eq_or_of_lt n.isLt] at hvalue
  exact BitVec.eq_of_toNat_eq (Nat.add_left_cancel hvalue)

/-- A moment whose records draw their own places. -/
def placeTick : Tick where
  now := 0
  terminalNow := 0
  ids
    | .record _ index => .v7 (.ofNat 64 index)
    | _ => .v7 0

theorem distinct_placeTick : placeTick.Distinct := by
  intro chunk i hi j hj h
  have hplaces : BitVec.ofNat 64 i = BitVec.ofNat 64 j := uuid_v7_injective h
  have hvalues := congrArg BitVec.toNat hplaces
  rwa [BitVec.toNat_ofNat, BitVec.toNat_ofNat, Nat.mod_eq_of_lt (hi.trans (by decide)),
    Nat.mod_eq_of_lt (hj.trans (by decide))] at hvalues

/-- The libraries of the wire, with uncompressed frames. -/
def cborCodec : Codec := .writing []

theorem writesCbor_cborCodec : cborCodec.WritesCbor := Codec.writesCbor_writing _

/-- A step of the turn `s:t:u`, after a response that failed with the message. -/
def failedStep (message : String) (n : ℕ) : TaskTransition where
  eventId := .v7 (.ofNat 64 n)
  task := ⟨"a", "codex", "s", "t", "u"⟩
  sequence := n + 1
  observedAt := 0
  phase := .retrying
  outcome := none
  cause := .retryScheduled
  completeness := .complete
  error := some (.provider ⟨"response.failed", none, message, none⟩)

/-! ## When batches fit -/

section Fits
variable {client : ClientInstance} {codec : Codec} {t : Tick} {s : Store}
  {records : List SummaryRecord}

/-- The batches built from the records fit when the parts of each come to 2 MiB at most. -/
theorem batchesFit_iff (hcbor : codec.WritesCbor) (ht : t.Distinct) :
    BatchesFit client codec t s records ↔ ∀ chunk ∈ splitRecords records,
      chunkBytes client t s chunk ≤ MAX_DECOMPRESSED_BATCH_BYTES := by
  constructor
  · intro h chunk hchunk
    obtain ⟨i, hi⟩ := List.getElem?_of_mem hchunk
    have hfits := h (chunk, i) (List.mem_zipIdx_iff_getElem?.mpr hi)
    have hlength := hfits.encoding
    rwa [hcbor, length_cbor_buildWireBatch ht i (length_le_of_mem_splitRecords hchunk)] at hlength
  · rintro h ⟨chunk, i⟩ hmem
    have hchunk : chunk ∈ splitRecords records :=
      List.mem_of_getElem? (List.mem_zipIdx_iff_getElem?.mp hmem)
    have hlength := length_le_of_mem_splitRecords hchunk
    have hmax : 128 ≤ MAX_BATCH_TASKS := by decide
    have hmax' : 128 ≤ MAX_BATCH_HEARTBEATS := by decide
    refine fitsWire_of_length ?_ ?_ ?_
    · have htasks := List.length_filterMap_le (buildUpload t s i chunk) (uploadTasks chunk)
      exact htasks.trans ((length_uploadTasks_le chunk).trans (hlength.trans hmax))
    · have hheartbeats := List.length_filterMap_le (recordHeartbeat client) chunk
      rw [← sizes_heartbeats (t := t) (s := s) i, List.length_map] at hheartbeats
      exact hheartbeats.trans (hlength.trans hmax')
    · rw [hcbor, length_cbor_buildWireBatch ht i hlength]
      exact h chunk hchunk

end Fits

def timeoutRecords : List SummaryRecord := [.taskTransition (failedStep "timeout" 0)]

theorem batchesFit_timeoutRecords : BatchesFit sampleClient cborCodec placeTick
    (writtenStore cborCodec .empty timeoutRecords []) timeoutRecords :=
  (batchesFit_iff writesCbor_cborCodec distinct_placeTick).mpr (by decide)

/-! ## Long errors -/

section Long
variable {client : ClientInstance} {t : Tick} {s : Store} {records : List SummaryRecord}
  {taskRef : String} {row : TaskRow}

theorem le_chunkBytes (h : taskRef ∈ uploadTasks records)
    (hrow : s.activeTasks.get? taskRef = some row) :
    uploadBytes s taskRef records row ≤ chunkBytes client t s records := by
  have hmem : uploadBytes s taskRef records row ∈ (uploadTasks records).filterMap fun taskRef =>
      (s.activeTasks.get? taskRef).map (uploadBytes s taskRef records) :=
    List.mem_filterMap.mpr ⟨taskRef, h, by rw [hrow, Option.map_some]⟩
  have hsum := List.le_sum_of_mem hmem
  simp only [chunkBytes, arraySize, List.sum_cons]
  omega

theorem activeTasks_writtenStore {codec : Codec} {contents : List StoredContentInput} :
    (writtenStore codec s records contents).activeTasks =
      (applyRecords s (records.map (normalizeRecord codec))).2.activeTasks := rfl

theorem tasks_ne_nil (h : taskRef ∈ uploadTasks records)
    (hrow : s.activeTasks.get? taskRef = some row) {chunk : ℕ} :
    (buildWireBatch client t s chunk records).tasks ≠ [] := by
  have hbuilt : (buildUpload t s chunk records taskRef).isSome := by
    simp [buildUpload, loadSnapshot, hrow]
  obtain ⟨upload, hupload⟩ := Option.isSome_iff_exists.mp hbuilt
  exact List.ne_nil_of_mem (List.mem_filterMap.mpr ⟨taskRef, h, hupload⟩)

/-- One batch that is too large undoes the whole transaction. -/
theorem persistIngress_of_large {codec : Codec} (hcbor : codec.WritesCbor) (ht : t.Distinct)
    {contents : List StoredContentInput} {chunk : List SummaryRecord}
    (hchunk : chunk ∈ splitRecords (applyRecords s (records.map (normalizeRecord codec))).1)
    (h : taskRef ∈ uploadTasks chunk)
    (hrow : (writtenStore codec s records contents).activeTasks.get? taskRef = some row)
    (hlarge : MAX_DECOMPRESSED_BATCH_BYTES <
      chunkBytes client t (writtenStore codec s records contents) chunk) :
    (persistIngress client codec t s records contents).1 = none := by
  rcases persistIngress_cases client codec t s records contents with
    ⟨hnone, -⟩ | ⟨inserted, outbox, henqueue, -⟩
  · exact hnone
  · obtain ⟨i, hi⟩ := List.getElem?_of_mem hchunk
    have hbatch : buildWireBatch client t (writtenStore codec s records contents) i chunk ∈
        wireBatches client t (writtenStore codec s records contents)
          (applyRecords s (records.map (normalizeRecord codec))).1 :=
      List.mem_map.mpr ⟨(chunk, i), List.mem_zipIdx_iff_getElem?.mpr hi, rfl⟩
    obtain ⟨encoded, -, hencode, -⟩ :=
      holds_enqueueRecords henqueue hbatch (tasks_ne_nil h hrow)
    have hlength := (Codec.encodeBatch_eq_ok_iff.mp hencode).2.1
    rw [hcbor, length_cbor_buildWireBatch ht i (length_le_of_mem_splitRecords hchunk)] at hlength
    omega

/-- The message of a provider is in its error record. -/
theorem le_errorBytes (ofAttempt : Bool) (occurredAtMs : ℤ) (kind : Option TaskEventKind)
    (inner : ProviderError) : inner.message.utf8ByteSize ≤
      errorBytes taskRef ofAttempt occurredAtMs kind (.provider inner) := by
  have hfield : textSize inner.message ∈ errorFields kind (.provider inner) := by
    simp [errorFields]
  have hmessage := (utf8ByteSize_le_textSize inner.message).trans (List.le_sum_of_mem hfield)
  simp only [errorBytes, List.sum_cons]
  omega

/-- The message is in the event, whose error record comes once more among those of the task. -/
theorem le_transitionBytes {transition : TaskTransition} {inner : ProviderError}
    (h : transition.error = some (.provider inner)) :
    inner.message.utf8ByteSize ≤ transitionBytes transition := by
  have herror : inner.message.utf8ByteSize ≤
      optionSize (transitionErrorBytes transition) transition.error := by
    rw [h, optionSize_some]
    exact le_errorBytes ..
  rw [transitionBytes]
  exact (herror.trans (List.le_sum_of_mem (by simp))).trans (Nat.le_add_left _ _)

/-- A list of steps of one task, each of which failed with a message of at least `n` bytes. -/
def FailsWith (taskRef : String) (n : ℕ) (transitions : List TaskTransition) : Prop :=
  ∀ transition ∈ transitions, transition.task.taskRef = taskRef ∧
    ∃ inner, transition.error = some (.provider inner) ∧ n ≤ inner.message.utf8ByteSize

variable {transitions : List TaskTransition} {n : ℕ}

theorem length_mul_le_sum {size : TaskTransition → ℕ}
    (h : ∀ transition ∈ transitions, n ≤ size transition) :
    transitions.length * n ≤ (transitions.map size).sum := by
  have hsum := List.card_nsmul_le_sum (transitions.map size) n
    (List.forall_mem_map.mpr h)
  rwa [List.length_map, smul_eq_mul] at hsum

/-- Each message is in the upload twice. -/
theorem FailsWith.le_uploadBytes (h : FailsWith taskRef n transitions) :
    2 * (transitions.length * n) ≤
      uploadBytes s taskRef (transitions.map .taskTransition) row := by
  have hevents : (transitions.map SummaryRecord.taskTransition).filterMap (recordEvent taskRef) =
      transitions.map transitionBytes := by
    rw [List.filterMap_map, ← List.filterMap_eq_map]
    refine List.filterMap_congr fun transition hmem => ?_
    simp only [Function.comp_apply, recordEvent, (h transition hmem).1, if_true]
  have herrors : (transitions.map SummaryRecord.taskTransition).filterMap (recordError taskRef) =
      transitions.map fun transition =>
        optionSize (transitionErrorBytes transition) transition.error := by
    rw [List.filterMap_map, ← List.filterMap_eq_map]
    refine List.filterMap_congr fun transition hmem => ?_
    obtain ⟨htask, inner, herror, -⟩ := h transition hmem
    simp only [Function.comp_apply, recordError, htask, if_true, herror, Option.map_some,
      optionSize_some]
  have hevent : transitions.length * n ≤ (transitions.map transitionBytes).sum := by
    refine length_mul_le_sum fun transition hmem => ?_
    obtain ⟨-, inner, herror, hn⟩ := h transition hmem
    exact hn.trans (le_transitionBytes herror)
  have herror : transitions.length * n ≤ (transitions.map fun transition =>
      optionSize (transitionErrorBytes transition) transition.error).sum := by
    refine length_mul_le_sum fun transition hmem => ?_
    obtain ⟨-, inner, herror, hn⟩ := h transition hmem
    rw [herror, optionSize_some]
    exact hn.trans (le_errorBytes ..)
  simp only [uploadBytes, hevents, herrors, arraySize, List.sum_cons]
  omega

/-- Steps are accepted, and leave a row of their task. -/
theorem FailsWith.applyRecords (h : FailsWith taskRef n transitions) (hne : transitions ≠ []) :
    (applyRecords s (transitions.map .taskTransition)).1 = transitions.map .taskTransition ∧
      ((applyRecords s (transitions.map .taskTransition)).2.activeTasks.get? taskRef).isSome := by
  induction transitions generalizing s with
  | nil => exact absurd rfl hne
  | cons transition transitions ih =>
      obtain ⟨htask, -⟩ := h transition List.mem_cons_self
      have hrow : ((upsertTransition s transition).activeTasks.get? taskRef).isSome := by
        rw [upsertTransition, htask]
        split
        next hskip => exact Option.isSome_of_any hskip
        next => simp
      rcases List.eq_nil_or_concat transitions with rfl | ⟨front, last, rfl⟩
      · exact ⟨rfl, hrow⟩
      · have hrest := ih (s := upsertTransition s transition)
          (fun other hother => h other (List.mem_cons_of_mem _ hother)) (by simp)
        simp only [List.map_cons, Client.applyRecords, applyRecord, if_true]
        exact ⟨congrArg _ hrest.1, hrest.2⟩

theorem FailsWith.mem_uploadTasks (h : FailsWith taskRef n transitions) (hne : transitions ≠ []) :
    taskRef ∈ uploadTasks (transitions.map .taskTransition) := by
  obtain ⟨transition, hmem⟩ := List.exists_mem_of_ne_nil _ hne
  rw [uploadTasks, List.mem_insertionSort, List.mem_dedup, List.mem_filterMap]
  exact ⟨.taskTransition transition, List.mem_map_of_mem hmem,
    congrArg some (h transition hmem).1⟩

end Long

/-- A message that is as long as `normalize_record` lets it be. -/
def longMessage : String := String.ofList (List.replicate MAX_TRUNCATED 'x')

theorem utf8ByteSize_longMessage : longMessage.utf8ByteSize = MAX_TRUNCATED := by
  have hchar : Char.utf8Size 'x' = 1 := by decide
  rw [longMessage, Text.utf8ByteSize_ofList, List.map_replicate, hchar, List.sum_replicate,
    smul_eq_mul, mul_one]

def longTransitions : List TaskTransition := (List.range 33).map (failedStep longMessage)

def longRecords : List SummaryRecord := longTransitions.map .taskTransition

theorem failsWith_longTransitions : FailsWith "s:t:u" MAX_TRUNCATED longTransitions := by
  intro transition hmem
  obtain ⟨n, -, rfl⟩ := List.mem_map.mp hmem
  have htask : TaskKey.taskRef ⟨"a", "codex", "s", "t", "u"⟩ = "s:t:u" := by decide
  exact ⟨htask, ⟨"response.failed", none, longMessage, none⟩, rfl,
    utf8ByteSize_longMessage.ge⟩

theorem normalizeRecord_longRecords (codec : Codec) :
    longRecords.map (normalizeRecord codec) = longRecords := by
  have hkept : truncateMessage codec longMessage = longMessage := by
    rw [truncateMessage, if_pos utf8ByteSize_longMessage.le]
  refine (List.map_congr_left fun record hmem => ?_).trans (List.map_id' longRecords)
  obtain ⟨transition, htransition, rfl⟩ := List.mem_map.mp hmem
  obtain ⟨n, -, rfl⟩ := List.mem_map.mp htransition
  simp only [failedStep, normalizeRecord, Option.map_some, normalizeError, hkept]

/-- The messages do not fit one batch, and the transaction is rolled back. -/
theorem not_batchesFit_longRecords :
    ¬ BatchesFit sampleClient cborCodec placeTick (writtenStore cborCodec .empty longRecords [])
        (applyRecords .empty (longRecords.map (normalizeRecord cborCodec))).1 ∧
      (persistIngress sampleClient cborCodec placeTick .empty longRecords []).1 = none := by
  have hlength : longTransitions.length = 33 := by
    rw [longTransitions, List.length_map, List.length_range]
  have hrecords : longRecords.length = 33 := by rw [longRecords, List.length_map, hlength]
  have hne : longTransitions ≠ [] := List.ne_nil_of_length_eq_add_one hlength
  obtain ⟨haccepted, hrow⟩ := failsWith_longTransitions.applyRecords (s := .empty) hne
  rw [← longRecords] at haccepted hrow
  obtain ⟨row, hrow⟩ := Option.isSome_iff_exists.mp hrow
  have hsplit : splitRecords longRecords = [longRecords] :=
    Chunks.chunks_of_length_le (List.ne_nil_of_length_eq_add_one hrecords) (by omega)
  have hbatches : splitRecords
      (applyRecords .empty (longRecords.map (normalizeRecord cborCodec))).1 = [longRecords] := by
    rw [normalizeRecord_longRecords, haccepted, hsplit]
  have hstore : (writtenStore cborCodec .empty longRecords []).activeTasks.get? "s:t:u" =
      some row := by
    rw [activeTasks_writtenStore, normalizeRecord_longRecords, hrow]
  have hlarge : MAX_DECOMPRESSED_BATCH_BYTES < chunkBytes sampleClient placeTick
      (writtenStore cborCodec .empty longRecords []) longRecords := by
    have hmessages : MAX_DECOMPRESSED_BATCH_BYTES <
        2 * (longTransitions.length * MAX_TRUNCATED) := by
      rw [hlength]
      decide
    exact hmessages.trans_le (failsWith_longTransitions.le_uploadBytes.trans
      (le_chunkBytes (failsWith_longTransitions.mem_uploadTasks hne) hstore))
  constructor
  · intro h
    rw [BatchesFit, hbatches] at h
    have hfits := (h (longRecords, 0) (by simp)).encoding
    rw [writesCbor_cborCodec,
      length_cbor_buildWireBatch distinct_placeTick 0 (hrecords.trans_le (by decide))] at hfits
    exact hlarge.not_ge hfits
  · refine persistIngress_of_large writesCbor_cborCodec distinct_placeTick ?_
      (failsWith_longTransitions.mem_uploadTasks hne) hstore hlarge
    rw [hbatches]
    exact List.mem_singleton_self _

end Codexwatch.Client
