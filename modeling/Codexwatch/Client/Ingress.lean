import Mathlib.Data.List.Sort
import Mathlib.Data.String.Basic
import Codexwatch.Client.Store
import Codexwatch.Client.Wire
import Codexwatch.Lib.Chunks

/-!
# Persisting captured records

`persist_ingress` of `client/src/store.rs`: in one transaction the records are
applied, the contents are stored, and the accepted records become batches in the
outbox. When anything fails the tables are rolled back; a content file that was
already written stays.

The clock and the fresh UUIDs of one call are in a `Tick`.

## Main definitions

* `Draw`, `Tick` — what a call takes from outside.
* `buildWireBatch` — the batch of up to 128 records.
* `persistIngress` — the transaction.
-/
namespace Codexwatch.Client

open Protocol Relational

/-- The uses of `Uuid::now_v7()`, in one input of the capture lane. -/
inductive Draw
  | flow
  /-- The attempt of the exchange with this number. -/
  | attempt (index : ℕ)
  /-- The gap, or the exchange record, of the projection with this number. -/
  | item (index : ℕ)
  /-- `last_event_id` of the projection with this number. -/
  | event (index : ℕ)
  | batch (chunk : ℕ)
  /-- The error or heartbeat of a record in a chunk. -/
  | record (chunk index : ℕ)
  /-- The error of a task's snapshot. -/
  | snapshot (chunk : ℕ) (taskRef : String)
  deriving DecidableEq

/-- The clock and the UUIDs of one input. `project_exchange` reads the clock once more for
`terminal_at`. -/
structure Tick where
  now : OffsetDateTime
  terminalNow : OffsetDateTime
  ids : Draw → Uuid

/-- `now_ms()` -/
def Tick.nowMs (t : Tick) : ℤ := ts t.now

/-! ## Wire records -/

/-- The transport name of captured attempts. -/
def RESPONSES_TRANSPORT : String := "responses"

def buildAttemptRecord (errorId : Uuid) (c : Contents) (attempt : AttemptSummary) :
    AttemptRecord where
  attemptId := attempt.attemptId
  taskRef := attempt.task.taskRef
  ordinal := attempt.ordinal
  responseId := attempt.responseId
  transport := RESPONSES_TRANSPORT
  status := mapAttemptStatus attempt.status
  httpStatus := extractHttpStatus attempt.error
  model := attempt.model
  toolNames := attempt.toolNames
  usage := mapUsage attempt.usage
  error := attempt.error.map fun error =>
    mapErrorRecord errorId attempt.task.taskRef (some attempt.attemptId)
      (ts (attempt.finishedAt.getD attempt.startedAt)) error none
  requestObjectSha256 := (newestObject c attempt.task.taskRef .request).map Prod.fst
  responseObjectSha256 := (newestObject c attempt.task.taskRef .response).map Prod.fst
  startedAtMs := ts attempt.startedAt
  endedAtMs := attempt.finishedAt.map ts
  awaitingTool := false

def isCaptureLost : Option StructuredError → Bool
  | some (.captureLost _) => true
  | _ => false

def captureHealth (health : CaptureHealth) : IntegrityState :=
  if !health.profileSupported then .unsupportedBuild
  else if health.ringBufferDrops > 0 || isCaptureLost health.lastError then .degraded
  else .complete

def buildHeartbeat (heartbeatId : Uuid) (client : ClientInstance) (heartbeat : HeartbeatSummary) :
    Heartbeat where
  heartbeatId := heartbeatId
  clientId := client.clientId
  instanceId := heartbeat.clientInstanceId
  observedAtMs := ts heartbeat.observedAt
  queueDepth := 0
  activeTaskCount := 0
  captureHealth := captureHealth heartbeat.health
  note := some heartbeat.clientVersion

def TaskRow.snapshot (row : TaskRow) (errorId : Uuid) (taskRef : String) : TaskSnapshot where
  taskRef := taskRef
  identity := ⟨row.task.provider, row.task.sessionId, row.task.threadId, row.task.turnId⟩
  codex := ⟨"turn", row.parentTurnId, row.rootTurnId⟩
  conversationTitle := row.conversationTitle
  sequence := row.sequence
  phase := mapPhase row.phase
  terminal := row.outcome.map mapOutcome
  integrity := mapIntegrity row.completeness
  model := row.model
  attemptCount := row.attemptCount
  toolNames := row.toolNames
  responseIds := row.responseIds
  usage := mapUsage row.usage
  startedAtMs := row.startedAt
  updatedAtMs := row.updatedAt
  completedAtMs := row.terminalAt
  lastError := row.lastError.map fun error =>
    mapErrorRecord errorId taskRef none row.updatedAt error none

def loadSnapshot (s : Store) (errorId : Uuid) (taskRef : String) : Option TaskSnapshot :=
  (s.activeTasks.get? taskRef).map fun row => row.snapshot errorId taskRef

/-! ## Batches -/

structure TaskAccumulator where
  attempts : List AttemptRecord
  events : List TaskEvent
  errors : List ErrorRecord
  gaps : List CaptureGapRecord

/-- The task in whose upload a record appears. -/
def SummaryRecord.uploadTask : SummaryRecord → Option String
  | .session record => some record.task.taskRef
  | .task summary => some summary.task.taskRef
  | .taskTransition transition => some transition.task.taskRef
  | .attempt summary => some summary.task.taskRef
  | .captureGap gap => gap.task.map TaskKey.taskRef
  | .heartbeat _ | .httpExchange _ | .process _ => none

def dedupeErrors (errors : List ErrorRecord) : List ErrorRecord :=
  errors.foldl (fun kept error =>
    if error.errorId ∈ kept.map ErrorRecord.errorId then kept else kept ++ [error]) []

section Batches
variable (client : ClientInstance) (codec : Codec) (t : Tick) (s : Store)

/-- What a record adds to the upload of its task. -/
def accumulate (chunk : ℕ) (acc : TaskAccumulator) (record : SummaryRecord × ℕ) :
    TaskAccumulator :=
  match record.1 with
  | .taskTransition transition =>
      let event := mapTransitionEvent (t.ids (.record chunk record.2)) transition
      { acc with errors := acc.errors ++ event.error.toList, events := acc.events ++ [event] }
  | .attempt attempt =>
      let built := buildAttemptRecord (t.ids (.record chunk record.2)) s.contents attempt
      { acc with
        errors := acc.errors ++ built.error.toList
        attempts := acc.attempts ++ [built] }
  | .captureGap gap => { acc with gaps := acc.gaps ++ [mapGapRecord gap] }
  | .session _ | .task _ | .heartbeat _ | .httpExchange _ | .process _ => acc

def accumulatorOf (chunk : ℕ) (records : List SummaryRecord) (taskRef : String) :
    TaskAccumulator :=
  (records.zipIdx.filter fun r => r.1.uploadTask = some taskRef).foldl (accumulate t s chunk)
    ⟨[], [], [], []⟩

def buildUpload (chunk : ℕ) (records : List SummaryRecord) (taskRef : String) :
    Option TaskUpload := do
  let snapshot ← loadSnapshot s (t.ids (.snapshot chunk taskRef)) taskRef
  let acc := accumulatorOf t s chunk records taskRef
  some ⟨snapshot, acc.attempts, acc.events, dedupeErrors acc.errors, acc.gaps⟩

/-- The `BTreeSet` of the tasks in the batch. -/
def uploadTasks (records : List SummaryRecord) : List String :=
  (records.filterMap SummaryRecord.uploadTask).dedup.insertionSort fun a b => a ≤ b

def buildWireBatch (chunk : ℕ) (records : List SummaryRecord) : IngestBatch where
  version := PROTOCOL_VERSION
  batchId := t.ids (.batch chunk)
  generatedAtMs := t.nowMs
  client := client
  tasks := (uploadTasks records).filterMap (buildUpload t s chunk records)
  heartbeats := records.zipIdx.filterMap fun r =>
    match r.1 with
    | .heartbeat heartbeat =>
        some (buildHeartbeat (t.ids (.record chunk r.2)) client heartbeat)
    | _ => none

/-- An upload shows the row of its task. -/
theorem row_of_mem_buildWireBatch {client : ClientInstance} {t : Tick} {s : Store} {chunk : ℕ}
    {records : List SummaryRecord} {upload : TaskUpload}
    (h : upload ∈ (buildWireBatch client t s chunk records).tasks) :
    ∃ row errorId, s.activeTasks.get? upload.snapshot.taskRef = some row ∧
      upload.snapshot = row.snapshot errorId upload.snapshot.taskRef := by
  obtain ⟨key, -, hbuild⟩ := List.mem_filterMap.mp h
  simp only [buildUpload, loadSnapshot, Option.bind_eq_bind, Option.bind_eq_some_iff,
    Option.map_eq_some_iff] at hbuild
  obtain ⟨snapshot, ⟨row, hrow, rfl⟩, hupload⟩ := hbuild
  cases hupload
  exact ⟨row, _, hrow, rfl⟩

/-! ## The outbox -/

def isPriorityRecord : SummaryRecord → Bool
  | .captureGap _ | .heartbeat _ => true
  | .task summary => summary.outcome.isSome || summary.lastError.isSome
  | .taskTransition transition => transition.phase = .terminal || transition.error.isSome
  | .attempt attempt => attempt.status ≠ .running
  | .process process => process.signal.isSome || process.exitCode.any fun code => code ≠ 0
  | .session _ | .httpExchange _ => false

def OUTBOX_HARD_CAP_BYTES : ℕ := 1024 * 1024 * 1024
def OUTBOX_PRIORITY_RESERVE_BYTES : ℕ := 64 * 1024 * 1024

/-- `SUM(LENGTH(body))` over the rows that meet `p`. -/
def outboxBytes (o : Outbox) (p : OutboxRow → Bool) : ℕ :=
  ((o.outbox.rows.filter fun r => p r.2).map fun r => r.2.body.length).sum

/-- Batches without priority leave the reserve free. -/
def ensureOutboxCapacity (o : Outbox) (nextBytes : ℕ) (priority : Bool) : Bool :=
  let totalBytes := outboxBytes o fun _ => true
  let priorityBytes := outboxBytes o OutboxRow.isPriority
  totalBytes + nextBytes ≤ OUTBOX_HARD_CAP_BYTES &&
    (priority || totalBytes - priorityBytes + nextBytes ≤
      OUTBOX_HARD_CAP_BYTES - OUTBOX_PRIORITY_RESERVE_BYTES)

/-- Enqueues the batch of one chunk, unless it is empty. -/
def enqueueChunk (priority : Bool) (inserted : ℕ × Outbox) (records : List SummaryRecord × ℕ) :
    Option (ℕ × Outbox) :=
  let batch := buildWireBatch client t s records.2 records.1
  if batch.tasks = [] ∧ batch.heartbeats = [] then some inserted
  else
    match codec.encodeBatch batch with
    | .error _ => none
    | .ok encoded =>
        if ensureOutboxCapacity inserted.2 encoded.bytes.length priority then
          (insertOutbox inserted.2 encoded (batch.tasks.length + batch.heartbeats.length) priority
            t.nowMs).map fun o => (inserted.1 + 1, o)
        else none

def splitRecords (records : List SummaryRecord) : List (List SummaryRecord) :=
  Chunks.chunks 128 records

def enqueueRecords (records : List SummaryRecord) : Option (ℕ × Outbox) :=
  (splitRecords records).zipIdx.foldlM (enqueueChunk client codec t s (records.any isPriorityRecord))
    (0, s.outbox)

end Batches

/-! ## The transaction -/

structure PersistOutcome where
  enqueuedBatches : ℕ
  storedContents : ℕ
  duplicateRecords : ℕ
  deriving DecidableEq

/-- Stores the contents in order, up to the first that is refused. -/
def storeContents (codec : Codec) (c : Contents) : List StoredContentInput → Bool × Contents
  | [] => (true, c)
  | input :: inputs =>
      match persistContent codec c input with
      | none => (false, c)
      | some (_, c') => storeContents codec c' inputs

/-- The store before the transaction, with the files written meanwhile. -/
def Store.rollback (s : Store) (files : BlobStore) : Store :=
  { s with contents := { s.contents with files } }

def persistIngress (client : ClientInstance) (codec : Codec) (t : Tick) (s : Store)
    (records : List SummaryRecord) (contents : List StoredContentInput) :
    Option PersistOutcome × Store :=
  let records := records.map (normalizeRecord codec)
  let (accepted, applied) := applyRecords s records
  let (stored, c) := storeContents codec applied.contents contents
  let written := { applied with contents := c }
  if stored then
    match enqueueRecords client codec t written accepted with
    | some (enqueuedBatches, outbox) =>
        (some ⟨enqueuedBatches, contents.length, records.length - accepted.length⟩,
          { written with outbox })
    | none => (none, s.rollback c.files)
  else (none, s.rollback c.files)

/-! ## What the transaction does -/

section Persist
variable {client : ClientInstance} {codec : Codec} {t : Tick} {s : Store}

/-- The state in which batches are built: the records applied, the contents stored. -/
def writtenStore (codec : Codec) (s : Store) (records : List SummaryRecord)
    (contents : List StoredContentInput) : Store :=
  let applied := (applyRecords s (records.map (normalizeRecord codec))).2
  { applied with contents := (storeContents codec applied.contents contents).2 }

/-- Everything is rolled back but the files, or everything is written. -/
theorem persistIngress_cases (client : ClientInstance) (codec : Codec) (t : Tick) (s : Store)
    (records : List SummaryRecord) (contents : List StoredContentInput) :
    ((persistIngress client codec t s records contents).1 = none ∧
      ∃ files, (persistIngress client codec t s records contents).2 = s.rollback files) ∨
    ∃ inserted outbox, enqueueRecords client codec t (writtenStore codec s records contents)
        (applyRecords s (records.map (normalizeRecord codec))).1 = some (inserted, outbox) ∧
      (persistIngress client codec t s records contents).1.isSome ∧
      (persistIngress client codec t s records contents).2 =
        { writtenStore codec s records contents with outbox } := by
  simp only [persistIngress]
  split
  · split
    · rename_i inserted outbox henqueue
      exact .inr ⟨inserted, outbox, henqueue, rfl, rfl⟩
    · exact .inl ⟨rfl, _, rfl⟩
  · exact .inl ⟨rfl, _, rfl⟩

/-- The row holds the encoding of a batch built from the store. -/
def HoldsBatch (client : ClientInstance) (codec : Codec) (t : Tick) (s : Store) (batchId : Uuid)
    (row : OutboxRow) : Prop :=
  ∃ chunk records encoded,
    codec.encodeBatch (buildWireBatch client t s chunk records) = .ok encoded ∧
      batchId = encoded.batchId ∧ row.payloadSha256 = encoded.payloadSha256 ∧
      row.body = encoded.bytes

theorem enqueueChunk_rows {priority : Bool} {inserted inserted' : ℕ × Outbox}
    {records : List SummaryRecord × ℕ}
    (h : enqueueChunk client codec t s priority inserted records = some inserted')
    {batchId : Uuid} {row : OutboxRow} (hrow : inserted'.2.outbox.get? batchId = some row) :
    inserted.2.outbox.get? batchId = some row ∨ HoldsBatch client codec t s batchId row := by
  simp only [enqueueChunk] at h
  split at h
  · cases h
    exact .inl hrow
  · split at h
    · cases h
    · rename_i encoded hencode
      split at h
      · obtain ⟨o, ho, rfl⟩ := Option.map_eq_some_iff.mp h
        obtain ⟨table, htable, rfl⟩ := Option.map_eq_some_iff.mp ho
        obtain ⟨-, rfl⟩ := Table.insertNew_eq_some.mp htable
        rw [Table.get?_put] at hrow
        split at hrow
        · rename_i hid
          obtain rfl := Option.some.inj hrow
          exact .inr ⟨_, _, encoded, hencode, hid, rfl, rfl⟩
        · exact .inl hrow
      · cases h

/-- A row of the outbox was there before, or holds a batch built from the store. -/
theorem enqueueRecords_rows {records : List SummaryRecord} {inserted : ℕ} {outbox : Outbox}
    (h : enqueueRecords client codec t s records = some (inserted, outbox)) {batchId : Uuid}
    {row : OutboxRow} (hrow : outbox.outbox.get? batchId = some row) :
    s.outbox.outbox.get? batchId = some row ∨ HoldsBatch client codec t s batchId row := by
  have hfold : ∀ (chunks : List (List SummaryRecord × ℕ)) (start result : ℕ × Outbox),
      chunks.foldlM (enqueueChunk client codec t s (records.any isPriorityRecord)) start =
        some result → result.2.outbox.get? batchId = some row →
      start.2.outbox.get? batchId = some row ∨ HoldsBatch client codec t s batchId row := by
    intro chunks
    induction chunks with
    | nil =>
        intro start result hresult hrow
        obtain rfl := Option.some.inj hresult
        exact .inl hrow
    | cons chunk chunks ih =>
        intro start result hresult hrow
        rw [List.foldlM_cons] at hresult
        obtain ⟨middle, hmiddle, hresult⟩ := Option.bind_eq_some_iff.mp hresult
        obtain hold | hnew := ih middle result hresult hrow
        · exact enqueueChunk_rows hmiddle hold
        · exact .inr hnew
  exact hfold _ _ _ h hrow

theorem outbox_applyRecord {record : SummaryRecord} :
    (applyRecord s record).2.outbox = s.outbox := by
  cases record <;> simp only [applyRecord, upsertTaskSummary, upsertTransition, upsertAttempt,
    upsertGap, upsertProcess, mergeSession] <;> (try split) <;> rfl

theorem outbox_applyRecords {records : List SummaryRecord} :
    (applyRecords s records).2.outbox = s.outbox := by
  induction records generalizing s with
  | nil => rfl
  | cons record records ih =>
      rw [applyRecords, ih, outbox_applyRecord]

theorem contents_applyRecords (s : Store) (records : List SummaryRecord) :
    (applyRecords s records).2.contents = s.contents := by
  induction records generalizing s with
  | nil => rfl
  | cons record records ih =>
      rw [applyRecords, ih]
      cases record <;> simp only [applyRecord, upsertTaskSummary, upsertTransition, upsertAttempt,
        upsertGap, upsertProcess, mergeSession] <;> (try split) <;> rfl

end Persist

end Codexwatch.Client
