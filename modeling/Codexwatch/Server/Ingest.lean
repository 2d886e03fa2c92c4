import Codexwatch.Protocol.Encoding
import Codexwatch.Server.Schema

/-!
# Ingest

The handler `ingest` of `server/src/lib.rs`, from the authorised principal and the
request body on. Everything it writes is in one transaction: a reply other than an
acceptance leaves the database as it was.

## Main definitions

* `persistClient`, `persistTaskUpload`, `persistHeartbeat` — the writes.
* `applyBatch` — all writes of an accepted batch.
* `ingest` — the handler.
-/
namespace Codexwatch.Server

open Protocol Relational Check

/-! ## The writes of a batch -/

def persistClient (db : Database) (batch : IngestBatch) : Database :=
  { db with
    clients := db.clients.insertIgnore batch.client.clientId batch.generatedAtMs
    clientInstances := db.clientInstances.upsert batch.client.instanceId
      { clientId := batch.client.clientId
        hostname := batch.client.hostname
        platform := batch.client.platform
        codexVersion := batch.client.codexVersion
        startedAtMs := batch.client.startedAtMs
        lastSeenAtMs := batch.generatedAtMs }
      fun old =>
        { old with
          hostname := batch.client.hostname
          platform := batch.client.platform
          codexVersion := batch.client.codexVersion
          lastSeenAtMs := batch.generatedAtMs } }

/-- `upsert_payloads`: on a taken id, every column is replaced. -/
def upsertPayloads {α : Type} (table : Table Uuid (PayloadRow α)) (taskRef : String)
    (items : List α) (idFn : α → Uuid) (tsFn : α → TimestampMs) : Table Uuid (PayloadRow α) :=
  items.foldl (fun t item => t.put (idFn item) ⟨taskRef, tsFn item, item⟩) table

/-- The row that a snapshot is stored as. -/
def taskRowOf (clientId : String) (snapshot : TaskSnapshot) : TaskRow where
  clientId := clientId
  provider := snapshot.identity.provider
  sessionId := snapshot.identity.sessionId
  threadId := snapshot.identity.threadId
  turnId := snapshot.identity.turnId
  phase := snapshot.phase
  terminal := snapshot.terminal
  updatedAtMs := snapshot.updatedAtMs
  snapshotJson := snapshot

def persistTaskUpload (clientId : String) (db : Database) (upload : TaskUpload) : Database :=
  let snapshot := upload.snapshot
  let identity := snapshot.identity
  { db with
    sessions := db.sessions.upsert
      (clientId, identity.provider, identity.sessionId, identity.threadId)
      ⟨snapshot.startedAtMs, snapshot.updatedAtMs⟩
      fun old => { old with lastSeenAtMs := snapshot.updatedAtMs }
    tasks := db.tasks.put snapshot.taskRef (taskRowOf clientId snapshot)
    codexTasks := db.codexTasks.put snapshot.taskRef snapshot.codex
    attempts := upsertPayloads db.attempts snapshot.taskRef upload.attempts
      AttemptRecord.attemptId AttemptRecord.startedAtMs
    taskEvents := upsertPayloads db.taskEvents snapshot.taskRef upload.events
      TaskEvent.eventId TaskEvent.occurredAtMs
    errors := upsertPayloads db.errors snapshot.taskRef upload.errors
      ErrorRecord.errorId ErrorRecord.occurredAtMs
    captureGaps := upsertPayloads db.captureGaps snapshot.taskRef upload.gaps
      CaptureGapRecord.gapId CaptureGapRecord.occurredAtMs }

/-- A taken heartbeat id fails the statement, and with it the transaction. -/
def persistHeartbeat (table : Table Uuid Heartbeat) (heartbeat : Heartbeat) :
    Option (Table Uuid Heartbeat) :=
  table.insertNew heartbeat.heartbeatId heartbeat

/-- The writes of a batch that has no receipt yet. -/
def applyBatch (db : Database) (batch : IngestBatch) (payloadSha256 : String)
    (now : TimestampMs) : Option Database := do
  let db := batch.tasks.foldl (persistTaskUpload batch.client.clientId) (persistClient db batch)
  let heartbeats ← batch.heartbeats.foldlM persistHeartbeat db.heartbeats
  pure { db with
    heartbeats
    ingestReceipts :=
      db.ingestReceipts.put (batch.client.clientId, batch.batchId) ⟨payloadSha256, now⟩ }

/-! ## What a batch writes, table by table -/

/-- The heartbeat ids of a batch are distinct and free. -/
def HeartbeatsNew (db : Database) (batch : IngestBatch) : Prop :=
  (batch.heartbeats.map Heartbeat.heartbeatId).Nodup ∧
    ∀ h ∈ batch.heartbeats, db.heartbeats.get? h.heartbeatId = none

instance (db : Database) (batch : IngestBatch) : Decidable (HeartbeatsNew db batch) :=
  inferInstanceAs (Decidable (_ ∧ _))

/-- The database with all writes of a batch done. -/
def applied (db : Database) (batch : IngestBatch) (payloadSha256 : String)
    (now : TimestampMs) : Database :=
  { batch.tasks.foldl (persistTaskUpload batch.client.clientId) (persistClient db batch) with
    heartbeats := db.heartbeats.putAll (batch.heartbeats.map fun h => (h.heartbeatId, h))
    ingestReceipts :=
      db.ingestReceipts.put (batch.client.clientId, batch.batchId) ⟨payloadSha256, now⟩ }

/-- A table that each upload changes by itself is folded by itself. -/
theorem foldl_persistTaskUpload {T : Type} (clientId : String) (table : Database → T)
    (write : T → TaskUpload → T)
    (h : ∀ db u, write (table db) u = table (persistTaskUpload clientId db u))
    (uploads : List TaskUpload) (db : Database) :
    table (uploads.foldl (persistTaskUpload clientId) db) = uploads.foldl write (table db) :=
  (List.foldl_hom table h).symm

theorem applyBatch_eq_some_iff {db db' : Database} {batch : IngestBatch} {sha : String}
    {now : TimestampMs} :
    applyBatch db batch sha now = some db' ↔
      HeartbeatsNew db batch ∧ applied db batch sha now = db' := by
  have hheartbeats : (batch.tasks.foldl (persistTaskUpload batch.client.clientId)
      (persistClient db batch)).heartbeats = db.heartbeats := by
    rw [foldl_persistTaskUpload _ Database.heartbeats (fun t _ => t) (fun _ _ => rfl)]
    simp [persistClient]
  have hreceipts : (batch.tasks.foldl (persistTaskUpload batch.client.clientId)
      (persistClient db batch)).ingestReceipts = db.ingestReceipts := by
    rw [foldl_persistTaskUpload _ Database.ingestReceipts (fun t _ => t) (fun _ _ => rfl)]
    simp [persistClient]
  have hfold : batch.heartbeats.foldlM persistHeartbeat db.heartbeats =
      (batch.heartbeats.map fun h => (h.heartbeatId, h)).foldlM
        (fun t r => t.insertNew r.1 r.2) db.heartbeats := by
    rw [List.foldlM_map]
    rfl
  simp only [applyBatch, hheartbeats, hreceipts, hfold, Option.bind_eq_bind, Option.pure_def,
    Option.bind_eq_some_iff, Table.foldlM_insertNew_eq_some, Option.some.injEq]
  simp only [List.map_map, List.forall_mem_map]
  constructor
  · rintro ⟨_, ⟨hnew, rfl⟩, rfl⟩
    exact ⟨hnew, rfl⟩
  · rintro ⟨hnew, rfl⟩
    exact ⟨_, ⟨hnew, rfl⟩, rfl⟩

def taskRows (batch : IngestBatch) : List (String × TaskRow) :=
  batch.tasks.map fun u => (u.snapshot.taskRef, taskRowOf batch.client.clientId u.snapshot)

/-- The rows that one payload list of each upload is stored as. -/
def payloadRows {α : Type} (batch : IngestBatch) (items : TaskUpload → List α) (idFn : α → Uuid)
    (tsFn : α → TimestampMs) : List (Uuid × PayloadRow α) :=
  batch.tasks.flatMap fun u =>
    (items u).map fun item => (idFn item, ⟨u.snapshot.taskRef, tsFn item, item⟩)

theorem upsertPayloads_eq_putAll {α : Type} (table : Table Uuid (PayloadRow α)) (taskRef : String)
    (items : List α) (idFn : α → Uuid) (tsFn : α → TimestampMs) :
    upsertPayloads table taskRef items idFn tsFn =
      table.putAll (items.map fun item => (idFn item, ⟨taskRef, tsFn item, item⟩)) := by
  rw [upsertPayloads, Table.putAll, List.foldl_map]

theorem foldl_upsertPayloads {α : Type} (batch : IngestBatch) (table : Table Uuid (PayloadRow α))
    (items : TaskUpload → List α) (idFn : α → Uuid) (tsFn : α → TimestampMs) :
    batch.tasks.foldl (fun t u => upsertPayloads t u.snapshot.taskRef (items u) idFn tsFn) table =
      table.putAll (payloadRows batch items idFn tsFn) := by
  rw [Table.putAll, payloadRows, List.foldl_flatMap]
  simp only [upsertPayloads_eq_putAll, Table.putAll]

section Tables
variable (db : Database) (batch : IngestBatch) (sha : String) (now : TimestampMs)

theorem applied_tasks : (applied db batch sha now).tasks = db.tasks.putAll (taskRows batch) := by
  rw [Table.putAll, taskRows, List.foldl_map]
  exact foldl_persistTaskUpload _ Database.tasks
    (fun t u => t.put u.snapshot.taskRef (taskRowOf batch.client.clientId u.snapshot))
    (fun _ _ => rfl) _ _

theorem applied_codexTasks : (applied db batch sha now).codexTasks =
    db.codexTasks.putAll (batch.tasks.map fun u => (u.snapshot.taskRef, u.snapshot.codex)) := by
  rw [Table.putAll, List.foldl_map]
  exact foldl_persistTaskUpload _ Database.codexTasks
    (fun t u => t.put u.snapshot.taskRef u.snapshot.codex) (fun _ _ => rfl) _ _

theorem applied_attempts : (applied db batch sha now).attempts = db.attempts.putAll
    (payloadRows batch TaskUpload.attempts AttemptRecord.attemptId AttemptRecord.startedAtMs) := by
  rw [← foldl_upsertPayloads]
  exact foldl_persistTaskUpload _ Database.attempts _ (fun _ _ => rfl) _ _

theorem applied_taskEvents : (applied db batch sha now).taskEvents = db.taskEvents.putAll
    (payloadRows batch TaskUpload.events TaskEvent.eventId TaskEvent.occurredAtMs) := by
  rw [← foldl_upsertPayloads]
  exact foldl_persistTaskUpload _ Database.taskEvents _ (fun _ _ => rfl) _ _

theorem applied_errors : (applied db batch sha now).errors = db.errors.putAll
    (payloadRows batch TaskUpload.errors ErrorRecord.errorId ErrorRecord.occurredAtMs) := by
  rw [← foldl_upsertPayloads]
  exact foldl_persistTaskUpload _ Database.errors _ (fun _ _ => rfl) _ _

theorem applied_captureGaps : (applied db batch sha now).captureGaps = db.captureGaps.putAll
    (payloadRows batch TaskUpload.gaps CaptureGapRecord.gapId CaptureGapRecord.occurredAtMs) := by
  rw [← foldl_upsertPayloads]
  exact foldl_persistTaskUpload _ Database.captureGaps _ (fun _ _ => rfl) _ _

theorem applied_clientInstances : (applied db batch sha now).clientInstances =
    (persistClient db batch).clientInstances := by
  have h := foldl_persistTaskUpload batch.client.clientId Database.clientInstances
    (fun t _ => t) (fun _ _ => rfl) batch.tasks (persistClient db batch)
  rw [List.foldl_fixed] at h
  exact h

@[simp] theorem applied_ingestReceipts : (applied db batch sha now).ingestReceipts =
    db.ingestReceipts.put (batch.client.clientId, batch.batchId) ⟨sha, now⟩ := rfl

@[simp] theorem applied_heartbeats : (applied db batch sha now).heartbeats =
    db.heartbeats.putAll (batch.heartbeats.map fun h => (h.heartbeatId, h)) := rfl

end Tables

/-! ## The handler -/

inductive IngestReply
  | ack (body : IngestAck)
  /-- `409` with a `ConflictBody`. -/
  | conflict (error detail : String)
  | err (status : StatusCode)
  deriving DecidableEq

def ingest (codec : Codec) (principal : Principal) (body : Bytes) (now : TimestampMs)
    (db : Database) : IngestReply × Database :=
  if principal.role.canIngest = false then (.err .forbidden, db)
  else
    match codec.decodeBatchWithPayload body with
    | .error .payloadTooLarge => (.err .payloadTooLarge, db)
    | .error _ => (.err .badRequest, db)
    | .ok decoded =>
        if decoded.batch.client.clientId ≠ principal.clientId then (.err .forbidden, db)
        else
          match db.ingestReceipts.get? (principal.clientId, decoded.batch.batchId) with
          | some receipt =>
              if receipt.payloadSha256 ≠ decoded.payloadSha256 then
                (.conflict "ingest_conflict" ("batch_id " ++ decoded.batch.batchId.toString ++
                  " reused with different payload"), db)
              else
                (.ack ⟨decoded.batch.batchId, receipt.payloadSha256, 0, 0, true⟩, db)
          | none =>
              match applyBatch db decoded.batch decoded.payloadSha256 now with
              | none => (.err .internalServerError, db)
              | some applied =>
                  (.ack ⟨decoded.batch.batchId, decoded.payloadSha256,
                    decoded.batch.tasks.length, decoded.batch.heartbeats.length, false⟩, applied)

/-- The state in which `ingest` applies a decoded batch. -/
structure Accepts (principal : Principal) (batch : IngestBatch) (db : Database) : Prop where
  role : principal.role.canIngest
  clientId : batch.client.clientId = principal.clientId
  noReceipt : db.ingestReceipts.get? (principal.clientId, batch.batchId) = none
  heartbeats : HeartbeatsNew db batch

section Cases
variable {codec : Codec} {principal : Principal} {body : Bytes} {decoded : DecodedBatch}
  {now : TimestampMs} {db : Database}

theorem ingest_of_accepts (hdecode : codec.decodeBatchWithPayload body = .ok decoded)
    (h : Accepts principal decoded.batch db) :
    ingest codec principal body now db =
      (.ack ⟨decoded.batch.batchId, decoded.payloadSha256, decoded.batch.tasks.length,
        decoded.batch.heartbeats.length, false⟩,
        applied db decoded.batch decoded.payloadSha256 now) := by
  have happly : applyBatch db decoded.batch decoded.payloadSha256 now =
      some (applied db decoded.batch decoded.payloadSha256 now) :=
    applyBatch_eq_some_iff.mpr ⟨h.heartbeats, rfl⟩
  simp only [ingest, hdecode, h.role, h.clientId, h.noReceipt, happly]
  simp

/-- The second post of a payload changes nothing and is acknowledged as a duplicate. -/
theorem ingest_of_receipt {receipt : ReceiptRow}
    (hdecode : codec.decodeBatchWithPayload body = .ok decoded)
    (hrole : principal.role.canIngest) (hclient : decoded.batch.client.clientId = principal.clientId)
    (h : db.ingestReceipts.get? (principal.clientId, decoded.batch.batchId) = some receipt) :
    ingest codec principal body now db =
      (if receipt.payloadSha256 = decoded.payloadSha256 then
        .ack ⟨decoded.batch.batchId, receipt.payloadSha256, 0, 0, true⟩
      else .conflict "ingest_conflict" ("batch_id " ++ decoded.batch.batchId.toString ++
        " reused with different payload"), db) := by
  simp only [ingest, hdecode, hrole, hclient, h]
  by_cases hsha : receipt.payloadSha256 = decoded.payloadSha256 <;> simp [hsha]

/-- A heartbeat id that is not new fails the transaction. -/
theorem ingest_of_taken (hdecode : codec.decodeBatchWithPayload body = .ok decoded)
    (hrole : principal.role.canIngest) (hclient : decoded.batch.client.clientId = principal.clientId)
    (hreceipt : db.ingestReceipts.get? (principal.clientId, decoded.batch.batchId) = none)
    (h : ¬ HeartbeatsNew db decoded.batch) :
    ingest codec principal body now db = (.err .internalServerError, db) := by
  have happly : applyBatch db decoded.batch decoded.payloadSha256 now = none := by
    rw [Option.eq_none_iff_forall_not_mem]
    exact fun db' hdb' => h (applyBatch_eq_some_iff.mp hdb').1
  simp [ingest, hrole, hdecode, hclient, hreceipt, happly]

/-- A request applies its batch, is answered by the batch's receipt, or fails; only in the
first case does it write anything. -/
theorem ingest_cases (codec : Codec) (principal : Principal) (body : Bytes) (now : TimestampMs)
    (db : Database) :
    (∃ decoded, codec.decodeBatchWithPayload body = .ok decoded ∧
      Accepts principal decoded.batch db ∧
      ingest codec principal body now db =
        (.ack ⟨decoded.batch.batchId, decoded.payloadSha256, decoded.batch.tasks.length,
          decoded.batch.heartbeats.length, false⟩,
          applied db decoded.batch decoded.payloadSha256 now)) ∨
    (∃ decoded receipt, codec.decodeBatchWithPayload body = .ok decoded ∧
      db.ingestReceipts.get? (principal.clientId, decoded.batch.batchId) = some receipt ∧
      ingest codec principal body now db =
        (if receipt.payloadSha256 = decoded.payloadSha256 then
          .ack ⟨decoded.batch.batchId, receipt.payloadSha256, 0, 0, true⟩
        else .conflict "ingest_conflict" ("batch_id " ++ decoded.batch.batchId.toString ++
          " reused with different payload"), db)) ∨
    (∃ status, ingest codec principal body now db = (.err status, db)) := by
  by_cases hrole : principal.role.canIngest = false
  · exact .inr (.inr ⟨.forbidden, by simp [ingest, hrole]⟩)
  have hrole : principal.role.canIngest = true := by simpa using hrole
  cases hdecode : codec.decodeBatchWithPayload body with
  | error e =>
      right
      right
      cases e <;> simp [ingest, hrole, hdecode]
  | ok decoded =>
      by_cases hclient : decoded.batch.client.clientId = principal.clientId
      · cases hreceipt : db.ingestReceipts.get? (principal.clientId, decoded.batch.batchId) with
        | some receipt =>
            exact .inr (.inl ⟨decoded, receipt, rfl, hreceipt,
              ingest_of_receipt hdecode hrole hclient hreceipt⟩)
        | none =>
            by_cases hheartbeats : HeartbeatsNew db decoded.batch
            · have haccepts : Accepts principal decoded.batch db :=
                ⟨hrole, hclient, hreceipt, hheartbeats⟩
              exact .inl ⟨decoded, rfl, haccepts, ingest_of_accepts hdecode haccepts⟩
            · exact .inr (.inr ⟨.internalServerError,
                ingest_of_taken hdecode hrole hclient hreceipt hheartbeats⟩)
      · exact .inr (.inr ⟨.forbidden, by simp [ingest, hrole, hdecode, hclient]⟩)

theorem ingest_of_not_accepts (hdecode : codec.decodeBatchWithPayload body = .ok decoded)
    (h : ¬ Accepts principal decoded.batch db) : (ingest codec principal body now db).2 = db := by
  rcases ingest_cases codec principal body now db with
    ⟨d, hd, haccepts, -⟩ | ⟨d, receipt, -, -, heq⟩ | ⟨status, heq⟩
  · obtain rfl : decoded = d := Except.ok.inj (hdecode.symm.trans hd)
    exact absurd haccepts h
  · rw [heq]
  · rw [heq]

/-- The server holds a receipt of the payload. -/
def HasReceipt (db : Database) (clientId : String) (batchId : Uuid) (payloadSha256 : String) :
    Prop :=
  ∃ row, db.ingestReceipts.get? (clientId, batchId) = some row ∧
    row.payloadSha256 = payloadSha256

/-- No request removes or changes a receipt. -/
theorem hasReceipt_ingest {clientId sha : String} {batchId : Uuid}
    (h : HasReceipt db clientId batchId sha) :
    HasReceipt (ingest codec principal body now db).2 clientId batchId sha := by
  obtain ⟨row, hrow, hsha⟩ := h
  rcases ingest_cases codec principal body now db with
    ⟨d, -, haccepts, heq⟩ | ⟨d, receipt, -, -, heq⟩ | ⟨status, heq⟩
  · refine ⟨row, ?_, hsha⟩
    rw [heq, applied_ingestReceipts, Table.get?_put_of_ne, hrow]
    intro hkey
    rw [hkey, haccepts.clientId, haccepts.noReceipt] at hrow
    cases hrow
  · rw [heq]
    exact ⟨row, hrow, hsha⟩
  · rw [heq]
    exact ⟨row, hrow, hsha⟩

/-- What is acknowledged has a receipt. -/
theorem hasReceipt_of_ack {ack : IngestAck}
    (h : (ingest codec principal body now db).1 = .ack ack) :
    HasReceipt (ingest codec principal body now db).2 principal.clientId ack.batchId
      ack.payloadSha256 := by
  rcases ingest_cases codec principal body now db with
    ⟨d, -, haccepts, heq⟩ | ⟨d, receipt, -, hreceipt, heq⟩ | ⟨status, heq⟩
  · rw [heq] at h ⊢
    cases h
    refine ⟨⟨d.payloadSha256, now⟩, ?_, rfl⟩
    rw [applied_ingestReceipts, haccepts.clientId, Table.get?_put_self]
  · rw [heq] at h ⊢
    by_cases hsha : receipt.payloadSha256 = d.payloadSha256
    · rw [if_pos hsha] at h
      cases h
      exact ⟨receipt, hreceipt, rfl⟩
    · rw [if_neg hsha] at h
      cases h
  · rw [heq] at h
    cases h

end Cases

end Codexwatch.Server
