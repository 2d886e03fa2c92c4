import Codexwatch.Lib.Table
import Codexwatch.Client.Normalize

/-!
# The client's outbox

The tables `outbox` and `acked_batches` of `client/src/store.rs` and the statements
on them. A batch leaves the outbox only through `mark_batch_acked`, which matches
both the batch id and the payload digest.

## Main definitions

* `Outbox` — the two tables.
* `insertOutbox`, `nextDueBatch`, `markBatchAcked`, `markBatchRetry`.
-/
namespace Codexwatch.Client

open Protocol Relational

structure OutboxRow where
  payloadSha256 : String
  body : Bytes
  recordCount : ℕ
  createdAt : ℤ
  nextAttemptAt : ℤ
  attemptCount : ℕ
  lastError : Option String
  isPriority : Bool
  deriving DecidableEq

structure Outbox where
  outbox : Table Uuid OutboxRow
  /-- `acked_at` by `(batch_id, payload_sha256)`. -/
  ackedBatches : Table (Uuid × String) ℤ

/-- The statement of `enqueue_records_tx`; a taken batch id fails it. -/
def insertOutbox (o : Outbox) (encoded : EncodedBatch) (recordCount : ℕ) (priority : Bool)
    (nowMs : ℤ) : Option Outbox :=
  (o.outbox.insertNew encoded.batchId
    { payloadSha256 := encoded.payloadSha256
      body := encoded.bytes
      recordCount
      createdAt := nowMs
      nextAttemptAt := nowMs
      attemptCount := 0
      lastError := none
      isPriority := priority }).map fun outbox => { o with outbox }

/-- `ORDER BY created_at LIMIT 1` among the rows whose time has come. -/
def nextDueBatch (o : Outbox) (now : OffsetDateTime) : Option (Uuid × OutboxRow) :=
  firstBy (fun r => r.2.createdAt) (o.outbox.rows.filter fun r => r.2.nextAttemptAt ≤ ts now)

def markBatchAcked (o : Outbox) (ack : IngestAck) (nowMs : ℤ) : Outbox where
  outbox := o.outbox.deleteWhere fun batchId row =>
    batchId = ack.batchId && row.payloadSha256 = ack.payloadSha256
  ackedBatches := o.ackedBatches.put (ack.batchId, ack.payloadSha256) nowMs

/-- `2^min(n, 10) * 5` seconds, at most ten minutes, in nanoseconds. -/
def backoffDelay (attemptCount : ℕ) : ℤ :=
  (min (2 ^ min attemptCount 10 * 5) 600 : ℕ) * 1000000000

/-- An unknown batch id is an error and changes nothing. -/
def markBatchRetry (codec : Codec) (o : Outbox) (batchId : Uuid) (error : String)
    (now : OffsetDateTime) : Outbox :=
  { o with
    outbox := o.outbox.modify batchId fun row =>
      { row with
        attemptCount := row.attemptCount + 1
        nextAttemptAt := ts (now + backoffDelay row.attemptCount)
        lastError := some (truncateMessage codec error) } }

/-! ## What stays in the outbox -/

/-- The batch is in the outbox with this payload. -/
def Outbox.Holds (o : Outbox) (batchId : Uuid) (payloadSha256 : String) (body : Bytes) : Prop :=
  ∃ row, o.outbox.get? batchId = some row ∧ row.payloadSha256 = payloadSha256 ∧ row.body = body

variable {o o' : Outbox} {batchId : Uuid} {sha : String} {body : Bytes}

theorem holds_insertOutbox_self {encoded : EncodedBatch} {recordCount : ℕ} {priority : Bool}
    {nowMs : ℤ} (h : insertOutbox o encoded recordCount priority nowMs = some o') :
    o'.Holds encoded.batchId encoded.payloadSha256 encoded.bytes := by
  obtain ⟨t, ht, rfl⟩ := Option.map_eq_some_iff.mp h
  obtain ⟨-, rfl⟩ := Table.insertNew_eq_some.mp ht
  exact ⟨_, Table.get?_put_self .., rfl, rfl⟩

theorem holds_insertOutbox {encoded : EncodedBatch} {recordCount : ℕ} {priority : Bool}
    {nowMs : ℤ} (h : insertOutbox o encoded recordCount priority nowMs = some o')
    (hold : o.Holds batchId sha body) : o'.Holds batchId sha body := by
  obtain ⟨t, ht, rfl⟩ := Option.map_eq_some_iff.mp h
  obtain ⟨hfree, rfl⟩ := Table.insertNew_eq_some.mp ht
  obtain ⟨row, hrow, hsha, hbody⟩ := hold
  refine ⟨row, ?_, hsha, hbody⟩
  rw [Table.get?_put_of_ne, hrow]
  rintro rfl
  rw [hfree] at hrow
  cases hrow

/-- A retry changes the schedule of a row, not its payload. -/
theorem holds_markBatchRetry {codec : Codec} {other : Uuid} {error : String}
    {now : OffsetDateTime} :
    (markBatchRetry codec o other error now).Holds batchId sha body ↔
      o.Holds batchId sha body := by
  rw [Outbox.Holds, markBatchRetry]
  simp only [Table.get?_modify]
  by_cases h : batchId = other
  · simp only [h, if_true, Option.map_eq_some_iff, exists_exists_and_eq_and]
    rfl
  · simp only [h, if_false]
    rfl

/-- Only an acknowledgement of this batch with this digest removes it. -/
theorem holds_markBatchAcked {ack : IngestAck} {nowMs : ℤ} :
    (markBatchAcked o ack nowMs).Holds batchId sha body ↔
      o.Holds batchId sha body ∧ ¬ (batchId = ack.batchId ∧ sha = ack.payloadSha256) := by
  rw [Outbox.Holds, markBatchAcked]
  simp only [Table.get?_deleteWhere, Option.filter_eq_some_iff]
  constructor
  · rintro ⟨row, ⟨hrow, hkeep⟩, rfl, rfl⟩
    refine ⟨⟨row, hrow, rfl, rfl⟩, ?_⟩
    rintro ⟨hid, hsha⟩
    simp [hid, hsha] at hkeep
  · rintro ⟨⟨row, hrow, rfl, rfl⟩, hnot⟩
    refine ⟨row, ⟨hrow, ?_⟩, rfl, rfl⟩
    have hkeep : batchId = ack.batchId → row.payloadSha256 ≠ ack.payloadSha256 := fun hid hsha =>
      hnot ⟨hid, hsha⟩
    by_cases hid : batchId = ack.batchId <;> simp [hid, hkeep]

end Codexwatch.Client
