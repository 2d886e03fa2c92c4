import Mathlib.Data.Finset.Insert
import Mathlib.Data.Fintype.Defs
import Codexwatch.Lib.Run
import Codexwatch.Protocol.State
import Codexwatch.Server.Ingest

/-!
# Cleanup

`cleanup_retention` deletes events, errors and gaps by their age alone, those of tasks
that still run too. Nothing else deletes them; but an upload that reuses an identifier
takes the row along to its own task, and one that brings a finished task back finds the
rows that were deleted meanwhile missing.

Every statement of a cleanup is a step of its own, so that requests come between them.

## Main definitions

* `Database.sweep`, `cleanupRetention` — the statements, and all of them.
* `Cleanup.World`, `Cleanup.step` — the database, and what it was given.
* `Cleanup.Spares` — a step leaves the rows of running tasks alone.
* `Cleanup.keepsLive_run` — in a run of such steps no row of a running task is missed.
-/
namespace Codexwatch.Server

open Protocol Relational

def HEARTBEAT_RETENTION_MS : TimestampMs := 30 * 24 * 60 * 60 * 1000
def EPHEMERA_RETENTION_MS : TimestampMs := 180 * 24 * 60 * 60 * 1000
def RECEIPT_RETENTION_MS : TimestampMs := 400 * 24 * 60 * 60 * 1000

/-- The tables with rows of tasks that are cleaned up. Nothing writes `http_exchanges`. -/
inductive Ephemera
  | taskEvents | errors | captureGaps
  deriving DecidableEq, Repr

instance : Fintype Ephemera :=
  ⟨{.taskEvents, .errors, .captureGaps}, by rintro (_ | _ | _) <;> decide⟩

/-- A `DELETE` of `cleanup_retention`. -/
inductive Sweep
  | heartbeats | receipts | ephemera (table : Ephemera)
  deriving DecidableEq, Repr

def Sweep.retentionMs : Sweep → TimestampMs
  | .heartbeats => HEARTBEAT_RETENTION_MS
  | .receipts => RECEIPT_RETENTION_MS
  | .ephemera _ => EPHEMERA_RETENTION_MS

/-- `now - retention`, in 64 bits. -/
def Sweep.limit (sweep : Sweep) (now : TimestampMs) : TimestampMs :=
  (now - sweep.retentionMs).bmod (2 ^ 64)

/-- `DELETE .. WHERE time < limit`. -/
def deleteBefore {κ ν : Type} (table : Table κ ν) (time : ν → TimestampMs) (limit : TimestampMs) :
    Table κ ν :=
  table.deleteWhere fun _ row => time row < limit

def Database.sweep (db : Database) (sweep : Sweep) (now : TimestampMs) : Database :=
  let limit := sweep.limit now
  match sweep with
  | .heartbeats => { db with heartbeats := deleteBefore db.heartbeats Heartbeat.observedAtMs limit }
  | .receipts =>
      { db with ingestReceipts := deleteBefore db.ingestReceipts ReceiptRow.receivedAtMs limit }
  | .ephemera .taskEvents => { db with taskEvents := deleteBefore db.taskEvents PayloadRow.ts limit }
  | .ephemera .errors => { db with errors := deleteBefore db.errors PayloadRow.ts limit }
  | .ephemera .captureGaps =>
      { db with captureGaps := deleteBefore db.captureGaps PayloadRow.ts limit }

/-- The statements in the order of the source. -/
def sweeps : List Sweep :=
  [.heartbeats, .receipts, .ephemera .taskEvents, .ephemera .errors, .ephemera .captureGaps]

def cleanupRetention (db : Database) (now : TimestampMs) : Database :=
  sweeps.foldl (fun db sweep => db.sweep sweep now) db

/-! ## Rows of tasks -/

/-- What cleanup knows of a row of a task. -/
structure Ephemeron where
  id : Uuid
  taskRef : String
  ts : TimestampMs
  deriving DecidableEq

namespace Ephemeron

def ofRow {α : Type} (row : Uuid × PayloadRow α) : Ephemeron := ⟨row.1, row.2.taskRef, row.2.ts⟩

/-- The row is among these, for its task. -/
def IsIn (row : Ephemeron) (rows : List Ephemeron) : Prop :=
  ∃ stored ∈ rows, stored.id = row.id ∧ stored.taskRef = row.taskRef

instance (row : Ephemeron) (rows : List Ephemeron) : Decidable (row.IsIn rows) :=
  inferInstanceAs (Decidable (∃ stored ∈ rows, _ ∧ _))

theorem isIn_of_mem {row : Ephemeron} {rows : List Ephemeron} (h : row ∈ rows) : row.IsIn rows :=
  ⟨row, h, rfl, rfl⟩

section Tables
variable {α : Type} {table : Table Uuid (PayloadRow α)} {rows : List (Uuid × PayloadRow α)}
  {row : Ephemeron}

theorem mem_map_deleteBefore {limit : TimestampMs} :
    row ∈ (deleteBefore table PayloadRow.ts limit).rows.map ofRow ↔
      row ∈ table.rows.map ofRow ∧ limit ≤ row.ts := by
  simp only [List.mem_map, deleteBefore, Table.mem_rows_deleteWhere, decide_eq_false_iff_not, not_lt]
  constructor
  · rintro ⟨r, ⟨hr, hlimit⟩, rfl⟩
    exact ⟨⟨r, hr, rfl⟩, hlimit⟩
  · rintro ⟨⟨r, hr, rfl⟩, hlimit⟩
    exact ⟨r, ⟨hr, hlimit⟩, rfl⟩

/-- A row that is written is there, or a later one with its identifier is. -/
theorem exists_mem_putAll_of_mem (h : row ∈ rows.map ofRow) :
    ∃ last ∈ rows.map ofRow, last.id = row.id ∧ last ∈ (table.putAll rows).rows.map ofRow := by
  obtain ⟨r, hr, rfl⟩ := List.mem_map.mp h
  obtain ⟨v, hv, hget⟩ := Table.get?_putAll_of_mem (t := table) (List.mem_map_of_mem (f := Prod.fst) hr)
  exact ⟨ofRow (r.1, v), List.mem_map_of_mem hv, rfl,
    List.mem_map_of_mem (Table.get?_eq_some.mp hget)⟩

/-- A stored row stays, unless one with its identifier is written. -/
theorem mem_putAll_of_mem (h : row ∈ table.rows.map ofRow)
    (hfree : ∀ new ∈ rows.map ofRow, new.id ≠ row.id) :
    row ∈ (table.putAll rows).rows.map ofRow := by
  obtain ⟨r, hr, rfl⟩ := List.mem_map.mp h
  have hnot : r.1 ∉ rows.map Prod.fst := by
    intro hmem
    obtain ⟨new, hnew, hid⟩ := List.mem_map.mp hmem
    exact hfree _ (List.mem_map_of_mem hnew) hid
  refine List.mem_map_of_mem (Table.mem_rows_iff.mpr ?_)
  rw [Table.get?_putAll_of_not_mem hnot]
  exact Table.mem_rows_iff.mp hr

end Tables

end Ephemeron

/-- The stored rows of tasks. -/
def Database.ephemera (db : Database) : Ephemera → List Ephemeron
  | .taskEvents => db.taskEvents.rows.map Ephemeron.ofRow
  | .errors => db.errors.rows.map Ephemeron.ofRow
  | .captureGaps => db.captureGaps.rows.map Ephemeron.ofRow

/-- The rows of tasks that a batch is stored as. -/
def ephemera (batch : IngestBatch) : Ephemera → List Ephemeron
  | .taskEvents => (payloadRows batch TaskUpload.events TaskEvent.eventId
      TaskEvent.occurredAtMs).map Ephemeron.ofRow
  | .errors => (payloadRows batch TaskUpload.errors ErrorRecord.errorId
      ErrorRecord.occurredAtMs).map Ephemeron.ofRow
  | .captureGaps => (payloadRows batch TaskUpload.gaps CaptureGapRecord.gapId
      CaptureGapRecord.occurredAtMs).map Ephemeron.ofRow

/-- The stored snapshot of the task is not terminal. -/
def Database.isLive (db : Database) (taskRef : String) : Bool :=
  (db.tasks.get? taskRef).any fun row => row.snapshotJson.phase ≠ .terminal

section Writes
variable {db : Database} {batch : IngestBatch} {sha taskRef : String} {now : TimestampMs}
  {table : Ephemera} {row : Ephemeron}

theorem exists_mem_applied_of_mem (db : Database) (sha : String) (now : TimestampMs)
    (h : row ∈ ephemera batch table) :
    ∃ last ∈ ephemera batch table, last.id = row.id ∧
      last ∈ (applied db batch sha now).ephemera table := by
  cases table with
  | taskEvents =>
      rw [Database.ephemera, applied_taskEvents]
      exact Ephemeron.exists_mem_putAll_of_mem h
  | errors =>
      rw [Database.ephemera, applied_errors]
      exact Ephemeron.exists_mem_putAll_of_mem h
  | captureGaps =>
      rw [Database.ephemera, applied_captureGaps]
      exact Ephemeron.exists_mem_putAll_of_mem h

theorem mem_applied_of_mem (h : row ∈ db.ephemera table)
    (hfree : ∀ new ∈ ephemera batch table, new.id ≠ row.id) :
    row ∈ (applied db batch sha now).ephemera table := by
  cases table with
  | taskEvents =>
      rw [Database.ephemera, applied_taskEvents]
      exact Ephemeron.mem_putAll_of_mem h hfree
  | errors =>
      rw [Database.ephemera, applied_errors]
      exact Ephemeron.mem_putAll_of_mem h hfree
  | captureGaps =>
      rw [Database.ephemera, applied_captureGaps]
      exact Ephemeron.mem_putAll_of_mem h hfree

/-- A task that runs after a batch ran before, or the batch says so. -/
theorem isLive_of_applied (h : (applied db batch sha now).isLive taskRef = true) :
    db.isLive taskRef = true ∨
      ∃ u ∈ batch.tasks, u.snapshot.taskRef = taskRef ∧ u.snapshot.phase ≠ .terminal := by
  rw [Database.isLive, applied_tasks] at h
  by_cases hmem : taskRef ∈ (taskRows batch).map Prod.fst
  · obtain ⟨task, htask, hget⟩ := Table.get?_putAll_of_mem (t := db.tasks) hmem
    obtain ⟨u, hu, heq⟩ := List.mem_map.mp htask
    obtain ⟨href, rfl⟩ := Prod.mk.inj heq
    rw [hget] at h
    exact .inr ⟨u, hu, href, by simpa [taskRowOf] using h⟩
  · rw [Table.get?_putAll_of_not_mem hmem] at h
    exact .inl h

theorem ephemera_sweep {sweep : Sweep} :
    row ∈ (db.sweep sweep now).ephemera table ↔
      row ∈ db.ephemera table ∧ (sweep = .ephemera table → sweep.limit now ≤ row.ts) := by
  cases sweep with
  | heartbeats => cases table <;> simp [Database.ephemera, Database.sweep]
  | receipts => cases table <;> simp [Database.ephemera, Database.sweep]
  | ephemera swept =>
      cases swept <;> cases table <;>
        simp only [Database.ephemera, Database.sweep, Ephemeron.mem_map_deleteBefore,
          reduceCtorEq, Sweep.ephemera.injEq, false_implies, true_implies, and_true]

@[simp] theorem isLive_sweep {sweep : Sweep} :
    (db.sweep sweep now).isLive taskRef = db.isLive taskRef := by
  have htasks : (db.sweep sweep now).tasks = db.tasks := by
    rcases sweep with _ | _ | _ | _ | _ <;> rfl
  rw [Database.isLive, htasks, Database.isLive]

end Writes

/-- The batch that a request applies. -/
def acceptedBatch (codec : Codec) (principal : Principal) (body : Bytes) (now : TimestampMs)
    (db : Database) : Option IngestBatch :=
  match (ingest codec principal body now db).1, codec.decodeBatchWithPayload body with
  | .ack reply, .ok decoded => if reply.duplicate then none else some decoded.batch
  | _, _ => none

theorem acceptedBatch_cases (codec : Codec) (principal : Principal) (body : Bytes)
    (now : TimestampMs) (db : Database) :
    (∃ batch sha, acceptedBatch codec principal body now db = some batch ∧
      Accepts principal batch db ∧
      (ingest codec principal body now db).2 = applied db batch sha now) ∨
    (acceptedBatch codec principal body now db = none ∧
      (ingest codec principal body now db).2 = db) := by
  rw [acceptedBatch]
  rcases ingest_cases codec principal body now db with
    ⟨decoded, hdecode, haccepts, heq⟩ | ⟨decoded, receipt, hdecode, -, heq⟩ | ⟨status, heq⟩
  · exact .inl ⟨decoded.batch, decoded.payloadSha256, by simp [heq, hdecode], haccepts, by rw [heq]⟩
  · rw [heq, hdecode]
    by_cases hsha : receipt.payloadSha256 = decoded.payloadSha256 <;> simp [hsha]
  · rw [heq]
    exact .inr ⟨rfl, rfl⟩

namespace Cleanup

/-! ## Runs -/

/-- The database, and the rows that were ingested. -/
structure World where
  db : Database
  ingested : Ephemera → List Ephemeron

inductive Event
  | ingest (principal : Principal) (body : Bytes) (now : TimestampMs)
  | sweep (sweep : Sweep) (now : TimestampMs)

def step (codec : Codec) (w : World) : Event → World
  | .ingest principal body now =>
      { db := (Server.ingest codec principal body now w.db).2
        ingested := fun table => w.ingested table ++
          (acceptedBatch codec principal body now w.db).elim [] (ephemera · table) }
  | .sweep sweep now => { w with db := w.db.sweep sweep now }

/-- A cleanup that no request interrupts. -/
theorem run_sweeps (codec : Codec) (w : World) (now : TimestampMs) :
    Run.run (step codec) w (sweeps.map (.sweep · now)) = ⟨cleanupRetention w.db now, w.ingested⟩ :=
  rfl

/-- Every row that was ingested for a running task is there. -/
def Retained (w : World) : Prop :=
  ∀ table, ∀ row ∈ w.ingested table, w.db.isLive row.taskRef = true →
    row.IsIn (w.db.ephemera table)

/-- The event is a cleanup at `now`. -/
def Event.cleansAt : Event → TimestampMs → Prop
  | .ingest .., _ => False
  | .sweep _ time, now => time = now

/-- What a step removes is old. -/
structure RemovesOld (e : Event) (db db' : Database) : Prop where
  ephemera : ∀ table, ∀ row ∈ db.ephemera table, row.IsIn (db'.ephemera table) ∨
    ∃ now, e.cleansAt now ∧ row.ts < now - EPHEMERA_RETENTION_MS
  heartbeats : ∀ id heartbeat, db.heartbeats.get? id = some heartbeat →
    db'.heartbeats.get? id = some heartbeat ∨
      ∃ now, e.cleansAt now ∧ heartbeat.observedAtMs < now - HEARTBEAT_RETENTION_MS
  receipts : ∀ key receipt, db.ingestReceipts.get? key = some receipt →
    db'.ingestReceipts.get? key = some receipt ∨
      ∃ now, e.cleansAt now ∧ receipt.receivedAtMs < now - RECEIPT_RETENTION_MS

/-- A batch reuses no identifier for another task, and it brings no task back that lost
rows. -/
structure KeepsOwners (w : World) (batch : IngestBatch) : Prop where
  stored : ∀ table, ∀ new ∈ ephemera batch table, ∀ row ∈ w.db.ephemera table,
    row.id = new.id → row.taskRef = new.taskRef
  distinct : ∀ table, ∀ new ∈ ephemera batch table, ∀ new' ∈ ephemera batch table,
    new.id = new'.id → new.taskRef = new'.taskRef
  revived : ∀ u ∈ batch.tasks, u.snapshot.phase ≠ .terminal →
    w.db.isLive u.snapshot.taskRef = false →
    ∀ table, ∀ row ∈ w.ingested table, row.taskRef = u.snapshot.taskRef →
      row.IsIn (w.db.ephemera table)

/-- A deletion finds no row of a running task that is old enough, and its limit is in the
range of the clock. -/
structure FindsNone (db : Database) (sweep : Sweep) (now : TimestampMs) : Prop where
  range : sweep.limit now = now - sweep.retentionMs
  live : ∀ table, sweep = .ephemera table → ∀ row ∈ db.ephemera table,
    row.ts < sweep.limit now → db.isLive row.taskRef = false

def Spares (codec : Codec) (w : World) : Event → Prop
  | .ingest principal body now =>
      ∀ batch ∈ acceptedBatch codec principal body now w.db, KeepsOwners w batch
  | .sweep sweep now => FindsNone w.db sweep now

instance (w : World) (batch : IngestBatch) : Decidable (KeepsOwners w batch) :=
  decidable_of_iff (_ ∧ _ ∧ _) ⟨fun h => ⟨h.1, h.2.1, h.2.2⟩, fun h => ⟨h.1, h.2, h.3⟩⟩

instance (db : Database) (sweep : Sweep) (now : TimestampMs) :
    Decidable (FindsNone db sweep now) :=
  decidable_of_iff (_ ∧ _) ⟨fun h => ⟨h.1, h.2⟩, fun h => ⟨h.1, h.2⟩⟩

instance (codec : Codec) (w : World) : (e : Event) → Decidable (Spares codec w e)
  | .ingest principal body now => inferInstanceAs (Decidable
      (∀ batch ∈ acceptedBatch codec principal body now w.db, KeepsOwners w batch))
  | .sweep sweep now => inferInstanceAs (Decidable (FindsNone w.db sweep now))

section Steps
variable {codec : Codec} {w : World} {batch : IngestBatch} {sha : String} {now : TimestampMs}

/-- A batch that keeps the owners leaves every row in its place. -/
theorem KeepsOwners.isIn_applied (h : KeepsOwners w batch) {table : Ephemera} {row : Ephemeron}
    (hrow : row.IsIn (w.db.ephemera table)) :
    row.IsIn ((applied w.db batch sha now).ephemera table) := by
  obtain ⟨stored, hstored, hid, href⟩ := hrow
  by_cases hfree : ∀ new ∈ ephemera batch table, new.id ≠ stored.id
  · exact ⟨stored, mem_applied_of_mem hstored hfree, hid, href⟩
  · push Not at hfree
    obtain ⟨new, hnew, hsame⟩ := hfree
    obtain ⟨last, hlast, hlastId, happlied⟩ := exists_mem_applied_of_mem w.db sha now hnew
    have howner := h.stored table last hlast stored hstored (hlastId.trans hsame).symm
    exact ⟨last, happlied, (hlastId.trans hsame).trans hid, howner.symm.trans href⟩

theorem KeepsOwners.isIn_of_mem (h : KeepsOwners w batch) {table : Ephemera} {row : Ephemeron}
    (hrow : row ∈ ephemera batch table) :
    row.IsIn ((applied w.db batch sha now).ephemera table) := by
  obtain ⟨last, hlast, hid, happlied⟩ := exists_mem_applied_of_mem w.db sha now hrow
  exact ⟨last, happlied, hid, h.distinct table last hlast row hrow hid⟩

theorem KeepsOwners.retained (h : KeepsOwners w batch) (hw : Retained w) :
    Retained ⟨applied w.db batch sha now,
      fun table => w.ingested table ++ ephemera batch table⟩ := by
  intro table row hrow hlive
  obtain hold | hnew := List.mem_append.mp hrow
  · apply h.isIn_applied
    cases hbefore : w.db.isLive row.taskRef with
    | true => exact hw table row hold hbefore
    | false =>
        obtain habsurd | ⟨u, hu, href, hphase⟩ := isLive_of_applied hlive
        · cases hbefore.symm.trans habsurd
        · exact h.revived u hu hphase (href ▸ hbefore) table row hold href.symm
  · exact h.isIn_of_mem hnew

/-- A step that spares the rows of running tasks keeps them. -/
theorem retained_step (e : Event) (hw : Retained w) (he : Spares codec w e) :
    Retained (step codec w e) := by
  cases e with
  | ingest principal body now =>
      rw [step]
      rcases acceptedBatch_cases codec principal body now w.db with
        ⟨batch, sha, hbatch, -, heq⟩ | ⟨hnone, heq⟩
      · rw [hbatch, heq]
        exact (he batch hbatch).retained hw
      · rw [hnone, heq]
        simpa [Retained] using hw
  | sweep sweep now =>
      intro table row hrow hlive
      rw [step, isLive_sweep] at hlive
      obtain ⟨stored, hstored, hid, href⟩ := hw table row hrow hlive
      refine ⟨stored, ephemera_sweep.mpr ⟨hstored, fun hsweep => ?_⟩, hid, href⟩
      by_contra hold
      have hdead := he.live table hsweep stored hstored (not_le.mp hold)
      rw [href, hlive] at hdead
      cases hdead

theorem get?_deleteBefore {κ ν : Type} [DecidableEq κ] {table : Table κ ν} {key : κ} {row : ν}
    (time : ν → TimestampMs) (limit : TimestampMs) (hrow : table.get? key = some row) :
    (deleteBefore table time limit).get? key = some row ∨ time row < limit := by
  rw [deleteBefore, Table.get?_deleteWhere, hrow]
  by_cases hold : time row < limit
  · exact .inr hold
  · exact .inl (by simp [hold])

/-- Whatever it removes, a step that spares the rows of running tasks removes by age. -/
theorem removesOld_step (e : Event) (he : Spares codec w e) :
    RemovesOld e w.db (step codec w e).db := by
  cases e with
  | ingest principal body now =>
      rw [step]
      rcases acceptedBatch_cases codec principal body now w.db with
        ⟨batch, sha, hbatch, haccepts, heq⟩ | ⟨hnone, heq⟩
      · rw [heq]
        refine ⟨?_, ?_, ?_⟩
        · intro table row hrow
          exact .inl ((he batch hbatch).isIn_applied (Ephemeron.isIn_of_mem hrow))
        · intro id heartbeat hstored
          have hfree : id ∉ (batch.heartbeats.map fun h => (h.heartbeatId, h)).map Prod.fst := by
            intro hmem
            rw [List.map_map] at hmem
            obtain ⟨new, hnew, rfl⟩ := List.mem_map.mp hmem
            cases hstored.symm.trans (haccepts.heartbeats.2 new hnew)
          exact .inl (by rw [applied_heartbeats, Table.get?_putAll_of_not_mem hfree, hstored])
        · intro key receipt hstored
          have hne : key ≠ (batch.client.clientId, batch.batchId) := by
            rintro rfl
            rw [haccepts.clientId, haccepts.noReceipt] at hstored
            cases hstored
          exact .inl (by rw [applied_ingestReceipts, Table.get?_put_of_ne hne, hstored])
      · rw [heq]
        exact ⟨fun _ _ hrow => .inl (Ephemeron.isIn_of_mem hrow), fun _ _ => .inl, fun _ _ => .inl⟩
  | sweep sweep now =>
      refine ⟨?_, ?_, ?_⟩
      · intro table row hrow
        by_cases hkept : sweep = .ephemera table → sweep.limit now ≤ row.ts
        · exact .inl (Ephemeron.isIn_of_mem (ephemera_sweep.mpr ⟨hrow, hkept⟩))
        · push Not at hkept
          obtain ⟨rfl, hold⟩ := hkept
          rw [he.range] at hold
          exact .inr ⟨now, rfl, hold⟩
      · intro id heartbeat hstored
        rcases sweep with _ | _ | _ | _ | _
        · obtain hkept | hold := get?_deleteBefore Heartbeat.observedAtMs
            (Sweep.heartbeats.limit now) hstored
          · exact .inl hkept
          · rw [he.range] at hold
            exact .inr ⟨now, rfl, hold⟩
        all_goals exact .inl hstored
      · intro key receipt hstored
        rcases sweep with _ | _ | _ | _ | _
        · exact .inl hstored
        · obtain hkept | hold := get?_deleteBefore ReceiptRow.receivedAtMs
            (Sweep.receipts.limit now) hstored
          · exact .inl hkept
          · rw [he.range] at hold
            exact .inr ⟨now, rfl, hold⟩
        all_goals exact .inl hstored

end Steps

/-- In every state of the run the rows of running tasks are there, and every step removes
only what is old. -/
structure KeepsLive (codec : Codec) (w : World) (events : List Event) : Prop where
  retained : ∀ done, done <+: events → Retained (Run.run (step codec) w done)
  removed : Run.Each (step codec) (fun w e => RemovesOld e w.db (step codec w e).db) w events

/-- Steps that spare the rows of running tasks keep them. -/
theorem keepsLive_run {codec : Codec} {db : Database} {events : List Event}
    (h : Run.Each (step codec) (Spares codec) ⟨db, fun _ => []⟩ events) :
    KeepsLive codec ⟨db, fun _ => []⟩ events := by
  refine ⟨?_, h.mono fun w e he => removesOld_step e he⟩
  intro done hdone
  obtain ⟨rest, rfl⟩ := hdone
  refine Run.invariant_of_each (I := Retained) (fun w e => retained_step e) ?_
    (Run.each_append.mp h).1
  intro table row hrow
  cases hrow

/-! ## A long task -/

/-- A running task with one event, at time 10. -/
def longBatch : IngestBatch :=
  { sampleBatch "a" "u" 0 1 with
    tasks := [⟨sampleSnapshot "u" 1, [], [TaskReducer.plainEvent 1 .attemptStarted .running], [],
      []⟩] }

/-- The task is ingested, and there is a cleanup at `now`. -/
def longRun (now : TimestampMs) : List Event :=
  .ingest ⟨"a", .client⟩ [0] 20 :: sweeps.map (.sweep · now)

/-- The cleanup comes in time. -/
theorem keepsLive_recent : KeepsLive (.numbered [longBatch]) ⟨.empty, fun _ => []⟩
    (longRun EPHEMERA_RETENTION_MS) :=
  keepsLive_run (by decide +kernel)

/-- The cleanup comes 180 days after the event, and the task still runs. -/
theorem not_keepsLive_old :
    ¬ ∀ (codec : Codec) (events : List Event), KeepsLive codec ⟨.empty, fun _ => []⟩ events := by
  intro h
  have hretained := (h (.numbered [longBatch]) (longRun (EPHEMERA_RETENTION_MS + 11))).retained _
    List.prefix_rfl
  have hlost : ¬ Ephemeron.IsIn ⟨.v7 1, "s:t:u", 10⟩ ((Run.run (step (.numbered [longBatch]))
      ⟨.empty, fun _ => []⟩ (longRun (EPHEMERA_RETENTION_MS + 11))).db.ephemera .taskEvents) := by
    decide +kernel
  exact hlost (hretained .taskEvents _ (by decide +kernel) (by decide +kernel))

end Cleanup

end Codexwatch.Server
