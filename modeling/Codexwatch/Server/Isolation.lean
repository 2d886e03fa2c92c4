import Codexwatch.Server.Ingest

/-!
# Which rows an ingest request can reach

A bearer token is bound to one client, and `ingest` refuses a batch of another
client. Of the rows it then writes, only those of `sessions` and `ingest_receipts`
have the client in their key. The keys of the other tables are chosen by the client:
a task reference, a UUID. A batch that names a key of another client's row replaces
that row.

`isolated_ingest_iff` says exactly when a request leaves the rows of all other
clients alone.

## Main definitions

* `TaskOfOther db b ref` — the task is stored for another client than `b`.
* `Isolated b db db'` — every row of another client than `b` is kept.
* `ForeignFree b db batch` — the batch names no key of another client's row.
-/
namespace Codexwatch.Server

open Protocol Relational

def TaskOfOther (db : Database) (b taskRef : String) : Prop :=
  ∃ row, db.tasks.get? taskRef = some row ∧ row.clientId ≠ b

/-- The rows of every client but `b` are present and unchanged in `db'`. A row that
names only a task belongs to the client that the task is stored for. -/
structure Isolated (b : String) (db db' : Database) : Prop where
  tasks : Table.Kept (fun _ row => row.clientId ≠ b) db.tasks db'.tasks
  codexTasks : Table.Kept (fun ref _ => TaskOfOther db b ref) db.codexTasks db'.codexTasks
  attempts : Table.Kept (fun _ row => TaskOfOther db b row.taskRef) db.attempts db'.attempts
  taskEvents : Table.Kept (fun _ row => TaskOfOther db b row.taskRef) db.taskEvents db'.taskEvents
  errors : Table.Kept (fun _ row => TaskOfOther db b row.taskRef) db.errors db'.errors
  captureGaps :
    Table.Kept (fun _ row => TaskOfOther db b row.taskRef) db.captureGaps db'.captureGaps
  clientInstances :
    Table.Kept (fun _ row => row.clientId ≠ b) db.clientInstances db'.clientInstances
  sessions : Table.Kept (fun key _ => key.1 ≠ b) db.sessions db'.sessions
  ingestReceipts : Table.Kept (fun key _ => key.1 ≠ b) db.ingestReceipts db'.ingestReceipts

theorem Isolated.refl (b : String) (db : Database) : Isolated b db db :=
  ⟨.refl _, .refl _, .refl _, .refl _, .refl _, .refl _, .refl _, .refl _, .refl _⟩

/-- No identifier of the list has a row that belongs to a task of another client. -/
def PayloadsFree {α : Type} (b : String) (db : Database) (table : Table Uuid (PayloadRow α))
    (batch : IngestBatch) (items : TaskUpload → List α) (idFn : α → Uuid) : Prop :=
  ∀ u ∈ batch.tasks, ∀ item ∈ items u, ∀ row, table.get? (idFn item) = some row →
    ¬ TaskOfOther db b row.taskRef

/-- The batch names no key of a row of another client than `b`, except that it may
describe another client's instance as it is stored already. -/
structure ForeignFree (b : String) (db : Database) (batch : IngestBatch) : Prop where
  tasks : ∀ u ∈ batch.tasks, ¬ TaskOfOther db b u.snapshot.taskRef
  attempts : PayloadsFree b db db.attempts batch TaskUpload.attempts AttemptRecord.attemptId
  taskEvents : PayloadsFree b db db.taskEvents batch TaskUpload.events TaskEvent.eventId
  errors : PayloadsFree b db db.errors batch TaskUpload.errors ErrorRecord.errorId
  captureGaps : PayloadsFree b db db.captureGaps batch TaskUpload.gaps CaptureGapRecord.gapId
  clientInstance : ∀ row, db.clientInstances.get? batch.client.instanceId = some row →
    row.clientId ≠ b →
      row.hostname = batch.client.hostname ∧ row.platform = batch.client.platform ∧
        row.codexVersion = batch.client.codexVersion ∧ row.lastSeenAtMs = batch.generatedAtMs

/-! ## Table by table -/

section Applied
variable {b : String} {db : Database} {batch : IngestBatch}

/-- A written task row is the batch's client's, so no foreign task may be written. -/
theorem kept_tasks_iff (hb : batch.client.clientId = b) :
    Table.Kept (fun _ row => row.clientId ≠ b) db.tasks (db.tasks.putAll (taskRows batch)) ↔
      ∀ u ∈ batch.tasks, ¬ TaskOfOther db b u.snapshot.taskRef := by
  have hkeys : (taskRows batch).map Prod.fst = batch.tasks.map fun u => u.snapshot.taskRef := by
    simp [taskRows, Function.comp_def]
  constructor
  · rintro hkept u hu ⟨row, hrow, hother⟩
    have hmem : u.snapshot.taskRef ∈ (taskRows batch).map Prod.fst := by
      rw [hkeys]
      exact List.mem_map_of_mem hu
    obtain ⟨v, hv, hget⟩ := Table.get?_putAll_of_mem (t := db.tasks) hmem
    rw [hkept _ row hrow hother] at hget
    obtain rfl := Option.some.inj hget
    obtain ⟨u', -, hu'⟩ := List.mem_map.mp hv
    apply hother
    rw [← (Prod.mk.inj hu').2, ← hb]
    rfl
  · intro hfree
    refine Table.kept_putAll_of_not_mem fun ref row hrow hother hmem => ?_
    rw [hkeys] at hmem
    obtain ⟨u, hu, rfl⟩ := List.mem_map.mp hmem
    exact hfree u hu ⟨row, hrow, hother⟩

/-- A written payload row belongs to a task of the batch, so when those are not
foreign, no foreign payload row may be written. -/
theorem kept_payloads_iff {α : Type} {table : Table Uuid (PayloadRow α)}
    {items : TaskUpload → List α} {idFn : α → Uuid} {tsFn : α → TimestampMs}
    (htasks : ∀ u ∈ batch.tasks, ¬ TaskOfOther db b u.snapshot.taskRef) :
    Table.Kept (fun _ row => TaskOfOther db b row.taskRef) table
        (table.putAll (payloadRows batch items idFn tsFn)) ↔
      PayloadsFree b db table batch items idFn := by
  constructor
  · intro hkept u hu item hitem row hrow hother
    have hmem : idFn item ∈ (payloadRows batch items idFn tsFn).map Prod.fst := by
      refine List.mem_map.mpr ⟨(idFn item, ⟨u.snapshot.taskRef, tsFn item, item⟩), ?_, rfl⟩
      exact List.mem_flatMap.mpr ⟨u, hu, List.mem_map_of_mem hitem⟩
    obtain ⟨v, hv, hget⟩ := Table.get?_putAll_of_mem (t := table) hmem
    rw [hkept _ row hrow hother] at hget
    obtain rfl := Option.some.inj hget
    obtain ⟨u', hu', hv'⟩ := List.mem_flatMap.mp hv
    obtain ⟨item', -, heq⟩ := List.mem_map.mp hv'
    rw [← (Prod.mk.inj heq).2] at hother
    exact htasks u' hu' hother
  · intro hfree
    refine Table.kept_putAll_of_not_mem fun id row hrow hother hmem => ?_
    obtain ⟨r, hr, rfl⟩ := List.mem_map.mp hmem
    obtain ⟨u, hu, hr'⟩ := List.mem_flatMap.mp hr
    obtain ⟨item, hitem, rfl⟩ := List.mem_map.mp hr'
    exact hfree u hu item hitem row hrow hother

/-- The upsert of an instance keeps its client and its start time. -/
theorem kept_clientInstances_iff :
    Table.Kept (fun _ row => row.clientId ≠ b) db.clientInstances
        (persistClient db batch).clientInstances ↔
      ∀ row, db.clientInstances.get? batch.client.instanceId = some row → row.clientId ≠ b →
        row.hostname = batch.client.hostname ∧ row.platform = batch.client.platform ∧
          row.codexVersion = batch.client.codexVersion ∧
          row.lastSeenAtMs = batch.generatedAtMs := by
  rw [persistClient, Table.upsert, Table.kept_put_iff]
  refine forall_congr' fun row => imp_congr_right fun hrow => imp_congr_right fun _ => ?_
  rw [hrow]
  obtain ⟨clientId, hostname, platform, codexVersion, startedAtMs, lastSeenAtMs⟩ := row
  simp

theorem kept_sessions (hb : batch.client.clientId = b) (sha : String) (now : TimestampMs) :
    Table.Kept (fun key _ => key.1 ≠ b) db.sessions (applied db batch sha now).sessions := by
  have hfold := foldl_persistTaskUpload batch.client.clientId Database.sessions
    (fun t u => t.upsert (batch.client.clientId, u.snapshot.identity.provider,
      u.snapshot.identity.sessionId, u.snapshot.identity.threadId)
      ⟨u.snapshot.startedAtMs, u.snapshot.updatedAtMs⟩
      fun old => { old with lastSeenAtMs := u.snapshot.updatedAtMs })
    (fun _ _ => rfl) batch.tasks (persistClient db batch)
  have hsessions : (applied db batch sha now).sessions = _ := hfold
  rw [hsessions]
  refine List.foldlRecOn batch.tasks _ (.refl _) fun t ht u _ => ht.trans ?_
  refine Table.kept_put_iff.mpr fun old _ hother => absurd hb hother

end Applied

/-! ## One request -/

/-- An accepted batch leaves the other clients' rows alone when it names none of their
keys. -/
theorem isolated_applied_iff {b : String} {db : Database} {batch : IngestBatch} {sha : String}
    {now : TimestampMs} (hb : batch.client.clientId = b) :
    Isolated b db (applied db batch sha now) ↔ ForeignFree b db batch := by
  constructor
  · intro h
    have htasks := (kept_tasks_iff hb).mp (applied_tasks db batch sha now ▸ h.tasks)
    exact {
      tasks := htasks
      attempts := (kept_payloads_iff htasks).mp (applied_attempts db batch sha now ▸ h.attempts)
      taskEvents :=
        (kept_payloads_iff htasks).mp (applied_taskEvents db batch sha now ▸ h.taskEvents)
      errors := (kept_payloads_iff htasks).mp (applied_errors db batch sha now ▸ h.errors)
      captureGaps :=
        (kept_payloads_iff htasks).mp (applied_captureGaps db batch sha now ▸ h.captureGaps)
      clientInstance := kept_clientInstances_iff.mp
        (applied_clientInstances db batch sha now ▸ h.clientInstances) }
  · intro h
    have hcodex : Table.Kept (fun ref _ => TaskOfOther db b ref) db.codexTasks
        (applied db batch sha now).codexTasks := by
      rw [applied_codexTasks]
      refine Table.kept_putAll_of_not_mem fun ref _ _ hother hmem => ?_
      rw [List.map_map] at hmem
      obtain ⟨u, hu, rfl⟩ := List.mem_map.mp hmem
      exact h.tasks u hu hother
    exact {
      tasks := by
        rw [applied_tasks]
        exact (kept_tasks_iff hb).mpr h.tasks
      codexTasks := hcodex
      attempts := by
        rw [applied_attempts]
        exact (kept_payloads_iff h.tasks).mpr h.attempts
      taskEvents := by
        rw [applied_taskEvents]
        exact (kept_payloads_iff h.tasks).mpr h.taskEvents
      errors := by
        rw [applied_errors]
        exact (kept_payloads_iff h.tasks).mpr h.errors
      captureGaps := by
        rw [applied_captureGaps]
        exact (kept_payloads_iff h.tasks).mpr h.captureGaps
      clientInstances := by
        rw [applied_clientInstances]
        exact kept_clientInstances_iff.mpr h.clientInstance
      sessions := kept_sessions hb sha now
      ingestReceipts := Table.kept_put_iff.mpr fun _ _ hother => absurd hb hother }

/-- A decodable request leaves the rows of all other clients alone exactly when it is not
applied or names no key of such a row. -/
theorem isolated_ingest_iff {codec : Codec} {principal : Principal} {body : Bytes}
    {decoded : DecodedBatch} {now : TimestampMs} {db : Database}
    (hdecode : codec.decodeBatchWithPayload body = .ok decoded) :
    Isolated principal.clientId db (ingest codec principal body now db).2 ↔
      ¬ Accepts principal decoded.batch db ∨
        ForeignFree principal.clientId db decoded.batch := by
  by_cases h : Accepts principal decoded.batch db
  · rw [ingest_of_accepts hdecode h, isolated_applied_iff h.clientId]
    simp [h]
  · rw [ingest_of_not_accepts hdecode h]
    simp [h, Isolated.refl]

/-- The server after client `a`'s first batch. -/
def serverOfA : Database :=
  applied Database.empty (sampleBatch "a" "u" 1 1) "" 20

def clientB : Principal := ⟨"b", .client⟩

theorem payloadsFree_of_nil {α : Type} {b : String} {db : Database}
    {table : Table Uuid (PayloadRow α)} {batch : IngestBatch} {items : TaskUpload → List α}
    {idFn : α → Uuid} (h : ∀ u ∈ batch.tasks, items u = []) :
    PayloadsFree b db table batch items idFn := by
  intro u hu item hitem
  rw [h u hu] at hitem
  exact absurd hitem List.not_mem_nil

/-- Client `b` uploads another task. -/
theorem isolated_ingest_otherTask :
    Isolated clientB.clientId serverOfA
      (ingest (.numbered [sampleBatch "b" "v" 2 1]) clientB [0] 30 serverOfA).2 := by
  have hdecode : (Codec.numbered [sampleBatch "b" "v" 2 1]).decodeBatchWithPayload [0] =
      .ok ⟨sampleBatch "b" "v" 2 1, Text.hexEncode (List.replicate 32 0), [0]⟩ := by
    decide +kernel
  have htask : serverOfA.tasks.get? "s:t:v" = none := by decide +kernel
  have hinstance : serverOfA.clientInstances.get? (.v7 2) = none := by decide +kernel
  refine (isolated_ingest_iff hdecode).mpr (.inr ⟨?_, payloadsFree_of_nil (by decide),
    payloadsFree_of_nil (by decide), payloadsFree_of_nil (by decide),
    payloadsFree_of_nil (by decide), ?_⟩)
  · rintro u hu ⟨row, hrow, -⟩
    obtain rfl := List.mem_singleton.mp hu
    exact absurd (htask.symm.trans hrow) (by simp)
  · intro row hrow
    exact absurd (hinstance.symm.trans hrow) (by simp)

/-- Client `b` uploads a task with the reference of `a`'s task, and owns the row from
then on. -/
theorem not_isolated_ingest_sameTask :
    (sampleBatch "b" "u" 2 1).validate = .ok () ∧
      ¬ Isolated clientB.clientId serverOfA
        (ingest (.numbered [sampleBatch "b" "u" 2 1]) clientB [0] 30 serverOfA).2 := by
  refine ⟨by decide +kernel, fun h => ?_⟩
  have hbefore : serverOfA.tasks.get? "s:t:u" = some (taskRowOf "a" (sampleSnapshot "u" 1)) := by
    decide +kernel
  have hafter := h.tasks _ _ hbefore (by decide)
  revert hafter
  decide +kernel

end Codexwatch.Server
