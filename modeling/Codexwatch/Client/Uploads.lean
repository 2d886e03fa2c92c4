import Codexwatch.Client.Persistence

/-!
# What an input uploads

The uploads that one transaction of `persist_ingress` leaves in the outbox, task by
task. An upload shows the row as the transaction leaves it, with one event for each
transition of its chunk.

## Main definitions

* `wireBatches`, `persistedUploads` — the batches of a transaction and their uploads.
* `uploadOf` — the upload of a task in a batch.

## Main results

* `enqueued_persistedUploads` — they are in the outbox, encoded.
* `row_of_mem_persistedUploads` — they show the rows that are stored.
-/
namespace Codexwatch.Client

open Protocol Capture Relational

section Uploads
variable (client : ClientInstance) (codec : Codec) (t : Tick) (s : Store)

/-- The batches of the accepted records, one for each chunk. -/
def wireBatches (records : List SummaryRecord) : List IngestBatch :=
  (splitRecords records).zipIdx.map fun r => buildWireBatch client t s r.2 r.1

/-- The uploads of a transaction that commits. -/
def persistedUploads (records : List SummaryRecord) (contents : List StoredContentInput) :
    List TaskUpload :=
  if (persistIngress client codec t s records contents).1.isSome then
    (wireBatches client t (writtenStore codec s records contents)
      (applyRecords s (records.map (normalizeRecord codec))).1).flatMap IngestBatch.tasks
  else []

end Uploads

/-! ## The outbox -/

section Outbox
variable {client : ClientInstance} {codec : Codec} {t : Tick} {s : Store}

/-- The encoding of the batch is in the outbox. -/
def Holds (codec : Codec) (o : Outbox) (batch : IngestBatch) : Prop :=
  ∃ encoded row, codec.encodeBatch batch = .ok encoded ∧
    o.outbox.get? encoded.batchId = some row ∧ row.body = encoded.bytes

/-- A chunk that is enqueued keeps the rows, and adds its own unless its batch is empty. -/
theorem holds_enqueueChunk {priority : Bool} {inserted inserted' : ℕ × Outbox}
    {records : List SummaryRecord × ℕ}
    (h : enqueueChunk client codec t s priority inserted records = some inserted') :
    (∀ batch, Holds codec inserted.2 batch → Holds codec inserted'.2 batch) ∧
      ((buildWireBatch client t s records.2 records.1).tasks ≠ [] →
        Holds codec inserted'.2 (buildWireBatch client t s records.2 records.1)) := by
  simp only [enqueueChunk] at h
  split at h
  · rename_i hempty
    cases h
    exact ⟨fun _ hheld => hheld, fun htasks => absurd hempty.1 htasks⟩
  · split at h
    · cases h
    · rename_i encoded hencode
      split at h
      · rcases Option.map_eq_some_iff.mp h with ⟨o, ho, rfl⟩
        rcases Option.map_eq_some_iff.mp ho with ⟨table, htable, rfl⟩
        rcases Table.insertNew_eq_some.mp htable with ⟨hfresh, rfl⟩
        refine ⟨fun batch hheld => ?_, fun _ => ⟨encoded, _, hencode, Table.get?_put_self .., rfl⟩⟩
        rcases hheld with ⟨encoded', row, hencode', hrow, hbody⟩
        refine ⟨encoded', row, hencode', ?_, hbody⟩
        rw [Table.get?_put_of_ne]
        · exact hrow
        · intro heq
          rw [heq, hfresh] at hrow
          cases hrow
      · cases h

/-- Every batch of a transaction that has uploads is enqueued. -/
theorem holds_enqueueRecords {records : List SummaryRecord} {inserted : ℕ} {outbox : Outbox}
    (h : enqueueRecords client codec t s records = some (inserted, outbox)) {batch : IngestBatch}
    (hbatch : batch ∈ wireBatches client t s records) (htasks : batch.tasks ≠ []) :
    Holds codec outbox batch := by
  have hfold : ∀ (chunks : List (List SummaryRecord × ℕ)) (start result : ℕ × Outbox),
      chunks.foldlM (enqueueChunk client codec t s (records.any isPriorityRecord)) start =
        some result →
      (∀ batch, Holds codec start.2 batch → Holds codec result.2 batch) ∧
        ∀ chunk ∈ chunks, (buildWireBatch client t s chunk.2 chunk.1).tasks ≠ [] →
          Holds codec result.2 (buildWireBatch client t s chunk.2 chunk.1) := by
    intro chunks
    induction chunks with
    | nil =>
        intro start result hresult
        cases hresult
        exact ⟨fun _ hheld => hheld, by simp⟩
    | cons chunk chunks ih =>
        intro start result hresult
        rw [List.foldlM_cons] at hresult
        rcases Option.bind_eq_some_iff.mp hresult with ⟨middle, hmiddle, hrest⟩
        have hfirst := holds_enqueueChunk hmiddle
        have hkept := ih middle result hrest
        refine ⟨fun batch hheld => hkept.1 batch (hfirst.1 batch hheld), ?_⟩
        intro other hother hne
        rcases List.mem_cons.mp hother with rfl | hmem
        · exact hkept.1 _ (hfirst.2 hne)
        · exact hkept.2 other hmem hne
  rcases List.mem_map.mp hbatch with ⟨chunk, hchunk, rfl⟩
  exact (hfold _ _ _ h).2 chunk hchunk htasks

/-- The uploads of a transaction are in the outbox that it leaves. -/
theorem enqueued_persistedUploads {records : List SummaryRecord}
    {contents : List StoredContentInput} {upload : TaskUpload}
    (h : upload ∈ persistedUploads client codec t s records contents) :
    ∃ batch, upload ∈ batch.tasks ∧
      Holds codec (persistIngress client codec t s records contents).2.outbox batch := by
  rw [persistedUploads] at h
  split at h
  · rename_i hdone
    rcases List.mem_flatMap.mp h with ⟨batch, hbatch, hmem⟩
    refine ⟨batch, hmem, ?_⟩
    rcases persistIngress_cases client codec t s records contents with
      ⟨hfailed, -⟩ | ⟨inserted, outbox, henqueue, -, hwritten⟩
    · simp [hfailed] at hdone
    · rw [hwritten]
      exact holds_enqueueRecords henqueue hbatch (List.ne_nil_of_mem hmem)
  · cases h

/-- Every upload of a transaction shows the row that it leaves. -/
theorem row_of_mem_persistedUploads {records : List SummaryRecord}
    {contents : List StoredContentInput} {upload : TaskUpload}
    (h : upload ∈ persistedUploads client codec t s records contents) :
    ∃ row errorId, (writtenStore codec s records contents).activeTasks.get?
        upload.snapshot.taskRef = some row ∧
      upload.snapshot = row.snapshot errorId upload.snapshot.taskRef := by
  rw [persistedUploads] at h
  split at h
  · obtain ⟨sent, hsent, hmem⟩ := List.mem_flatMap.mp h
    obtain ⟨chunk, -, rfl⟩ := List.mem_map.mp hsent
    exact row_of_mem_buildWireBatch hmem
  · cases h

/-- An upload has passed the checks of the protocol. -/
theorem valid_of_mem_persistedUploads {records : List SummaryRecord}
    {contents : List StoredContentInput} {upload : TaskUpload}
    (h : upload ∈ persistedUploads client codec t s records contents) : upload.Valid := by
  rcases enqueued_persistedUploads h with ⟨batch, hmem, encoded, row, hencode, -⟩
  exact (Codec.encodeBatch_eq_ok_iff.mp hencode).1.task upload hmem

end Outbox

/-! ## The upload of a task -/

/-- The event of a transition in a chunk. -/
def eventOf (t : Tick) (chunk : ℕ) (record : SummaryRecord × ℕ) : Option TaskEvent :=
  match record.1 with
  | .taskTransition transition =>
      some (mapTransitionEvent (t.ids (.record chunk record.2)) transition)
  | _ => none

/-- The only value with a key, among those of distinct keys. -/
theorem filter_filterMap_key {α β : Type} [DecidableEq α] {l : List α} (hnodup : l.Nodup)
    {f : α → Option β} {key : β → α} (hkey : ∀ a b, f a = some b → key b = a) (a : α) :
    (l.filterMap f).filter (fun b => key b = a) = if a ∈ l then (f a).toList else [] := by
  induction l with
  | nil => rfl
  | cons first l ih =>
      rw [List.nodup_cons] at hnodup
      have hrest := ih hnodup.2
      by_cases heq : a = first
      · subst heq
        rw [if_neg hnodup.1] at hrest
        cases hf : f a with
        | none => simp [hf, hrest]
        | some b => simp [hf, hkey a b hf, hrest]
      · have hmem : a ∈ first :: l ↔ a ∈ l := by simp [heq]
        simp only [hmem, ← hrest]
        cases hf : f first with
        | none => simp [hf]
        | some b => simp [hf, hkey first b hf, Ne.symm heq]

section Chunk
variable {client : ClientInstance} {codec : Codec} {t : Tick} {s : Store} {chunk : ℕ}
  {records : List SummaryRecord} {taskRef : String}

theorem events_accumulatorOf : (accumulatorOf t s chunk records taskRef).events =
    (records.zipIdx.filter fun r => r.1.uploadTask = some taskRef).filterMap (eventOf t chunk) := by
  have hfold : ∀ (l : List (SummaryRecord × ℕ)) (acc : TaskAccumulator),
      (l.foldl (accumulate t s chunk) acc).events = acc.events ++ l.filterMap (eventOf t chunk) := by
    intro l
    induction l with
    | nil => simp
    | cons record l ih =>
        intro acc
        rw [List.foldl_cons, ih]
        rcases record with ⟨record, index⟩
        cases record <;> simp [accumulate, eventOf, List.filterMap_cons]
  rw [accumulatorOf, hfold, List.nil_append]

theorem row_of_buildUpload {upload : TaskUpload}
    (h : buildUpload t s chunk records taskRef = some upload) :
    upload.snapshot.taskRef = taskRef ∧
      (∃ row, s.activeTasks.get? taskRef = some row ∧
        upload.snapshot = row.snapshot (t.ids (.snapshot chunk taskRef)) taskRef) ∧
      upload.events = (accumulatorOf t s chunk records taskRef).events := by
  simp only [buildUpload, loadSnapshot, Option.bind_eq_bind, Option.bind_eq_some_iff,
    Option.map_eq_some_iff, Option.some.injEq] at h
  rcases h with ⟨snapshot, ⟨row, hrow, rfl⟩, rfl⟩
  exact ⟨rfl, ⟨row, hrow, rfl⟩, rfl⟩

/-- A task has one upload in a batch, if one of the records names it and it has a row. -/
theorem uploadsFor_buildWireBatch :
    ((buildWireBatch client t s chunk records).tasks.filter
        fun upload => upload.snapshot.taskRef = taskRef) =
      if ∃ record ∈ records, record.uploadTask = some taskRef then
        (buildUpload t s chunk records taskRef).toList
      else [] := by
  have hnodup : (uploadTasks records).Nodup :=
    (List.nodup_dedup _).perm (List.perm_insertionSort _ _).symm
  rw [buildWireBatch, filter_filterMap_key hnodup fun _ _ h => (row_of_buildUpload h).1]
  simp [uploadTasks]

/-- A record of a task with a row brings the row into the batch of its chunk. -/
theorem mem_buildWireBatch (client : ClientInstance) (t : Tick) {record : SummaryRecord}
    {row : TaskRow} (hmem : record ∈ records)
    (hupload : record.uploadTask = some taskRef) (hrow : s.activeTasks.get? taskRef = some row)
    (chunk : ℕ) :
    ∃ upload ∈ (buildWireBatch client t s chunk records).tasks,
      upload.snapshot = row.snapshot (t.ids (.snapshot chunk taskRef)) taskRef := by
  obtain ⟨upload, hbuild⟩ : ∃ upload, buildUpload t s chunk records taskRef = some upload := by
    rw [buildUpload, loadSnapshot, hrow]
    exact ⟨_, rfl⟩
  have hfilter : upload ∈ (buildWireBatch client t s chunk records).tasks.filter
      fun upload => upload.snapshot.taskRef = taskRef := by
    rw [uploadsFor_buildWireBatch, if_pos ⟨record, hmem, hupload⟩, hbuild]
    exact List.mem_singleton_self upload
  obtain ⟨-, ⟨row', hrow', hsnapshot⟩, -⟩ := row_of_buildUpload hbuild
  obtain rfl : row = row' := Option.some.inj (hrow.symm.trans hrow')
  exact ⟨upload, (List.mem_filter.mp hfilter).1, hsnapshot⟩

/-- A record of a task with a row brings the row into some batch. -/
theorem exists_mem_wireBatches (client : ClientInstance) (t : Tick) {record : SummaryRecord}
    {row : TaskRow} (hmem : record ∈ records) (hupload : record.uploadTask = some taskRef)
    (hrow : s.activeTasks.get? taskRef = some row) :
    ∃ batch ∈ wireBatches client t s records, ∃ upload ∈ batch.tasks, ∃ errorId,
      upload.snapshot = row.snapshot errorId taskRef := by
  have hflat : (splitRecords records).flatten = records := Chunks.flatMap_piece (by decide) records
  rw [← hflat] at hmem
  obtain ⟨chunk, hchunk, hrecord⟩ := List.mem_flatten.mp hmem
  obtain ⟨n, hn⟩ := List.mem_iff_getElem?.mp hchunk
  obtain ⟨upload, hmem, hsnapshot⟩ := mem_buildWireBatch client t hrecord hupload
    hrow n
  refine ⟨buildWireBatch client t s n chunk, ?_, upload, hmem, _, hsnapshot⟩
  exact List.mem_map.mpr ⟨(chunk, n), List.mem_zipIdx_iff_getElem?.mpr hn, rfl⟩

/-- The transitions of a task among the records. -/
def transitionsOf (taskRef : String) (records : List SummaryRecord) : List TaskTransition :=
  records.filterMap fun record =>
    match record with
    | .taskTransition transition =>
        if transition.task.taskRef = taskRef then some transition else none
    | _ => none

/-- The event says what the transition says. -/
def Tells (event : TaskEvent) (transition : TaskTransition) : Prop :=
  ∃ errorId, event = mapTransitionEvent errorId transition

theorem tells_zipIdx (t : Tick) (chunk n : ℕ) (records : List SummaryRecord) :
    List.Forall₂ Tells
      (((records.zipIdx n).filter fun r => r.1.uploadTask = some taskRef).filterMap
        (eventOf t chunk)) (transitionsOf taskRef records) := by
  induction records generalizing n with
  | nil => exact .nil
  | cons record records ih =>
      have hrest := ih (n + 1)
      rw [List.zipIdx_cons, transitionsOf, List.filterMap_cons, ← transitionsOf]
      cases record with
      | taskTransition transition =>
          by_cases htask : transition.task.taskRef = taskRef
          · have hnamed : (SummaryRecord.taskTransition transition).uploadTask = some taskRef :=
              congrArg some htask
            have hevent : eventOf t chunk (.taskTransition transition, n) =
                some (mapTransitionEvent (t.ids (.record chunk n)) transition) := rfl
            rw [List.filter_cons_of_pos (by simp [hnamed]), List.filterMap_cons_some hevent]
            simpa only [if_pos htask] using .cons ⟨_, rfl⟩ hrest
          · have hother : (SummaryRecord.taskTransition transition).uploadTask ≠ some taskRef :=
              fun h => htask (Option.some.inj h)
            rw [List.filter_cons_of_neg (by simp [hother])]
            simpa only [if_neg htask] using hrest
      | _ =>
          rw [List.filter_cons]
          split
          · rw [List.filterMap_cons_none rfl]
            exact hrest
          · exact hrest

/-- A batch has one event for each transition of the task. -/
theorem events_buildWireBatch (client : ClientInstance) (t : Tick) (chunk : ℕ)
    (records : List SummaryRecord) (hrow : (s.activeTasks.get? taskRef).isSome) :
    List.Forall₂ Tells (((buildWireBatch client t s chunk records).tasks.filter
      fun upload => upload.snapshot.taskRef = taskRef).flatMap TaskUpload.events)
      (transitionsOf taskRef records) := by
  rw [uploadsFor_buildWireBatch]
  split
  · rcases Option.isSome_iff_exists.mp hrow with ⟨row, hrow⟩
    have hbuild : ∃ upload, buildUpload t s chunk records taskRef = some upload := by
      simp only [buildUpload, loadSnapshot, hrow]
      exact ⟨_, rfl⟩
    rcases hbuild with ⟨upload, hbuild⟩
    rw [hbuild, Option.toList_some, List.flatMap_singleton, (row_of_buildUpload hbuild).2.2,
      events_accumulatorOf]
    exact tells_zipIdx t chunk 0 records
  · rename_i hnone
    have hempty : transitionsOf taskRef records = [] := by
      refine List.filterMap_eq_nil_iff.mpr fun record hmem => ?_
      cases record with
      | taskTransition transition =>
          refine if_neg fun htask => hnone ⟨_, hmem, ?_⟩
          rw [SummaryRecord.uploadTask, htask]
      | _ => rfl
    rw [hempty]
    exact .nil

/-- A transaction enqueues one event for each transition of the task that it accepts. -/
theorem events_persistedUploads {contents : List StoredContentInput}
    (hdone : (persistIngress client codec t s records contents).1.isSome = true)
    (hrow : ((writtenStore codec s records contents).activeTasks.get? taskRef).isSome) :
    List.Forall₂ Tells (((persistedUploads client codec t s records contents).filter
      fun upload => upload.snapshot.taskRef = taskRef).flatMap TaskUpload.events)
      (transitionsOf taskRef (applyRecords s (records.map (normalizeRecord codec))).1) := by
  have hchunks : ∀ (chunks : List (List SummaryRecord)) (n : ℕ), List.Forall₂ Tells
      (((((chunks.zipIdx n).map fun r => buildWireBatch client t
        (writtenStore codec s records contents) r.2 r.1).flatMap IngestBatch.tasks).filter
        fun upload => upload.snapshot.taskRef = taskRef).flatMap TaskUpload.events)
      (transitionsOf taskRef chunks.flatten) := by
    intro chunks
    induction chunks with
    | nil => exact fun n => .nil
    | cons chunk chunks ih =>
        intro n
        rw [List.zipIdx_cons, List.map_cons, List.flatMap_cons, List.filter_append,
          List.flatMap_append, List.flatten_cons, transitionsOf, List.filterMap_append]
        exact List.rel_append (events_buildWireBatch client t n chunk hrow) (ih (n + 1))
  rw [persistedUploads, if_pos hdone, wireBatches]
  have hsplit : (splitRecords (applyRecords s (records.map (normalizeRecord codec))).1).flatten =
      (applyRecords s (records.map (normalizeRecord codec))).1 :=
    Chunks.flatMap_piece (by decide) _
  have hevents := hchunks (splitRecords (applyRecords s (records.map (normalizeRecord codec))).1) 0
  rwa [hsplit] at hevents

end Chunk

end Codexwatch.Client
