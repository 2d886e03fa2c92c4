import Codexwatch.Client.Budget
import Codexwatch.Client.Uploads

/-!
# A changed title

`sync_conversation_title` of `client/src/store.rs`. It selects the rows of the session that
lack the title, writes the title into them in a statement of its own, and then hands one
session record for each selected row to `persist_ingress`. If that fails the title stays
written: the next call selects nothing, and reports success without an upload.

## Main definitions

* `syncConversationTitle` — the code, with the point at which the database fails.
* `TitleAnnounced` — a task that the call enqueues with the title.
* `TitleKept` — what a call and the one after it promise.
* `Takes` — the outbox has room for the batches, and they can be sent.

## Main result

* `titleKept_iff`
-/
namespace Codexwatch.Client

open Protocol Relational

/-! ## The code -/

/-- `session_id = ? AND (conversation_title IS NULL OR conversation_title != ?)` -/
def TaskRow.lacksTitle (sessionId title : String) (row : TaskRow) : Bool :=
  row.task.sessionId = sessionId && row.conversationTitle ≠ some title

/-- The selected rows; the statement names no order. -/
def untitled (s : Store) (sessionId title : String) : List TaskRow :=
  (s.activeTasks.rows.filter fun r => r.2.lacksTitle sessionId title).map Prod.snd

/-- The `UPDATE`. -/
def setTitle (s : Store) (sessionId title : String) : Store :=
  { s with
    activeTasks := s.activeTasks.updateWhere (fun _ row => row.lacksTitle sessionId title)
      fun row => { row with conversationTitle := some title } }

def titleRecord (row : TaskRow) : SummaryRecord :=
  .session
    { task := row.task
      parentTurnId := none
      rootTurnId := none
      firstSeenAt := fromMs row.startedAt }

/-- Where the database fails: in a statement, or anywhere in the transaction of
`persist_ingress`, which is rolled back. -/
inductive SyncFault
  | select | update | persist
  deriving DecidableEq

section Sync
variable (client : ClientInstance) (codec : Codec) (fault : Option SyncFault) (t : Tick) (s : Store)
  (sessionId title : String)

def syncConversationTitle : Option ℕ × Store :=
  if fault = some .select then (none, s)
  else if untitled s sessionId title = [] then (some 0, s)
  else if fault = some .update then (none, s)
  else if fault = some .persist then (none, setTitle s sessionId title)
  else
    let persisted := persistIngress client codec t (setTitle s sessionId title)
      ((untitled s sessionId title).map titleRecord) []
    (persisted.1.map PersistOutcome.enqueuedBatches, persisted.2)

/-- The uploads that the call enqueues. -/
def syncUploads : List TaskUpload :=
  if fault = none then
    persistedUploads client codec t (setTitle s sessionId title)
      ((untitled s sessionId title).map titleRecord) []
  else []

/-- The call leaves a snapshot of the task with the title in the outbox. -/
def TitleAnnounced (taskRef : String) : Prop :=
  ∃ upload ∈ syncUploads client codec fault t s sessionId title,
    upload.snapshot.taskRef = taskRef ∧ upload.snapshot.conversationTitle = some title ∧
      ∃ batch, upload ∈ batch.tasks ∧
        Holds codec (syncConversationTitle client codec fault t s sessionId title).2.outbox batch

/-- What was not uploaded when a call fails is uploaded by the next one that does not, and
after a call that succeeds the rows have the title and were uploaded with it. -/
structure TitleKept : Prop where
  again : (syncConversationTitle client codec fault t s sessionId title).1 = none → ∀ t',
    (syncConversationTitle client codec none t'
      (syncConversationTitle client codec fault t s sessionId title).2 sessionId title).1.isSome →
    ∀ row ∈ untitled s sessionId title, TitleAnnounced client codec none t'
      (syncConversationTitle client codec fault t s sessionId title).2 sessionId title
      row.task.taskRef
  titled : (syncConversationTitle client codec fault t s sessionId title).1.isSome →
    untitled (syncConversationTitle client codec fault t s sessionId title).2 sessionId title = []
  uploaded : (syncConversationTitle client codec fault t s sessionId title).1.isSome →
    ∀ row ∈ untitled s sessionId title,
      TitleAnnounced client codec fault t s sessionId title row.task.taskRef

end Sync

/-! ## Room in the outbox -/

/-- Every batch passes the checks and can be sent, its id is not taken, and there is room for
all of them below the reserve. -/
structure Takes (codec : Codec) (o : Outbox) (batches : List IngestBatch) : Prop where
  encodes : ∀ batch ∈ batches, batch.Valid ∧
    (codec.intoWriter batch).length ≤ MAX_DECOMPRESSED_BATCH_BYTES
  distinct : (batches.map IngestBatch.batchId).Nodup
  free : ∀ batch ∈ batches, o.outbox.get? batch.batchId = none
  room : batches = [] ∨ ensureOutboxCapacity o
    (batches.map fun batch => (codec.encodingOf batch).bytes.length).sum false = true

section Room
variable {client : ClientInstance} {codec : Codec} {t : Tick} {s : Store} {o o' : Outbox}
  {batch : IngestBatch} {batches : List IngestBatch}

theorem takes_nil : Takes codec o [] := ⟨by simp, by simp, by simp, .inl rfl⟩

/-- The batch at the front alone. -/
structure TakesOne (codec : Codec) (o : Outbox) (batch : IngestBatch) : Prop where
  valid : batch.Valid
  payload : (codec.intoWriter batch).length ≤ MAX_DECOMPRESSED_BATCH_BYTES
  free : o.outbox.get? batch.batchId = none
  room : ensureOutboxCapacity o (codec.encodingOf batch).bytes.length false = true

theorem ensureOutboxCapacity_add {encoded : EncodedBatch} {recordCount : ℕ} {nowMs : ℤ}
    (h : insertOutbox o encoded recordCount false nowMs = some o') (n : ℕ) :
    ensureOutboxCapacity o' n false = ensureOutboxCapacity o (encoded.bytes.length + n) false := by
  obtain ⟨htotal, hpriority⟩ := outboxBytes_insertOutbox h
  have hadd := @outboxBytes_add o
  have hadd' := @outboxBytes_add o'
  simp only [Bool.false_eq_true, if_false, Nat.add_zero] at hpriority
  rw [Bool.eq_iff_iff]
  simp only [ensureOutboxCapacity, Bool.and_eq_true, Bool.or_eq_true, decide_eq_true_eq,
    Bool.false_eq_true, false_or, htotal, hpriority]
  omega

theorem ensureOutboxCapacity_mono {n n' : ℕ} (hle : n ≤ n')
    (h : ensureOutboxCapacity o n' false = true) : ensureOutboxCapacity o n false = true := by
  simp only [ensureOutboxCapacity, Bool.and_eq_true, Bool.or_eq_true, decide_eq_true_eq,
    Bool.false_eq_true, false_or] at h ⊢
  omega

/-- The id of an inserted batch was free, and is the only one that is taken. -/
theorem get?_insertOutbox {encoded : EncodedBatch} {recordCount : ℕ} {nowMs : ℤ}
    (h : insertOutbox o encoded recordCount false nowMs = some o') :
    o.outbox.get? encoded.batchId = none ∧ ∀ id, (o'.outbox.get? id = none ↔
      id ≠ encoded.batchId ∧ o.outbox.get? id = none) := by
  obtain ⟨table, htable, rfl⟩ := Option.map_eq_some_iff.mp h
  obtain ⟨hfree, rfl⟩ := Table.insertNew_eq_some.mp htable
  refine ⟨hfree, ?_⟩
  intro id
  rw [Table.get?_put]
  by_cases hid : id = encoded.batchId <;> simp [hid]

/-- The first batch, and the others behind it. -/
theorem takes_cons {recordCount : ℕ} {nowMs : ℤ}
    (h : insertOutbox o (codec.encodingOf batch) recordCount false nowMs = some o') :
    Takes codec o (batch :: batches) ↔ TakesOne codec o batch ∧ Takes codec o' batches := by
  have hroom := ensureOutboxCapacity_add h
  obtain ⟨hfree, htaken⟩ := get?_insertOutbox h
  have htaken : ∀ id, o'.outbox.get? id = none ↔ id ≠ batch.batchId ∧ o.outbox.get? id = none :=
    htaken
  constructor
  · intro htakes
    have hall : ensureOutboxCapacity o ((codec.encodingOf batch).bytes.length +
        (batches.map fun batch => (codec.encodingOf batch).bytes.length).sum) false = true := by
      obtain hnil | hroom := htakes.room
      · cases hnil
      · simpa using hroom
    have hfront := htakes.encodes batch List.mem_cons_self
    have hdistinct := List.nodup_cons.mp htakes.distinct
    refine ⟨⟨hfront.1, hfront.2, hfree, ensureOutboxCapacity_mono (Nat.le_add_right ..) hall⟩,
      fun other hother => htakes.encodes other (List.mem_cons_of_mem batch hother),
      hdistinct.2, ?_, .inr ((hroom _).trans hall)⟩
    intro other hother
    refine (htaken _).mpr ⟨?_, htakes.free other (List.mem_cons_of_mem batch hother)⟩
    intro heq
    exact hdistinct.1 (heq ▸ List.mem_map_of_mem hother)
  · intro ⟨hone, hrest⟩
    have hfree' := fun other hother => (htaken _).mp (hrest.free other hother)
    refine ⟨?_, ?_, ?_, .inr ?_⟩
    · simpa using ⟨⟨hone.valid, hone.payload⟩, hrest.encodes⟩
    · rw [List.map_cons, List.nodup_cons]
      refine ⟨?_, hrest.distinct⟩
      intro hmem
      obtain ⟨other, hother, heq⟩ := List.mem_map.mp hmem
      exact (hfree' other hother).1 heq
    · simpa using ⟨hone.free, fun other hother => (hfree' other hother).2⟩
    · rw [List.map_cons, List.sum_cons, ← hroom]
      obtain rfl | hroom' := hrest.room
      · rw [hroom]
        exact hone.room
      · exact hroom'

theorem Takes.front (h : Takes codec o (batch :: batches)) : TakesOne codec o batch where
  valid := (h.encodes batch List.mem_cons_self).1
  payload := (h.encodes batch List.mem_cons_self).2
  free := h.free batch List.mem_cons_self
  room := by
    obtain hnil | hroom := h.room
    · cases hnil
    · rw [List.map_cons, List.sum_cons] at hroom
      exact ensureOutboxCapacity_mono (Nat.le_add_right ..) hroom

/-- One round of the loop for a batch with a task. -/
theorem enqueueChunk_cases (codec : Codec) (inserted : ℕ × Outbox) {records : List SummaryRecord × ℕ}
    (htasks : (buildWireBatch client t s records.2 records.1).tasks ≠ []) :
    (TakesOne codec inserted.2 (buildWireBatch client t s records.2 records.1) ∧
      ∃ o' recordCount, insertOutbox inserted.2
          (codec.encodingOf (buildWireBatch client t s records.2 records.1)) recordCount false
          t.nowMs = some o' ∧
        enqueueChunk client codec t s false inserted records = some (inserted.1 + 1, o')) ∨
    (¬ TakesOne codec inserted.2 (buildWireBatch client t s records.2 records.1) ∧
      enqueueChunk client codec t s false inserted records = none) := by
  rw [enqueueChunk, if_neg fun hempty => htasks hempty.1]
  cases hencode : codec.encodeBatch (buildWireBatch client t s records.2 records.1) with
  | error e =>
      right
      refine ⟨?_, rfl⟩
      intro h
      rw [Codec.encodeBatch_eq_ok_iff.mpr ⟨h.valid, h.payload, rfl⟩] at hencode
      cases hencode
  | ok encoded =>
      obtain ⟨hvalid, hpayload, rfl⟩ := Codec.encodeBatch_eq_ok_iff.mp hencode
      dsimp only
      by_cases hroom : ensureOutboxCapacity inserted.2 (codec.encodingOf
          (buildWireBatch client t s records.2 records.1)).bytes.length false = true
      · rw [if_pos hroom]
        cases hinsert : insertOutbox inserted.2 (codec.encodingOf
            (buildWireBatch client t s records.2 records.1))
            ((buildWireBatch client t s records.2 records.1).tasks.length +
              (buildWireBatch client t s records.2 records.1).heartbeats.length) false t.nowMs with
        | some o' =>
            exact .inl ⟨⟨hvalid, hpayload, (get?_insertOutbox hinsert).1, hroom⟩, o', _, hinsert, rfl⟩
        | none =>
            right
            refine ⟨?_, rfl⟩
            intro h
            have hfree : inserted.2.outbox.get? (codec.encodingOf
                (buildWireBatch client t s records.2 records.1)).batchId = none := h.free
            rw [insertOutbox, Table.insertNew_of_none hfree] at hinsert
            cases hinsert
      · rw [if_neg hroom]
        exact .inr ⟨fun h => hroom h.room, rfl⟩

/-- The loop over chunks that have tasks goes to its end when the outbox takes the batches. -/
theorem isSome_foldlM_enqueueChunk (codec : Codec) {chunks : List (List SummaryRecord × ℕ)}
    (htasks : ∀ chunk ∈ chunks, (buildWireBatch client t s chunk.2 chunk.1).tasks ≠ [])
    (inserted : ℕ × Outbox) :
    (chunks.foldlM (enqueueChunk client codec t s false) inserted).isSome = true ↔
      Takes codec inserted.2 (chunks.map fun r => buildWireBatch client t s r.2 r.1) := by
  induction chunks generalizing inserted with
  | nil => exact ⟨fun _ => takes_nil, fun _ => rfl⟩
  | cons chunk chunks ih =>
      have hrest := ih fun other hother => htasks other (List.mem_cons_of_mem chunk hother)
      rw [List.foldlM_cons, List.map_cons]
      obtain ⟨hone, o', recordCount, hinsert, henqueue⟩ | ⟨hno, hrefused⟩ :=
        enqueueChunk_cases codec inserted (htasks chunk List.mem_cons_self)
      · rw [henqueue, takes_cons hinsert]
        constructor
        · intro h
          exact ⟨hone, (hrest (inserted.1 + 1, o')).mp h⟩
        · intro h
          exact (hrest (inserted.1 + 1, o')).mpr h.2
      · rw [hrefused]
        constructor
        · intro h
          cases h
        · intro htakes
          exact absurd htakes.front hno

end Room

/-! ## Rows under their own reference -/

/-- A row has the reference of its own ids. -/
def Store.Keyed (s : Store) : Prop :=
  ∀ key row, s.activeTasks.get? key = some row → row.task.taskRef = key

theorem keyed_empty : Store.empty.Keyed := by
  intro key row h
  cases h

section Keyed
variable {s : Store}

theorem Store.Keyed.modify (h : s.Keyed) {key : String} {f : TaskRow → TaskRow}
    (hf : ∀ row, (f row).task = row.task) :
    Store.Keyed { s with activeTasks := s.activeTasks.modify key f } := by
  intro k row hrow
  have hrow' : (s.activeTasks.modify key f).get? k = some row := hrow
  rw [Table.get?_modify] at hrow'
  split at hrow'
  · obtain ⟨old, hold, rfl⟩ := Option.map_eq_some_iff.mp hrow'
    rw [hf]
    exact h k old hold
  · exact h k row hrow'

theorem Store.Keyed.upsert (h : s.Keyed) {task : TaskKey} {row : TaskRow} {f : TaskRow → TaskRow}
    (hrow : row.task = task) (hf : ∀ row, (f row).task = row.task) :
    Store.Keyed { s with activeTasks := s.activeTasks.upsert task.taskRef row f } := by
  intro k stored hstored
  have hstored' : (s.activeTasks.upsert task.taskRef row f).get? k = some stored := hstored
  rw [Table.get?_upsert] at hstored'
  split at hstored'
  · rename_i hk
    cases hold : s.activeTasks.get? task.taskRef with
    | none =>
        simp [hold] at hstored'
        rw [← hstored', hrow, hk]
    | some old =>
        simp [hold] at hstored'
        rw [← hstored', hf, hk]
        exact h _ old hold
  · exact h k stored hstored'

/-- Every record leaves the rows under their references. -/
theorem Store.Keyed.applyRecord (h : s.Keyed) (record : SummaryRecord) :
    (applyRecord s record).2.Keyed := by
  cases record with
  | task summary =>
      simp only [Client.applyRecord, upsertTaskSummary]
      split
      · exact h
      · exact h.upsert rfl fun _ => rfl
  | taskTransition transition =>
      simp only [Client.applyRecord, upsertTransition]
      split
      · exact h
      · exact h.upsert rfl fun _ => rfl
  | attempt attempt =>
      simp only [Client.applyRecord, upsertAttempt]
      split
      · exact h
      · exact h.modify fun _ => rfl
  | session session => exact h.modify fun _ => rfl
  | captureGap gap =>
      simp only [Client.applyRecord, upsertGap]
      split <;> exact h
  | process process => exact h
  | httpExchange exchange => exact h
  | heartbeat heartbeat => exact h

theorem Store.Keyed.applyRecords (h : s.Keyed) (records : List SummaryRecord) :
    (applyRecords s records).2.Keyed := by
  induction records generalizing s with
  | nil => exact h
  | cons record records ih => exact ih (h.applyRecord record)

theorem Store.Keyed.persistIngress (h : s.Keyed) (client : ClientInstance) (codec : Codec) (t : Tick)
    (records : List SummaryRecord) (contents : List StoredContentInput) :
    (persistIngress client codec t s records contents).2.Keyed := by
  obtain ⟨-, files, heq⟩ | ⟨inserted, outbox, -, -, heq⟩ :=
    persistIngress_cases client codec t s records contents
  · rw [heq]
    exact h
  · rw [heq]
    exact h.applyRecords (records.map (normalizeRecord codec))

theorem Store.Keyed.setTitle (h : s.Keyed) (sessionId title : String) :
    (setTitle s sessionId title).Keyed := by
  intro key row hrow
  rw [Client.setTitle, Table.get?_updateWhere] at hrow
  obtain ⟨old, hold, rfl⟩ := Option.map_eq_some_iff.mp hrow
  rw [← h key old hold]
  split <;> rfl

theorem Store.Keyed.syncConversationTitle (h : s.Keyed) (client : ClientInstance) (codec : Codec)
    (fault : Option SyncFault) (t : Tick) (sessionId title : String) :
    (syncConversationTitle client codec fault t s sessionId title).2.Keyed := by
  simp only [Client.syncConversationTitle]
  split
  · exact h
  · split
    · exact h
    · split
      · exact h
      · split
        · exact h.setTitle sessionId title
        · exact (h.setTitle sessionId title).persistIngress client codec t _ _

end Keyed

/-! ## The session records of a call -/

section Records
variable {client : ClientInstance} {codec : Codec} {t : Tick} {s : Store} {rows : List TaskRow}
  {sessionId title : String}

theorem normalize_titleRecords :
    (rows.map titleRecord).map (normalizeRecord codec) = rows.map titleRecord := by
  rw [List.map_map]
  rfl

/-- Session records keep the ids and titles of all rows. -/
theorem identity_applyRecords_titleRecords (s : Store) (rows : List TaskRow) (key : String) :
    ((applyRecords s (rows.map titleRecord)).2.activeTasks.get? key).map TaskRow.identity =
      (s.activeTasks.get? key).map TaskRow.identity := by
  induction rows generalizing s with
  | nil => rfl
  | cons row rows ih =>
      rw [List.map_cons, applyRecords, ih]
      exact map_get?_applyRecord_of_ne steady_identity (by simp [titleRecord,
        SummaryRecord.advances])

/-- A session record is accepted when its task has a row. -/
theorem accepted_titleRecords
    (h : ∀ row ∈ rows, (s.activeTasks.get? row.task.taskRef).isSome = true) :
    (applyRecords s (rows.map titleRecord)).1 = rows.map titleRecord := by
  induction rows generalizing s with
  | nil => rfl
  | cons row rows ih =>
      have hrow : (applyRecord s (titleRecord row)).1 = true := h row List.mem_cons_self
      have hrest : ∀ other ∈ rows, ((applyRecord s (titleRecord row)).2.activeTasks.get?
          other.task.taskRef).isSome = true := by
        intro other hother
        have hsame := identity_applyRecords_titleRecords s [row] other.task.taskRef
        have hisSome := congrArg Option.isSome hsame
        rw [Option.isSome_map, Option.isSome_map] at hisSome
        exact hisSome.trans (h other (List.mem_cons_of_mem row hother))
      rw [List.map_cons, applyRecords, ih hrest, hrow]
      rfl

theorem mem_untitled {row : TaskRow} : row ∈ untitled s sessionId title ↔
    ∃ key, s.activeTasks.get? key = some row ∧ row.lacksTitle sessionId title = true := by
  simp only [untitled, List.mem_map, List.mem_filter, Prod.exists, Table.mem_rows_iff]
  constructor
  · rintro ⟨key, other, ⟨hrow, hlacks⟩, rfl⟩
    exact ⟨key, hrow, hlacks⟩
  · rintro ⟨key, hrow, hlacks⟩
    exact ⟨key, row, ⟨hrow, hlacks⟩, rfl⟩

/-- The row of a selected task, after the title is written. -/
theorem get?_setTitle (hkeyed : s.Keyed) {row : TaskRow} (h : row ∈ untitled s sessionId title) :
    (setTitle s sessionId title).activeTasks.get? row.task.taskRef =
      some { row with conversationTitle := some title } := by
  obtain ⟨key, hrow, hlacks⟩ := mem_untitled.mp h
  rw [hkeyed key row hrow, setTitle, Table.get?_updateWhere, hrow, Option.map_some, if_pos hlacks]

/-- Rows that have the ids and titles of rows with the title have it. -/
theorem untitled_eq_nil {s' : Store} (h : ∀ key, (s'.activeTasks.get? key).map TaskRow.identity =
      ((setTitle s sessionId title).activeTasks.get? key).map TaskRow.identity) :
    untitled s' sessionId title = [] := by
  rw [List.eq_nil_iff_forall_not_mem]
  intro row hmem
  obtain ⟨key, hrow, hlacks⟩ := mem_untitled.mp hmem
  have hidentity := h key
  rw [hrow, setTitle, Table.get?_updateWhere] at hidentity
  cases hold : s.activeTasks.get? key with
  | none => simp [hold] at hidentity
  | some old =>
      rw [hold] at hidentity
      simp only [Option.map_some, Option.some.injEq, TaskRow.identity, Prod.mk.injEq] at hidentity
      by_cases hbefore : old.lacksTitle sessionId title = true
      · simp [hbefore] at hidentity
        simp [TaskRow.lacksTitle, hidentity] at hlacks
      · simp [hbefore] at hidentity
        simp only [TaskRow.lacksTitle, hidentity] at hlacks hbefore
        exact hbefore hlacks

theorem untitled_setTitle : untitled (setTitle s sessionId title) sessionId title = [] :=
  untitled_eq_nil fun _ => rfl

end Records

/-! ## A call -/

section Calls
variable (client : ClientInstance) (codec : Codec) (fault : Option SyncFault) (t : Tick) (s : Store)
  (sessionId title : String)

/-- The batches of a call: the session records in chunks, the rows with the title. -/
def syncBatches : List IngestBatch :=
  wireBatches client t (writtenStore codec (setTitle s sessionId title)
    ((untitled s sessionId title).map titleRecord) []) ((untitled s sessionId title).map titleRecord)

variable {client codec fault t s sessionId title}

/-- Every selected row is there when its record is applied. -/
theorem accepted_untitled (codec : Codec) (sessionId title : String) (hkeyed : s.Keyed) :
    (applyRecords (setTitle s sessionId title)
      (((untitled s sessionId title).map titleRecord).map (normalizeRecord codec))).1 =
        (untitled s sessionId title).map titleRecord := by
  rw [normalize_titleRecords]
  apply accepted_titleRecords
  intro row hrow
  rw [get?_setTitle hkeyed hrow]
  rfl

/-- The row of a selected task when the batches are built. -/
theorem get?_writtenStore (codec : Codec) (hkeyed : s.Keyed) {row : TaskRow}
    (h : row ∈ untitled s sessionId title) :
    ∃ stored, (writtenStore codec (setTitle s sessionId title)
        ((untitled s sessionId title).map titleRecord) []).activeTasks.get? row.task.taskRef =
          some stored ∧ stored.conversationTitle = some title := by
  have hidentity := identity_applyRecords_titleRecords (setTitle s sessionId title)
    (untitled s sessionId title) row.task.taskRef
  rw [get?_setTitle hkeyed h] at hidentity
  obtain ⟨stored, hstored, hsame⟩ := Option.map_eq_some_iff.mp hidentity
  refine ⟨stored, ?_, (Prod.mk.inj hsame).2⟩
  rw [writtenStore, normalize_titleRecords]
  exact hstored

/-- Without contents only the outbox can refuse. -/
theorem isSome_persistIngress_nil {records : List SummaryRecord} :
    (persistIngress client codec t s records []).1.isSome =
      (enqueueRecords client codec t (writtenStore codec s records [])
        (applyRecords s (records.map (normalizeRecord codec))).1).isSome := by
  simp only [persistIngress, storeContents, if_true, writtenStore]
  cases enqueueRecords client codec t _ (applyRecords s (records.map (normalizeRecord codec))).1 <;>
    rfl

/-- The transaction of a call commits when the outbox takes the batches. -/
theorem isSome_persistIngress_iff (hkeyed : s.Keyed) :
    (persistIngress client codec t (setTitle s sessionId title)
      ((untitled s sessionId title).map titleRecord) []).1.isSome = true ↔
    Takes codec s.outbox (syncBatches client codec t s sessionId title) := by
  have haccepted := accepted_untitled codec sessionId title hkeyed
  have houtbox : (writtenStore codec (setTitle s sessionId title)
      ((untitled s sessionId title).map titleRecord) []).outbox = s.outbox := outbox_applyRecords
  have hpriority : ((untitled s sessionId title).map titleRecord).any isPriorityRecord = false := by
    simp [titleRecord, isPriorityRecord]
  have htasks : ∀ chunk ∈ (splitRecords ((untitled s sessionId title).map titleRecord)).zipIdx,
      (buildWireBatch client t (writtenStore codec (setTitle s sessionId title)
        ((untitled s sessionId title).map titleRecord) []) chunk.2 chunk.1).tasks ≠ [] := by
    intro chunk hchunk
    have hmem := List.fst_mem_of_mem_zipIdx hchunk
    obtain ⟨record, hrecord⟩ := List.exists_mem_of_ne_nil _ (Chunks.ne_nil_of_mem_chunks
      (by decide) hmem)
    have hall : record ∈ (untitled s sessionId title).map titleRecord :=
      Chunks.mem_of_mem_chunks hmem hrecord
    obtain ⟨row, hrow, rfl⟩ := List.mem_map.mp hall
    obtain ⟨stored, hstored, -⟩ := get?_writtenStore codec hkeyed hrow
    obtain ⟨upload, hupload, -⟩ := mem_buildWireBatch client t hrecord rfl hstored
      chunk.2
    exact List.ne_nil_of_mem hupload
  have hloop := isSome_foldlM_enqueueChunk codec htasks (0, s.outbox)
  rw [isSome_persistIngress_nil, haccepted, enqueueRecords, houtbox, hpriority, hloop, syncBatches,
    wireBatches]

/-- A call that selects nothing does nothing. -/
theorem syncConversationTitle_of_untitled_nil (client : ClientInstance) (codec : Codec) (t : Tick)
    (h : untitled s sessionId title = []) :
    syncConversationTitle client codec none t s sessionId title = (some 0, s) ∧
      syncUploads client codec none t s sessionId title = [] := by
  constructor
  · simp [syncConversationTitle, h]
  · simp [syncUploads, persistedUploads, h, applyRecords, wireBatches, splitRecords,
      Chunks.chunks_nil]

/-- A call that the database does not stop is its transaction. -/
theorem syncConversationTitle_none (client : ClientInstance) (codec : Codec) (t : Tick)
    (h : untitled s sessionId title ≠ []) :
    syncConversationTitle client codec none t s sessionId title =
      ((persistIngress client codec t (setTitle s sessionId title)
        ((untitled s sessionId title).map titleRecord) []).1.map PersistOutcome.enqueuedBatches,
      (persistIngress client codec t (setTitle s sessionId title)
        ((untitled s sessionId title).map titleRecord) []).2) := by
  simp [syncConversationTitle, h]

/-- After a call that goes through, every row of the session has the title. -/
theorem untitled_of_isSome
    (h : (syncConversationTitle client codec none t s sessionId title).1.isSome = true) :
    untitled (syncConversationTitle client codec none t s sessionId title).2 sessionId title = [] := by
  by_cases hnone : untitled s sessionId title = []
  · rw [(syncConversationTitle_of_untitled_nil client codec t hnone).1]
    exact hnone
  · rw [syncConversationTitle_none client codec t hnone] at h ⊢
    obtain ⟨hfailed, -⟩ | ⟨inserted, outbox, -, -, hwritten⟩ := persistIngress_cases client codec t
      (setTitle s sessionId title) ((untitled s sessionId title).map titleRecord) []
    · simp [hfailed] at h
    · rw [hwritten]
      apply untitled_eq_nil
      intro key
      dsimp only
      rw [writtenStore, normalize_titleRecords]
      exact identity_applyRecords_titleRecords _ _ key

/-- A call that goes through uploads every selected task with the title. -/
theorem titleAnnounced_of_isSome (hkeyed : s.Keyed)
    (h : (syncConversationTitle client codec none t s sessionId title).1.isSome = true)
    {row : TaskRow} (hrow : row ∈ untitled s sessionId title) :
    TitleAnnounced client codec none t s sessionId title row.task.taskRef := by
  have hsync := syncConversationTitle_none client codec t (List.ne_nil_of_mem hrow)
  have hdone : (persistIngress client codec t (setTitle s sessionId title)
      ((untitled s sessionId title).map titleRecord) []).1.isSome = true := by
    rw [hsync, Option.isSome_map] at h
    exact h
  obtain ⟨stored, hstored, htitle⟩ := get?_writtenStore codec hkeyed hrow
  obtain ⟨batch, hbatch, upload, hupload, errorId, hsnapshot⟩ := exists_mem_wireBatches client t
    (List.mem_map.mpr ⟨row, hrow, rfl⟩ : titleRecord row ∈ _) rfl hstored
  have hmem : upload ∈ syncUploads client codec none t s sessionId title := by
    rw [syncUploads, if_pos rfl, persistedUploads, if_pos hdone, accepted_untitled codec sessionId
      title hkeyed]
    exact List.mem_flatMap.mpr ⟨batch, hbatch, hupload⟩
  refine ⟨upload, hmem, by rw [hsnapshot]; rfl, by rw [hsnapshot]; exact htitle, ?_⟩
  rw [hsync]
  exact enqueued_persistedUploads hmem

/-- A call that fails behind the `UPDATE` leaves the title written. -/
theorem failed_of_not_takes (hkeyed : s.Keyed) (hrows : untitled s sessionId title ≠ [])
    (hfault : fault = none ∨ fault = some .persist)
    (h : ¬ (fault = none ∧ Takes codec s.outbox (syncBatches client codec t s sessionId title))) :
    (syncConversationTitle client codec fault t s sessionId title).1 = none ∧
      untitled (syncConversationTitle client codec fault t s sessionId title).2 sessionId title =
        [] := by
  obtain rfl | rfl := hfault
  · have hno : ¬ Takes codec s.outbox (syncBatches client codec t s sessionId title) :=
      fun htakes => h ⟨rfl, htakes⟩
    rw [← isSome_persistIngress_iff hkeyed] at hno
    rw [syncConversationTitle_none client codec t hrows]
    obtain ⟨hfailed, files, hwritten⟩ | ⟨inserted, outbox, -, hsome, -⟩ := persistIngress_cases
      client codec t (setTitle s sessionId title) ((untitled s sessionId title).map titleRecord) []
    · rw [hfailed, hwritten]
      exact ⟨rfl, untitled_setTitle⟩
    · exact absurd hsome hno
  · simp [syncConversationTitle, hrows, untitled_setTitle]

/-- Where no row lacks the title there is nothing to keep. -/
theorem titleKept_of_untitled_nil (h : untitled s sessionId title = []) :
    TitleKept client codec fault t s sessionId title := by
  refine ⟨by simp [h], ?_, by simp [h]⟩
  intro _
  by_cases hselect : fault = some .select <;> simp [syncConversationTitle, hselect, h]

/-- A call that fails before it writes leaves everything to the next one. -/
theorem titleKept_of_unchanged (hkeyed : s.Keyed)
    (h : syncConversationTitle client codec fault t s sessionId title = (none, s)) :
    TitleKept client codec fault t s sessionId title := by
  refine ⟨?_, by simp [h], by simp [h]⟩
  intro _ t' hlater row hrow
  rw [h] at hlater ⊢
  exact titleAnnounced_of_isSome hkeyed hlater hrow

/-- A title is kept exactly if the call fails before it is written, if there is none to write,
or if its transaction commits: the database does not fail in it and the outbox takes the
batches. -/
theorem titleKept_iff (hkeyed : s.Keyed) :
    TitleKept client codec fault t s sessionId title ↔
      fault = some .select ∨ fault = some .update ∨ untitled s sessionId title = [] ∨
        fault = none ∧ Takes codec s.outbox (syncBatches client codec t s sessionId title) := by
  by_cases hrows : untitled s sessionId title = []
  · simp [hrows, titleKept_of_untitled_nil]
  constructor
  · intro h
    by_contra hno
    simp only [not_or] at hno
    obtain ⟨hselect, hupdate, -, hpersist⟩ := hno
    have hfault : fault = none ∨ fault = some .persist := by
      obtain _ | _ | _ | _ := fault <;> simp_all
    obtain ⟨hfailed, htitled⟩ := failed_of_not_takes hkeyed hrows hfault hpersist
    obtain ⟨row, hrow⟩ := List.exists_mem_of_ne_nil _ hrows
    -- the next call selects nothing and reports success
    obtain ⟨hlater, hnothing⟩ := syncConversationTitle_of_untitled_nil client codec t htitled
    obtain ⟨upload, hupload, -⟩ := h.again hfailed t (by rw [hlater]; rfl) row hrow
    rw [hnothing] at hupload
    cases hupload
  · rintro (rfl | rfl | hnone | ⟨rfl, htakes⟩)
    · exact titleKept_of_unchanged hkeyed (by simp [syncConversationTitle])
    · exact titleKept_of_unchanged hkeyed (by simp [syncConversationTitle, hrows])
    · exact absurd hnone hrows
    · have hdone : (syncConversationTitle client codec none t s sessionId title).1.isSome = true := by
        rw [syncConversationTitle_none client codec t hrows, Option.isSome_map]
        exact (isSome_persistIngress_iff hkeyed).mpr htakes
      refine ⟨?_, untitled_of_isSome, fun _ _ hrow => titleAnnounced_of_isSome hkeyed hdone hrow⟩
      intro hfailed
      rw [hfailed] at hdone
      cases hdone

end Calls

/-! ## One row -/

/-- The row of a running task without a title. -/
def untitledRow : TaskRow where
  task := ⟨"a", "codex", "s", "t", "u"⟩
  conversationTitle := none
  phase := .running
  outcome := none
  sequence := 1
  lastEventId := .v7 1
  startedAt := 1000
  updatedAt := 1000
  terminalAt := none
  attemptCount := 1
  model := none
  toolNames := []
  responseIds := []
  usage := ⟨none, none, none, none, none⟩
  completeness := .complete
  lastError := none
  parentTurnId := none
  rootTurnId := none
  firstSeenAt := some 1000

def untitledStore : Store :=
  { Store.empty with activeTasks := Table.empty.put "s:t:u" untitledRow }

theorem keyed_untitledStore : untitledStore.Keyed := by
  intro key row h
  have hget : untitledStore.activeTasks.get? key =
      if key = "s:t:u" then some untitledRow else none := Table.get?_put ..
  rw [hget] at h
  split at h
  · rename_i hkey
    obtain rfl := Option.some.inj h
    rw [hkey]
    decide
  · cases h

theorem titleKept_untitledStore :
    TitleKept sampleClient (.numbered []) none (momentAt 1).toTick untitledStore "s" "title" := by
  rw [titleKept_iff keyed_untitledStore]
  refine .inr (.inr (.inr ⟨rfl, ?_, by decide +kernel, by decide +kernel, .inr ?_⟩))
  · intro batch hbatch
    rw [← IngestBatch.validate_eq_ok]
    revert batch
    decide +kernel
  · decide +kernel

/-- The transaction fails, the next call succeeds and uploads nothing. -/
theorem not_titleKept_persist :
    untitledStore.Keyed ∧ ¬ TitleKept sampleClient (.numbered []) (some .persist)
      (momentAt 1).toTick untitledStore "s" "title" := by
  refine ⟨keyed_untitledStore, ?_⟩
  intro h
  obtain ⟨upload, hupload, -⟩ := h.again (by decide +kernel) (momentAt 2).toTick (by decide +kernel)
    untitledRow (mem_untitled.mpr ⟨"s:t:u", Table.get?_put_self .., by decide⟩)
  revert upload
  decide +kernel

end Codexwatch.Client
