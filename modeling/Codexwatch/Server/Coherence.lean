import Codexwatch.Server.Pairing

/-!
# What the tables say of each other

No foreign key ties the tables of tasks, and most columns repeat what the JSON column of
their row says. `coherent_run` states what holds all the same: the columns of a task, of a
payload and of a heartbeat are those of a valid record under its own key, and a row that
names a task, a client, an instance or a session finds it, the content requests included.

## Main definitions

* `PayloadsFit` — the rows of a payload table.
* `RequestsFit` — the content requests.
* `Coherent` — the tables of tasks, sessions, payloads, heartbeats, receipts and requests.
* `coherent_run` — that every run keeps them so.
-/
namespace Codexwatch.Server

open Protocol Relational ContentTables

/-! ## Payloads -/

/-- Every row has the key and the time of its record, which fits the task of the row, and that
task is stored. -/
def PayloadsFit {α : Type} (idFn : α → Uuid) (tsFn : α → TimestampMs) (fits : String → α → Prop)
    (tasks : Table String TaskRow) (table : Table Uuid (PayloadRow α)) : Prop :=
  ∀ id row, table.get? id = some row →
    idFn row.payloadJson = id ∧ tsFn row.payloadJson = row.ts ∧ fits row.taskRef row.payloadJson ∧
      (tasks.get? row.taskRef).isSome

section Payloads
variable {α : Type} {idFn : α → Uuid} {tsFn : α → TimestampMs} {fits : String → α → Prop}
  {tasks tasks' : Table String TaskRow} {table : Table Uuid (PayloadRow α)}

theorem PayloadsFit.mono (h : PayloadsFit idFn tsFn fits tasks table)
    (htasks : ∀ ref, (tasks.get? ref).isSome → (tasks'.get? ref).isSome) :
    PayloadsFit idFn tsFn fits tasks' table := by
  intro id row hrow
  obtain ⟨hid, hts, hfits, htask⟩ := h id row hrow
  exact ⟨hid, hts, hfits, htasks _ htask⟩

theorem PayloadsFit.upsert (h : PayloadsFit idFn tsFn fits tasks table) {taskRef : String}
    {items : List α} (htask : (tasks.get? taskRef).isSome)
    (hitems : ∀ item ∈ items, fits taskRef item) :
    PayloadsFit idFn tsFn fits tasks (upsertPayloads table taskRef items idFn tsFn) := by
  rw [upsertPayloads]
  refine List.foldlRecOn items _ h fun t ht item hitem id row hrow => ?_
  rw [Table.get?_put] at hrow
  split at hrow
  · rename_i hid
    obtain rfl := Option.some.inj hrow
    exact ⟨hid.symm, rfl, hitems item hitem, htask⟩
  · exact ht id row hrow

theorem PayloadsFit.deleteBefore (h : PayloadsFit idFn tsFn fits tasks table)
    (limit : TimestampMs) :
    PayloadsFit idFn tsFn fits tasks (Server.deleteBefore table PayloadRow.ts limit) := by
  intro id row hrow
  rw [Server.deleteBefore, Table.get?_deleteWhere, Option.filter_eq_some_iff] at hrow
  exact h id row hrow.1

end Payloads

/-! ## Content requests -/

/-- The task and the client of every content request are stored. -/
def RequestsFit (tasks : Table String TaskRow) (clients : Table String TimestampMs)
    (t : ContentTables) : Prop :=
  ∀ id row, t.contentRequests.get? id = some row →
    (tasks.get? row.taskRef).isSome ∧ (clients.get? row.clientId).isSome

section Requests
variable {tasks tasks' : Table String TaskRow} {clients clients' : Table String TimestampMs}
  {t t' : ContentTables}

theorem RequestsFit.mono (h : RequestsFit tasks clients t)
    (htasks : ∀ ref, (tasks.get? ref).isSome → (tasks'.get? ref).isSome)
    (hclients : ∀ id, (clients.get? id).isSome → (clients'.get? id).isSome) :
    RequestsFit tasks' clients' t := by
  intro id row hrow
  obtain ⟨htask, hclient⟩ := h id row hrow
  exact ⟨htasks _ htask, hclients _ hclient⟩

theorem RequestsFit.of_eq (h : RequestsFit tasks clients t)
    (hrequests : t'.contentRequests = t.contentRequests) : RequestsFit tasks clients t' := by
  rwa [RequestsFit, hrequests]

/-- A row that is rewritten keeps its task and its client. -/
theorem RequestsFit.modify (h : RequestsFit tasks clients t) {requestId : Uuid}
    {f : ContentRequestRow → ContentRequestRow}
    (hrequests : t'.contentRequests = t.contentRequests.modify requestId f)
    (hf : ∀ row, (f row).taskRef = row.taskRef ∧ (f row).clientId = row.clientId) :
    RequestsFit tasks clients t' := by
  intro id row hrow
  rw [hrequests, get?_contentRequests_modify] at hrow
  obtain ⟨old, hold, rfl⟩ := Option.map_eq_some_iff.mp hrow
  split
  · rw [(hf old).1, (hf old).2]
    exact h id old hold
  · exact h id old hold

theorem RequestsFit.storeObject (h : RequestsFit tasks clients t) {request : ContentRequest}
    {manifest : ContentObjectManifest} {assembled uncompressed : Bytes} {now : TimestampMs} :
    RequestsFit tasks clients (t.storeObject request manifest assembled uncompressed now) := by
  rw [ContentTables.storeObject]
  split <;> exact h.modify rfl fun _ => ⟨rfl, rfl⟩

/-- What is written to full content is for requests that are there, or for a stored task. -/
theorem RequestsFit.change (h : RequestsFit tasks clients t)
    (howners : ∀ ref row, tasks.get? ref = some row → (clients.get? row.clientId).isSome)
    {codec : Codec} {principal : Principal} {now : TimestampMs} {sent : List ContentRequestCommand}
    (hchange : Change codec tasks principal now t sent t') : RequestsFit tasks clients t' := by
  cases hchange with
  | none => exact h
  | polled => exact h.of_eq rfl
  | completed hdecided hload => exact h.modify rfl fun _ => ⟨rfl, rfl⟩
  | announced haccepts => exact h.of_eq (pairs_insertManifests t _ _ now).2
  | kept haccepts hupsert => exact h.of_eq (pairs_upsertChunkRow hupsert).2
  | finished hfinishes =>
      obtain ⟨duplicate, hupsert⟩ := hfinishes.upserted
      exact (h.of_eq (pairs_upsertChunkRow hupsert).2).storeObject
  | requested haccepts =>
      intro id row hrow
      rw [withContentRequest, withConversation_contentRequests, Table.get?_put] at hrow
      split at hrow
      · obtain rfl := Option.some.inj hrow
        exact ⟨Option.isSome_of_mem haccepts.task, howners _ _ haccepts.task⟩
      · exact h id row hrow

end Requests

/-! ## The tables -/

/-- The row is the one of its snapshot, which is valid. -/
structure TaskRow.Fits (ref : String) (row : TaskRow) : Prop where
  columns : row = taskRowOf row.clientId row.snapshotJson
  key : row.snapshotJson.taskRef = ref
  valid : row.snapshotJson.validate = .ok ()

/-- The key of the session of a task row. -/
def TaskRow.session (row : TaskRow) : SessionKey :=
  (row.clientId, row.provider, row.sessionId, row.threadId)

/-- What the tables say of each other. -/
structure Coherent (db : Database) : Prop where
  task : ∀ ref row, db.tasks.get? ref = some row → row.Fits ref
  codexTask : ∀ ref, db.codexTasks.get? ref =
    (db.tasks.get? ref).map fun row => row.snapshotJson.codex
  session : ∀ ref row, db.tasks.get? ref = some row → (db.sessions.get? row.session).isSome
  client : ∀ ref row, db.tasks.get? ref = some row → (db.clients.get? row.clientId).isSome
  sessionClient : ∀ key row, db.sessions.get? key = some row → (db.clients.get? key.1).isSome
  attempts : PayloadsFit AttemptRecord.attemptId AttemptRecord.startedAtMs
    (fun ref a => a.taskRef = ref ∧ a.validate = .ok ()) db.tasks db.attempts
  taskEvents : PayloadsFit TaskEvent.eventId TaskEvent.occurredAtMs
    (fun ref e => e.taskRef = ref ∧ e.validate = .ok ()) db.tasks db.taskEvents
  errors : PayloadsFit ErrorRecord.errorId ErrorRecord.occurredAtMs
    (fun ref e => e.taskRef = ref ∧ e.validate = .ok ()) db.tasks db.errors
  captureGaps : PayloadsFit CaptureGapRecord.gapId CaptureGapRecord.occurredAtMs
    (fun ref g => (∀ value ∈ g.taskRef, value = ref) ∧ g.validate = .ok ()) db.tasks db.captureGaps
  heartbeat : ∀ id h, db.heartbeats.get? id = some h → h.heartbeatId = id ∧ h.validate = .ok () ∧
    (db.clients.get? h.clientId).isSome ∧ (db.clientInstances.get? h.instanceId).isSome
  instances : ∀ id row, db.clientInstances.get? id = some row → (db.clients.get? row.clientId).isSome
  receipt : ∀ key row, db.ingestReceipts.get? key = some row → (db.clients.get? key.1).isSome
  requests : RequestsFit db.tasks db.clients db.content

theorem coherent_empty : Coherent .empty := by
  constructor <;> simp [Database.empty, ContentTables.empty, PayloadsFit, RequestsFit]

namespace Coherent

variable {db : Database}

/-- A row that is inserted or there already is there. -/
theorem isSome_insertIgnore {κ ν : Type} [DecidableEq κ] {t : Table κ ν} {k k' : κ} {v : ν}
    (h : k' = k ∨ (t.get? k').isSome) : ((t.insertIgnore k v).get? k').isSome := by
  rw [Table.get?_insertIgnore]
  split
  · rfl
  · rename_i hne
    exact h.resolve_left hne

theorem isSome_put {κ ν : Type} [DecidableEq κ] {t : Table κ ν} {k k' : κ} {v : ν}
    (h : k' = k ∨ (t.get? k').isSome) : ((t.put k v).get? k').isSome := by
  rw [Table.get?_put]
  split
  · rfl
  · rename_i hne
    exact h.resolve_left hne

theorem ensureClientExists (h : Coherent db) (clientId : String) (now : TimestampMs) :
    Coherent (Api.ensureClientExists db clientId now) :=
  { h with
    client := fun ref row hrow => isSome_insertIgnore (.inr (h.client ref row hrow))
    sessionClient := fun key row hrow => isSome_insertIgnore (.inr (h.sessionClient key row hrow))
    heartbeat := fun id b hb =>
      have hold := h.heartbeat id b hb
      ⟨hold.1, hold.2.1, isSome_insertIgnore (.inr hold.2.2.1), hold.2.2.2⟩
    instances := fun id row hrow => isSome_insertIgnore (.inr (h.instances id row hrow))
    receipt := fun key row hrow => isSome_insertIgnore (.inr (h.receipt key row hrow))
    requests := h.requests.mono (fun _ => id) fun _ hclient => isSome_insertIgnore (.inr hclient) }

theorem sweep (h : Coherent db) (sweep : Sweep) (now : TimestampMs) :
    Coherent (db.sweep sweep now) := by
  cases sweep with
  | heartbeats =>
      refine { h with heartbeat := fun id b hb => ?_ }
      rw [Database.sweep, deleteBefore, Table.get?_deleteWhere, Option.filter_eq_some_iff] at hb
      exact h.heartbeat id b hb.1
  | receipts =>
      refine { h with receipt := fun key row hrow => ?_ }
      rw [Database.sweep, deleteBefore, Table.get?_deleteWhere, Option.filter_eq_some_iff] at hrow
      exact h.receipt key row hrow.1
  | ephemera table =>
      cases table with
      | taskEvents => exact { h with taskEvents := h.taskEvents.deleteBefore _ }
      | errors => exact { h with errors := h.errors.deleteBefore _ }
      | captureGaps => exact { h with captureGaps := h.captureGaps.deleteBefore _ }

theorem persistClient (h : Coherent db) (batch : IngestBatch) :
    Coherent (Server.persistClient db batch) where
  task := h.task
  codexTask := h.codexTask
  session := h.session
  client ref row hrow := isSome_insertIgnore (.inr (h.client ref row hrow))
  sessionClient key row hrow := isSome_insertIgnore (.inr (h.sessionClient key row hrow))
  attempts := h.attempts
  taskEvents := h.taskEvents
  errors := h.errors
  captureGaps := h.captureGaps
  heartbeat id b hb := by
    obtain ⟨hid, hvalid, hclient, hinstance⟩ := h.heartbeat id b hb
    exact ⟨hid, hvalid, isSome_insertIgnore (.inr hclient), isSome_put (.inr hinstance)⟩
  instances id row hrow := by
    rw [Server.persistClient, Table.get?_upsert] at hrow
    split at hrow
    · obtain rfl := Option.some.inj hrow
      cases hold : db.clientInstances.get? batch.client.instanceId with
      | none => exact isSome_insertIgnore (.inl rfl)
      | some old => exact isSome_insertIgnore (.inr (h.instances _ old hold))
    · exact isSome_insertIgnore (.inr (h.instances id row hrow))
  receipt key row hrow := isSome_insertIgnore (.inr (h.receipt key row hrow))
  requests := h.requests.mono (fun _ => id) fun _ hclient => isSome_insertIgnore (.inr hclient)

theorem persistTaskUpload (h : Coherent db) {clientId : String} {upload : TaskUpload}
    (hvalid : upload.Valid) (hclient : (db.clients.get? clientId).isSome) :
    Coherent (Server.persistTaskUpload clientId db upload) := by
  have htasks : ∀ ref, (db.tasks.get? ref).isSome →
      ((Server.persistTaskUpload clientId db upload).tasks.get? ref).isSome :=
    fun ref href => isSome_put (.inr href)
  have htask : ((Server.persistTaskUpload clientId db upload).tasks.get?
      upload.snapshot.taskRef).isSome := isSome_put (.inl rfl)
  -- a task row is the new one, or an old one
  have hrows : ∀ ref row,
      (Server.persistTaskUpload clientId db upload).tasks.get? ref = some row →
        (ref = upload.snapshot.taskRef ∧ row = taskRowOf clientId upload.snapshot) ∨
          db.tasks.get? ref = some row := by
    intro ref row hrow
    rw [Server.persistTaskUpload, Table.get?_put] at hrow
    split at hrow
    · rename_i href
      exact .inl ⟨href, (Option.some.inj hrow).symm⟩
    · exact .inr hrow
  exact {
    task := by
      intro ref row hrow
      rcases hrows ref row hrow with ⟨rfl, rfl⟩ | hold
      · exact ⟨rfl, rfl, hvalid.snapshot⟩
      · exact h.task ref row hold
    codexTask := by
      intro ref
      rw [Server.persistTaskUpload, Table.get?_put, Table.get?_put, h.codexTask]
      split <;> rfl
    session := by
      intro ref row hrow
      rcases hrows ref row hrow with ⟨-, rfl⟩ | hold
      · exact isSome_put (.inl rfl)
      · exact isSome_put (.inr (h.session ref row hold))
    client := by
      intro ref row hrow
      rcases hrows ref row hrow with ⟨-, rfl⟩ | hold
      · exact hclient
      · exact h.client ref row hold
    sessionClient := by
      intro key row hrow
      rw [Server.persistTaskUpload, Table.get?_upsert] at hrow
      split at hrow
      · rename_i hkey
        rw [hkey]
        exact hclient
      · exact h.sessionClient key row hrow
    attempts := (h.attempts.mono htasks).upsert htask fun a ha =>
      ⟨hvalid.attemptTask a ha, hvalid.attempt a ha⟩
    taskEvents := (h.taskEvents.mono htasks).upsert htask fun e he =>
      ⟨hvalid.eventTask e he, hvalid.event e he⟩
    errors := (h.errors.mono htasks).upsert htask fun e he =>
      ⟨hvalid.errorTask e he, hvalid.error e he⟩
    captureGaps := (h.captureGaps.mono htasks).upsert htask fun g hg =>
      ⟨hvalid.gapTask g hg, hvalid.gap g hg⟩
    heartbeat := h.heartbeat
    instances := h.instances
    receipt := h.receipt
    requests := h.requests.mono htasks fun _ => id }

/-- An applied batch leaves the tables coherent. -/
theorem applied (h : Coherent db) {batch : IngestBatch} (hvalid : batch.Valid) (sha : String)
    (now : TimestampMs) : Coherent (Server.applied db batch sha now) := by
  -- the client and the instance stay from the first statement on
  have hfolded : Coherent (batch.tasks.foldl (Server.persistTaskUpload batch.client.clientId)
        (Server.persistClient db batch)) ∧
      ((batch.tasks.foldl (Server.persistTaskUpload batch.client.clientId)
        (Server.persistClient db batch)).clients.get? batch.client.clientId).isSome := by
    refine List.foldlRecOn (motive := fun db =>
      Coherent db ∧ (db.clients.get? batch.client.clientId).isSome) batch.tasks _
      ⟨h.persistClient batch, isSome_insertIgnore (.inl rfl)⟩ ?_
    rintro db ⟨hdb, hclient⟩ upload hupload
    exact ⟨hdb.persistTaskUpload (hvalid.task upload hupload) hclient, hclient⟩
  obtain ⟨hcoherent, hclient⟩ := hfolded
  have hinstance : ((Server.applied db batch sha now).clientInstances.get?
      batch.client.instanceId).isSome := by
    rw [applied_clientInstances]
    exact isSome_put (.inl rfl)
  have hclients : (Server.applied db batch sha now).clients =
      (Server.persistClient db batch).clients := by
    have hfold := foldl_persistTaskUpload batch.client.clientId Database.clients (fun t _ => t)
      (fun _ _ => rfl) batch.tasks (Server.persistClient db batch)
    rw [List.foldl_fixed] at hfold
    exact hfold
  refine { hcoherent with heartbeat := fun id b hb => ?_, receipt := fun key row hrow => ?_ }
  · rw [applied_heartbeats] at hb
    by_cases hmem : id ∈ (batch.heartbeats.map fun b => (b.heartbeatId, b)).map Prod.fst
    · obtain ⟨sent, hsent, hget⟩ := Table.get?_putAll_of_mem (t := db.heartbeats) hmem
      obtain ⟨own, hown, heq⟩ := List.mem_map.mp hsent
      obtain ⟨hid, rfl⟩ := Prod.mk.inj heq
      obtain rfl := Option.some.inj (hb.symm.trans hget)
      obtain ⟨hsame, hsame'⟩ := hvalid.heartbeatClient b hown
      refine ⟨hid, hvalid.heartbeat b hown, ?_, ?_⟩
      · rw [hsame]
        exact hclient
      · rw [hsame']
        exact hinstance
    · rw [Table.get?_putAll_of_not_mem hmem] at hb
      obtain ⟨hid, hvalid, hclient', hinstance'⟩ := h.heartbeat id b hb
      refine ⟨hid, hvalid, ?_, ?_⟩
      · rw [hclients]
        exact isSome_insertIgnore (.inr hclient')
      · rw [applied_clientInstances]
        exact isSome_put (.inr hinstance')
  · rw [applied_ingestReceipts, Table.get?_put] at hrow
    split at hrow
    · rename_i hkey
      rw [hkey]
      exact hclient
    · rw [hclients]
      exact isSome_insertIgnore (.inr (h.receipt key row hrow))

theorem write (h : Coherent db) {db' : Database} (hwrite : Write db db') : Coherent db' := by
  cases hwrite with
  | none => exact h
  | content hchange => exact { h with requests := h.requests.change h.client hchange }
  | client clientId now => exact h.ensureClientExists clientId now
  | swept sweep now => exact h.sweep sweep now
  | ingested hvalid haccepts => exact h.applied hvalid _ _

end Coherent

/-- In every state that requests, commands and cleanups lead to, the columns of tasks, payloads
and heartbeats are those of valid records, and what a row names is stored. -/
theorem coherent_run (codec : Codec) (es : List Api.Event) :
    Coherent (Run.run (Api.step codec) (.start .empty) es).db :=
  Api.database_run (I := Coherent) (fun _ _ h hwrite => h.write hwrite) coherent_empty es

end Codexwatch.Server
