import Mathlib.Data.List.Sort
import Mathlib.Data.Prod.Lex
import Mathlib.Data.String.Basic
import Codexwatch.Lib.Chunks
import Codexwatch.Protocol.Content
import Codexwatch.Server.Ingest

/-!
# Full content

The handlers of content requests, manifests, chunks and results. Each runs in one
transaction: it returns the reply with the new tables, or a status, and then the
tables stay as they were. The clock and fresh identifiers are arguments.

## Main definitions

* `createContentRequest`, `uploadManifests`, `uploadChunk`, `uploadResult` — the handlers.
* `evictOldConversations` — keeps the newest conversations of a client.
-/
namespace Codexwatch.Server

open Protocol Relational Check

def CONTENT_CONVERSATION_LIMIT : ℕ := 30

namespace ContentTables

variable (t : ContentTables)

/-! ## Reading a request -/

def requestOf (clientId : String) (requestId : Uuid) (row : ContentRequestRow) :
    ContentRequest where
  requestId := requestId
  clientId := clientId
  taskRef := row.taskRef
  sessionId := row.sessionId
  threadId := row.threadId
  createdAtMs := row.createdAtMs
  expiresAtMs := row.expiresAtMs
  parts := row.partsJson

def loadCommandRequest (commandId : Uuid) (clientId : String) : Option ContentRequest := do
  let command ← t.commands.get? commandId
  guard (command.clientId = clientId)
  let row ← t.contentRequests.get? command.requestId
  pure (requestOf clientId command.requestId row)

def loadManifest (requestId : Uuid) (objectSha256 : String) : Option ContentObjectManifest :=
  (t.contentManifests.get? (requestId, objectSha256)).map ManifestRow.manifestJson

/-! ## Completing a request -/

def completeRequestAndCommand (requestId : Uuid) (status : RequestStatus) (now : TimestampMs) :
    ContentTables :=
  { t with
    contentRequests := t.contentRequests.modify requestId fun row =>
      { row with status, outcome := some status, completedAtMs := some now }
    commands := t.commands.updateWhere (fun _ row => row.requestId = requestId) fun row =>
      { row with status := .completed, completedAtMs := some now } }

/-! ## Conversations -/

def touchConversation (clientId sessionId threadId : String) (now : TimestampMs) :
    ContentTables :=
  { t with
    contentConversations := t.contentConversations.put (clientId, sessionId, threadId) now }

/-- `SELECT COUNT(*) FROM content_conversations WHERE client_id = ..`. -/
def conversationCount (clientId : String) : ℕ :=
  t.contentConversations.countWhere fun k _ => k.1 = clientId

/-- The order of eviction: by time, then by session, then by thread. -/
def age (row : ConversationKey × TimestampMs) : ℤ ×ₗ String ×ₗ String :=
  toLex (row.2, toLex (row.1.2.1, row.1.2.2))

def selectOldestConversation (clientId : String) : Option (String × String) :=
  (firstBy age (t.contentConversations.rows.filter fun r => r.1.1 = clientId)).map
    fun r => (r.1.2.1, r.1.2.2)

/-- The request ids are collected first; an object goes when no other link is left. -/
def evictConversation (clientId sessionId threadId : String) : ContentTables :=
  let requestIds := (t.contentRequests.rows.filter fun r =>
    r.2.clientId = clientId ∧ r.2.sessionId = sessionId ∧ r.2.threadId = threadId).map Prod.fst
  let objectSha256s := (t.contentLinks.rows.filter fun r => r.1.1 ∈ requestIds).map fun r => r.1.2
  let contentLinks := t.contentLinks.deleteWhere fun k _ => k.1 ∈ requestIds
  { t with
    contentManifests := t.contentManifests.deleteWhere fun k _ => k.1 ∈ requestIds
    contentChunks := t.contentChunks.deleteWhere fun k _ => k.1 ∈ requestIds
    contentLinks
    contentObjects := t.contentObjects.deleteWhere fun sha _ =>
      sha ∈ objectSha256s ∧ contentLinks.rows.all fun r => r.1.2 ≠ sha
    contentConversations := t.contentConversations.deleteWhere fun k _ =>
      k = (clientId, sessionId, threadId) }

/-- At most the given number of rounds of the eviction loop. -/
def evictLoop (clientId : String) : ℕ → ContentTables → ContentTables
  | 0, t => t
  | fuel + 1, t =>
      if t.conversationCount clientId ≤ CONTENT_CONVERSATION_LIMIT then t
      else
        match t.selectOldestConversation clientId with
        | none => t
        | some (sessionId, threadId) =>
            evictLoop clientId fuel (t.evictConversation clientId sessionId threadId)

/-- Every round removes a conversation, so the loop has at most as many rounds as there
are conversations. -/
def evictOldConversations (clientId : String) : ContentTables :=
  evictLoop clientId (t.conversationCount clientId) t

/-! ## Manifests and chunks -/

def persistManifestRow (manifest : ContentObjectManifest) (clientId : String)
    (now : TimestampMs) : Except StatusCode ContentTables :=
  match t.contentManifests.get? (manifest.requestId, manifest.objectSha256) with
  | some row => if row.manifestJson ≠ manifest then .error .conflict else .ok t
  | none => .ok { t with
      contentManifests := t.contentManifests.put (manifest.requestId, manifest.objectSha256)
        ⟨clientId, manifest, now⟩ }

/-- The row of a chunk. -/
def chunkRowOf (chunk : ContentUploadChunk) (now : TimestampMs) : ChunkRow where
  chunkCount := chunk.chunkCount
  payloadSha256 := chunk.payloadSha256
  payloadZstd := chunk.payloadZstd
  isLast := chunk.isLast
  receivedAtMs := now

/-- Whether the chunk was there already, and the tables with it. -/
def upsertChunkRow (chunk : ContentUploadChunk) (now : TimestampMs) :
    Except StatusCode (Bool × ContentTables) :=
  match t.contentChunks.get? (chunk.requestId, chunk.objectSha256, chunk.chunkIndex) with
  | some row =>
      if row.chunkCount ≠ chunk.chunkCount ∨ row.payloadSha256 ≠ chunk.payloadSha256 ∨
          row.isLast ≠ chunk.isLast then .error .conflict
      else .ok (true, t)
  | none =>
      if t.contentChunks.rows.any fun r => r.1.1 = chunk.requestId ∧
          r.1.2.1 = chunk.objectSha256 ∧ r.2.chunkCount ≠ chunk.chunkCount then .error .conflict
      else .ok (false, { t with
        contentChunks := t.contentChunks.put
          (chunk.requestId, chunk.objectSha256, chunk.chunkIndex) (chunkRowOf chunk now) })

/-- The chunk rows of an object, as `(chunk_index, payload_zstd)` in the order of the index. -/
def chunksOf (requestId : Uuid) (objectSha256 : String) : List (ℕ × Bytes) :=
  ((t.contentChunks.rows.filter fun r => r.1.1 = requestId ∧ r.1.2.1 = objectSha256).map
    fun r => (r.1.2.2, r.2.payloadZstd)).insertionSort fun a b => a.1 ≤ b.1

def isObjectComplete (requestId : Uuid) (objectSha256 : String) (chunkCount : ℕ) : Bool :=
  (t.chunksOf requestId objectSha256).map Prod.fst = List.range chunkCount

def assembleObject (requestId : Uuid) (objectSha256 : String) (chunkCount : ℕ) :
    Except StatusCode Bytes := do
  let rows := t.chunksOf requestId objectSha256
  ensure (rows.length = chunkCount) .badRequest
  pure (rows.flatMap Prod.snd)

def upsertContentObject (request : ContentRequest) (manifest : ContentObjectManifest)
    (assembledZstd uncompressed : Bytes) (now : TimestampMs) : ContentTables :=
  { t with
    contentObjects := t.contentObjects.upsert manifest.objectSha256
      ⟨assembledZstd, uncompressed.length, assembledZstd.length, now, now⟩
      fun old =>
        { old with
          contentZstd := assembledZstd
          uncompressedBytes := uncompressed.length
          compressedBytes := assembledZstd.length
          lastAccessedAtMs := now }
    contentLinks := t.contentLinks.upsert (request.requestId, manifest.objectSha256)
      ⟨request.clientId, request.sessionId, request.threadId, manifest, now, now⟩
      fun old => { old with manifestJson := manifest, lastAccessedAtMs := now } }

def linkedObjectCount (requestId : Uuid) : ℕ :=
  t.contentLinks.countWhere fun k _ => k.1 = requestId

/-- The object is stored and linked, the conversation touched, and the request completed
when all its parts are there. -/
def storeObject (request : ContentRequest) (manifest : ContentObjectManifest)
    (assembled uncompressed : Bytes) (now : TimestampMs) : ContentTables :=
  let t := t.upsertContentObject request manifest assembled uncompressed now
  let t := t.touchConversation request.clientId request.sessionId request.threadId now
  if request.parts.length ≤ t.linkedObjectCount request.requestId then
    t.completeRequestAndCommand request.requestId .stored now
  else
    { t with
      contentRequests := t.contentRequests.modify request.requestId fun row =>
        { row with status := .partialUpload } }

end ContentTables

/-! ## The handlers -/

def ensureClientRole (principal : Principal) : Except StatusCode Unit :=
  ensure principal.role.canIngest .forbidden

def ensureAdminRole (principal : Principal) : Except StatusCode Unit :=
  ensure principal.role.isAdmin .forbidden

def uploadManifests (principal : Principal) (commandId : Uuid)
    (manifests : List ContentObjectManifest) (now : TimestampMs) (t : ContentTables) :
    Except StatusCode ContentTables := do
  ensureClientRole principal
  let request ← required (t.loadCommandRequest commandId principal.clientId) .notFound
  ensure (manifests ≠ []) .badRequest
  if request.expiredAt now then
    pure (t.completeRequestAndCommand request.requestId .contentExpired now)
  else
    manifests.foldlM (fun t manifest => do
      manifest.validate.mapError fun _ => .badRequest
      ensure (manifest.requestId = request.requestId ∧ manifest.taskRef = request.taskRef ∧
        manifest.sessionId = request.sessionId ∧ manifest.threadId = request.threadId ∧
        manifest.part ∈ request.parts) .forbidden
      t.persistManifestRow manifest request.clientId now) t

/-- The last part of `upload_chunk`: an object whose chunks are all there is stored. -/
def finishObject (codec : Codec) (request : ContentRequest) (manifest : ContentObjectManifest)
    (chunk : ContentUploadChunk) (duplicate : Bool) (now : TimestampMs) (t : ContentTables) :
    Except StatusCode (ContentUploadResult × ContentTables) :=
  if t.isObjectComplete chunk.requestId chunk.objectSha256 chunk.chunkCount then do
    let assembled ← t.assembleObject chunk.requestId chunk.objectSha256 chunk.chunkCount
    let uncompressed ← required (codec.decodeAll assembled) .badRequest
    ensure (codec.sha256Hex uncompressed = Text.asciiLowercase chunk.objectSha256) .badRequest
    ensure (assembled.length = manifest.compressedBytes ∧
      uncompressed.length = manifest.uncompressedBytes) .badRequest
    pure (⟨chunk.requestId, .stored, if duplicate then some "duplicate_chunk_stored" else none⟩,
      t.storeObject request manifest assembled uncompressed now)
  else
    .ok (⟨chunk.requestId, .stored,
      some (if duplicate then "duplicate_chunk" else "partial_upload")⟩, t)

def uploadChunk (codec : Codec) (principal : Principal) (commandId : Uuid)
    (chunk : ContentUploadChunk) (now : TimestampMs) (t : ContentTables) :
    Except StatusCode (ContentUploadResult × ContentTables) := do
  ensureClientRole principal
  (chunk.validate codec).mapError fun _ => .badRequest
  let request ← required (t.loadCommandRequest commandId principal.clientId) .notFound
  ensure (request.requestId = chunk.requestId) .forbidden
  if request.expiredAt now then
    pure (⟨request.requestId, .contentExpired, some "content_expired"⟩,
      t.completeRequestAndCommand request.requestId .contentExpired now)
  else
    let manifest ← required (t.loadManifest request.requestId chunk.objectSha256) .conflict
    ensure (manifest.chunkCount = chunk.chunkCount) .conflict
    let (duplicate, t) ← t.upsertChunkRow chunk now
    finishObject codec request manifest chunk duplicate now t

def requestStatusOf : ContentUploadStatus → RequestStatus
  | .stored => .stored
  | .contentExpired => .contentExpired
  | .rejected => .rejected

def uploadResult (principal : Principal) (commandId : Uuid) (result : ContentUploadResult)
    (now : TimestampMs) (t : ContentTables) : Except StatusCode ContentTables := do
  ensureClientRole principal
  let request ← required (t.loadCommandRequest commandId principal.clientId) .notFound
  ensure (request.requestId = result.requestId) .forbidden
  pure (t.completeRequestAndCommand result.requestId (requestStatusOf result.status) now)

/-- The request that an administrator makes for a task. -/
def contentRequestFor (row : TaskRow) (taskRef : String) (parts : List ContentPart)
    (expiresAtMs : Option TimestampMs) (requestId : Uuid) (now : TimestampMs) :
    ContentRequest where
  requestId := requestId
  clientId := row.clientId
  taskRef := taskRef
  sessionId := row.sessionId
  threadId := row.threadId
  createdAtMs := now
  expiresAtMs := expiresAtMs
  parts := parts

def contentRequestRowOf (request : ContentRequest) : ContentRequestRow where
  clientId := request.clientId
  taskRef := request.taskRef
  sessionId := request.sessionId
  threadId := request.threadId
  partsJson := request.parts
  createdAtMs := request.createdAtMs
  expiresAtMs := request.expiresAtMs
  completedAtMs := none
  status := .pending
  outcome := none

def commandRowOf (command : ContentRequestCommand) : CommandRow where
  requestId := command.request.requestId
  clientId := command.request.clientId
  status := .pending
  createdAtMs := command.request.createdAtMs
  deliveredAtMs := none
  completedAtMs := none
  payloadJson := command

/-- The transaction of `create_content_request_inner`. -/
def insertContentRequest (command : ContentRequestCommand) (t : ContentTables) :
    Except StatusCode ContentTables := do
  let request := command.request
  let t := t.touchConversation request.clientId request.sessionId request.threadId
    request.createdAtMs
  let t := t.evictOldConversations request.clientId
  let contentRequests ← required
    (t.contentRequests.insertNew request.requestId (contentRequestRowOf request))
    .internalServerError
  let commands ← required (t.commands.insertNew command.commandId (commandRowOf command))
    .internalServerError
  pure { t with contentRequests, commands }

def createContentRequest (tasks : Table String TaskRow) (principal : Principal) (taskRef : String)
    (parts : List ContentPart) (expiresAtMs : Option TimestampMs) (requestId commandId : Uuid)
    (now : TimestampMs) (t : ContentTables) : Except StatusCode ContentTables := do
  ensureAdminRole principal
  let row ← required (tasks.get? taskRef) .notFound
  let request := contentRequestFor row taskRef parts expiresAtMs requestId now
  request.validate.mapError fun _ => .badRequest
  insertContentRequest ⟨commandId, request⟩ t

/-! ## What each handler writes -/

namespace ContentTables

variable {t t' : ContentTables} {clientId : String} {now : TimestampMs}

def manifestKey (manifest : ContentObjectManifest) : ObjectKey :=
  (manifest.requestId, manifest.objectSha256)

/-- The row of a manifest, unless there is one. -/
def insertManifest (t : ContentTables) (manifest : ContentObjectManifest) (clientId : String)
    (now : TimestampMs) : ContentTables :=
  { t with
    contentManifests := t.contentManifests.insertIgnore (manifestKey manifest)
      ⟨clientId, manifest, now⟩ }

/-- A stored manifest under the key is this one. -/
def ManifestFits (t : ContentTables) (manifest : ContentObjectManifest) : Prop :=
  ∀ row, t.contentManifests.get? (manifestKey manifest) = some row → row.manifestJson = manifest

theorem persistManifestRow_eq_ok {manifest : ContentObjectManifest} :
    t.persistManifestRow manifest clientId now = .ok t' ↔
      t.ManifestFits manifest ∧ t.insertManifest manifest clientId now = t' := by
  rw [persistManifestRow, ManifestFits, insertManifest, Table.insertIgnore]
  cases h : t.contentManifests.get? (manifest.requestId, manifest.objectSha256) with
  | none => simp [manifestKey, h]
  | some row => by_cases hrow : row.manifestJson = manifest <;> simp [manifestKey, h, hrow]

theorem get?_insertManifest {manifest : ContentObjectManifest} (key : ObjectKey) :
    (t.insertManifest manifest clientId now).contentManifests.get? key =
      if key = manifestKey manifest then
        some ((t.contentManifests.get? key).getD ⟨clientId, manifest, now⟩)
      else t.contentManifests.get? key := by
  rw [insertManifest, Table.get?_insertIgnore]
  by_cases hkey : key = manifestKey manifest
  · simp [hkey]
  · simp [hkey]

/-- Several manifests go in when each fits the stored ones and those of its own key. -/
def ManifestsFit (t : ContentTables) (manifests : List ContentObjectManifest) : Prop :=
  (∀ m ∈ manifests, t.ManifestFits m) ∧
    ∀ m ∈ manifests, ∀ m' ∈ manifests, manifestKey m = manifestKey m' → m = m'

theorem manifestsFit_cons (clientId : String) (now : TimestampMs) {manifest : ContentObjectManifest}
    {manifests : List ContentObjectManifest} :
    t.ManifestsFit (manifest :: manifests) ↔ t.ManifestFits manifest ∧
      (t.insertManifest manifest clientId now).ManifestsFit manifests := by
  constructor
  · intro ⟨hfits, hsame⟩
    refine ⟨hfits manifest (by simp), ?_, fun m hm m' hm' => hsame m (by simp [hm]) m' (by simp [hm'])⟩
    intro m hm row hrow
    rw [get?_insertManifest] at hrow
    by_cases hkey : manifestKey m = manifestKey manifest
    · obtain rfl : m = manifest := hsame m (by simp [hm]) manifest (by simp) hkey
      rw [if_pos rfl, Option.some.injEq] at hrow
      cases hget : t.contentManifests.get? (manifestKey m) with
      | none => simp [← hrow, hget]
      | some old =>
          rw [← hrow, hget]
          exact hfits m (by simp) old hget
    · rw [if_neg hkey] at hrow
      exact hfits m (by simp [hm]) row hrow
  · intro ⟨hfirst, hfits, hsame⟩
    -- what the first manifest leaves under its key is itself
    have hstored : ∀ m ∈ manifests, manifestKey m = manifestKey manifest → manifest = m := by
      intro m hm hkey
      have hrow := hfits m hm ((t.contentManifests.get? (manifestKey manifest)).getD
        ⟨clientId, manifest, now⟩) (by rw [get?_insertManifest, if_pos hkey, hkey])
      cases hget : t.contentManifests.get? (manifestKey manifest) with
      | none => simpa [hget] using hrow
      | some old =>
          rw [hget] at hrow
          exact (hfirst old hget).symm.trans hrow
    constructor
    · intro m hm
      rw [List.mem_cons] at hm
      obtain rfl | hm := hm
      · exact hfirst
      · intro row hrow
        by_cases hkey : manifestKey m = manifestKey manifest
        · obtain rfl := hstored m hm hkey
          exact hfirst row hrow
        · exact hfits m hm row (by rw [get?_insertManifest, if_neg hkey, hrow])
    · intro m hm m' hm' hkey
      rw [List.mem_cons] at hm hm'
      obtain rfl | hm := hm
      · obtain rfl | hm' := hm'
        · rfl
        · exact hstored m' hm' hkey.symm
      · obtain rfl | hm' := hm'
        · exact (hstored m hm hkey).symm
        · exact hsame m hm m' hm' hkey

def insertChunk (t : ContentTables) (chunk : ContentUploadChunk) (now : TimestampMs) :
    ContentTables :=
  { t with
    contentChunks := t.contentChunks.put
      (chunk.requestId, chunk.objectSha256, chunk.chunkIndex) (chunkRowOf chunk now) }

/-- A chunk is there already, or it goes in beside chunks of the same count. -/
theorem upsertChunkRow_eq_ok {chunk : ContentUploadChunk} {r : Bool × ContentTables} :
    t.upsertChunkRow chunk now = .ok r ↔
      (∃ row, t.contentChunks.get? (chunk.requestId, chunk.objectSha256, chunk.chunkIndex) =
          some row ∧ row.chunkCount = chunk.chunkCount ∧
        row.payloadSha256 = chunk.payloadSha256 ∧ row.isLast = chunk.isLast ∧ (true, t) = r) ∨
      (t.contentChunks.get? (chunk.requestId, chunk.objectSha256, chunk.chunkIndex) = none ∧
        (∀ row ∈ t.contentChunks.rows, row.1.1 = chunk.requestId →
          row.1.2.1 = chunk.objectSha256 → row.2.chunkCount = chunk.chunkCount) ∧
        (false, t.insertChunk chunk now) = r) := by
  rw [upsertChunkRow]
  cases h : t.contentChunks.get? (chunk.requestId, chunk.objectSha256, chunk.chunkIndex) with
  | some row =>
      simp only [ite_error_eq_ok, not_or, not_not, Except.ok.injEq, Option.some.injEq,
        exists_eq_left', and_assoc, reduceCtorEq, false_and, or_false]
  | none =>
      have hmismatch : (¬ (t.contentChunks.rows.any fun r => r.1.1 = chunk.requestId ∧
            r.1.2.1 = chunk.objectSha256 ∧ r.2.chunkCount ≠ chunk.chunkCount) = true) ↔
          ∀ row ∈ t.contentChunks.rows, row.1.1 = chunk.requestId →
            row.1.2.1 = chunk.objectSha256 → row.2.chunkCount = chunk.chunkCount := by
        rw [Bool.not_eq_true, List.any_eq_false]
        simp
      simp only [ite_error_eq_ok, hmismatch, Except.ok.injEq, reduceCtorEq, false_and,
        exists_false, false_or, true_and]
      rfl

/-! The chunk rows of an object have distinct numbers. -/

theorem nodup_chunkRows (t : ContentTables) (requestId : Uuid) (objectSha256 : String) :
    (((t.contentChunks.rows.filter fun r => r.1.1 = requestId ∧ r.1.2.1 = objectSha256).map
      fun r => (r.1.2.2, r.2.payloadZstd)).map Prod.fst).Nodup := by
  rw [List.map_map]
  refine List.Nodup.map_on ?_ (t.contentChunks.nodup.of_map.filter _)
  intro a ha b hb hab
  simp only [List.mem_filter, decide_eq_true_eq] at ha hb
  apply List.inj_on_of_nodup_map t.contentChunks.nodup ha.1 hb.1
  exact Prod.ext (ha.2.1.trans hb.2.1.symm) (Prod.ext (ha.2.2.trans hb.2.2.symm) hab)

/-- The object is complete when its chunks are those below the count. -/
theorem isObjectComplete_eq_true {requestId : Uuid} {objectSha256 : String} {n : ℕ} :
    t.isObjectComplete requestId objectSha256 n = true ↔
      ∀ i, (t.contentChunks.get? (requestId, objectSha256, i)).isSome ↔ i < n := by
  rw [isObjectComplete, decide_eq_true_eq, chunksOf,
    Chunks.map_fst_sorted_eq_range (nodup_chunkRows ..)]
  refine forall_congr' fun i => iff_congr ?_ Iff.rfl
  simp only [List.mem_map, List.mem_filter, decide_eq_true_eq, Option.isSome_iff_exists,
    Table.get?_eq_some]
  constructor
  · rintro ⟨r, ⟨⟨⟨id, sha, j⟩, row⟩, ⟨hmem, rfl, rfl⟩, rfl⟩, rfl⟩
    exact ⟨row, hmem⟩
  · rintro ⟨row, hmem⟩
    exact ⟨(i, row.payloadZstd), ⟨_, ⟨hmem, rfl, rfl⟩, rfl⟩, rfl⟩

/-! Completing a request changes its status columns, which no upload reads. -/

theorem loadCommandRequest_modify (requestId : Uuid) {commandId : Uuid}
    {f : ContentRequestRow → ContentRequestRow}
    (hf : ∀ clientId id row, requestOf clientId id (f row) = requestOf clientId id row) :
    loadCommandRequest { t with contentRequests := t.contentRequests.modify requestId f } commandId
      clientId = t.loadCommandRequest commandId clientId := by
  simp only [loadCommandRequest, Table.get?_modify]
  cases t.commands.get? commandId with
  | none => rfl
  | some command =>
      by_cases hid : command.requestId = requestId
      · cases hrow : t.contentRequests.get? requestId with
        | none => simp [hid, hrow]
        | some row => simp [hid, hrow, hf]
      · simp [hid]

theorem loadCommandRequest_complete {commandId requestId : Uuid} {status : RequestStatus} :
    (t.completeRequestAndCommand requestId status now).loadCommandRequest commandId clientId =
      t.loadCommandRequest commandId clientId := by
  rw [← loadCommandRequest_modify requestId (t := t) (f := fun row =>
    { row with status, outcome := some status, completedAtMs := some now }) (by intros; rfl)]
  simp only [loadCommandRequest, completeRequestAndCommand, Table.get?_updateWhere]
  cases t.commands.get? commandId with
  | none => rfl
  | some command => by_cases hid : command.requestId = requestId <;> simp [hid]

section Store
variable {request : ContentRequest} {manifest : ContentObjectManifest}
  {assembled uncompressed : Bytes}

theorem loadCommandRequest_storeObject {commandId : Uuid} :
    (t.storeObject request manifest assembled uncompressed now).loadCommandRequest commandId
      clientId = t.loadCommandRequest commandId clientId := by
  rw [storeObject]
  split
  · exact loadCommandRequest_complete
  · exact loadCommandRequest_modify _ (by intros; rfl)

/-- Storing an object leaves the manifests and the chunks. -/
theorem storeObject_frame (t : ContentTables) (request : ContentRequest)
    (manifest : ContentObjectManifest) (assembled uncompressed : Bytes) (now : TimestampMs) :
    (t.storeObject request manifest assembled uncompressed now).contentManifests =
        t.contentManifests ∧
      (t.storeObject request manifest assembled uncompressed now).contentChunks =
        t.contentChunks := by
  rw [storeObject]
  split
  · exact ⟨rfl, rfl⟩
  · exact ⟨rfl, rfl⟩

/-- The object is there, with the assembled content. -/
theorem get?_storeObject :
    ∃ row, (t.storeObject request manifest assembled uncompressed now).contentObjects.get?
      manifest.objectSha256 = some row ∧ row.contentZstd = assembled := by
  have hobjects : (t.storeObject request manifest assembled uncompressed now).contentObjects =
      (t.upsertContentObject request manifest assembled uncompressed now).contentObjects := by
    rw [storeObject]
    split <;> rfl
  rw [hobjects, upsertContentObject, Table.get?_upsert_self]
  cases t.contentObjects.get? manifest.objectSha256 with
  | none => exact ⟨_, rfl, rfl⟩
  | some old => exact ⟨_, rfl, rfl⟩

end Store

/-- The manifest describes a part of the request. -/
structure ManifestMatches (request : ContentRequest) (manifest : ContentObjectManifest) :
    Prop where
  requestId : manifest.requestId = request.requestId
  taskRef : manifest.taskRef = request.taskRef
  sessionId : manifest.sessionId = request.sessionId
  threadId : manifest.threadId = request.threadId
  part : manifest.part ∈ request.parts

def insertManifests (t : ContentTables) (manifests : List ContentObjectManifest)
    (clientId : String) (now : TimestampMs) : ContentTables :=
  manifests.foldl (fun t manifest => t.insertManifest manifest clientId now) t

/-- Manifests touch neither requests nor conversations. -/
theorem insertManifests_frame (clientId : String) (now : TimestampMs)
    (manifests : List ContentObjectManifest) :
    (t.insertManifests manifests clientId now).contentRequests = t.contentRequests ∧
      (t.insertManifests manifests clientId now).contentConversations =
        t.contentConversations := by
  induction manifests generalizing t with
  | nil => exact ⟨rfl, rfl⟩
  | cons m manifests ih => exact ih (t := t.insertManifest m clientId now)

/-- Every manifest that is sent has a row afterwards. -/
theorem isSome_insertManifests (clientId : String) (now : TimestampMs)
    {manifests : List ContentObjectManifest} {key : ObjectKey}
    (h : (t.contentManifests.get? key).isSome ∨ key ∈ manifests.map manifestKey) :
    ((t.insertManifests manifests clientId now).contentManifests.get? key).isSome := by
  induction manifests generalizing t with
  | nil => exact h.resolve_right (by simp)
  | cons m manifests ih =>
      apply ih
      rw [get?_insertManifest]
      rw [List.map_cons, List.mem_cons] at h
      by_cases hkey : key = manifestKey m
      · simp [hkey]
      · rw [if_neg hkey]
        exact h.imp id fun h => h.resolve_left hkey

/-- The state in which `upload_manifests` stores the manifests it is sent. -/
structure AcceptsManifests (t : ContentTables) (principal : Principal) (commandId : Uuid)
    (manifests : List ContentObjectManifest) (now : TimestampMs) (request : ContentRequest) :
    Prop where
  role : principal.role.canIngest
  command : t.loadCommandRequest commandId principal.clientId = some request
  nonempty : manifests ≠ []
  unexpired : request.expiredAt now = false
  valid : ∀ m ∈ manifests, m.Valid ∧ ManifestMatches request m
  fit : t.ManifestsFit manifests

end ContentTables

open ContentTables

section Handlers
variable {t t' : ContentTables} {principal : Principal} {commandId : Uuid} {now : TimestampMs}

theorem foldlM_persistManifestRow {request : ContentRequest}
    {manifests : List ContentObjectManifest} :
    manifests.foldlM (fun t manifest => do
      manifest.validate.mapError fun _ => StatusCode.badRequest
      ensure (manifest.requestId = request.requestId ∧ manifest.taskRef = request.taskRef ∧
        manifest.sessionId = request.sessionId ∧ manifest.threadId = request.threadId ∧
        manifest.part ∈ request.parts) .forbidden
      t.persistManifestRow manifest request.clientId now) t = .ok t' ↔
      ((∀ m ∈ manifests, m.Valid ∧ ManifestMatches request m) ∧ t.ManifestsFit manifests) ∧
        t.insertManifests manifests request.clientId now = t' := by
  induction manifests generalizing t with
  | nil =>
      simp [insertManifests, ManifestsFit]
  | cons m manifests ih =>
      rw [List.foldlM_cons, manifestsFit_cons request.clientId now]
      simp only [bind_eq_ok, exists_unit_and, mapError_eq_ok, ensure_eq_ok, ih,
        persistManifestRow_eq_ok, ContentObjectManifest.validate_eq_ok, List.forall_mem_cons]
      constructor
      · intro h
        rcases h with ⟨_, ⟨hvalid, ⟨h₁, h₂, h₃, h₄, h₅⟩, hfits, heq⟩, hrest⟩
        subst heq
        exact ⟨⟨⟨⟨hvalid, h₁, h₂, h₃, h₄, h₅⟩, hrest.1.1⟩, hfits, hrest.1.2⟩, hrest.2⟩
      · intro h
        rcases h with ⟨⟨⟨⟨hvalid, h₁, h₂, h₃, h₄, h₅⟩, hall⟩, hfits, hrest⟩, heq⟩
        exact ⟨_, ⟨hvalid, ⟨h₁, h₂, h₃, h₄, h₅⟩, hfits, rfl⟩, ⟨hall, hrest⟩, heq⟩

/-- An accepted post stores its manifests, or finds the request expired. -/
theorem uploadManifests_eq_ok {manifests : List ContentObjectManifest} :
    uploadManifests principal commandId manifests now t = .ok t' ↔
      (∃ request, t.AcceptsManifests principal commandId manifests now request ∧
        t.insertManifests manifests request.clientId now = t') ∨
      (∃ request, principal.role.canIngest ∧ manifests ≠ [] ∧
        t.loadCommandRequest commandId principal.clientId = some request ∧
        request.expiredAt now = true ∧
        t.completeRequestAndCommand request.requestId .contentExpired now = t') := by
  simp only [uploadManifests, ensureClientRole, bind_eq_ok, exists_unit_and, ensure_eq_ok,
    required_eq_ok]
  constructor
  · intro h
    rcases h with ⟨hrole, request, hload, hne, h⟩
    cases hexpired : request.expiredAt now with
    | true =>
        rw [hexpired, if_pos rfl, pure_eq_ok] at h
        exact .inr ⟨request, hrole, hne, hload, hexpired, h⟩
    | false =>
        rw [hexpired, if_neg (by simp), foldlM_persistManifestRow] at h
        exact .inl ⟨request, ⟨hrole, hload, hne, hexpired, h.1.1, h.1.2⟩, h.2⟩
  · rintro (⟨request, h, heq⟩ | ⟨request, hrole, hne, hload, hexpired, heq⟩)
    · refine ⟨h.role, request, h.command, h.nonempty, ?_⟩
      rw [h.unexpired, if_neg (by simp), foldlM_persistManifestRow]
      exact ⟨⟨h.valid, h.fit⟩, heq⟩
    · refine ⟨hrole, request, hload, hne, ?_⟩
      rw [hexpired, if_pos rfl, pure_eq_ok]
      exact heq

/-- The state in which `upload_chunk` stores the chunk it is sent. -/
structure AcceptsChunk (codec : Codec) (principal : Principal) (commandId : Uuid)
    (chunk : ContentUploadChunk) (now : TimestampMs) (t : ContentTables)
    (request : ContentRequest) (manifest : ContentObjectManifest) : Prop where
  role : principal.role.canIngest
  valid : chunk.Valid codec
  command : t.loadCommandRequest commandId principal.clientId = some request
  requestId : request.requestId = chunk.requestId
  unexpired : request.expiredAt now = false
  stored : t.loadManifest request.requestId chunk.objectSha256 = some manifest
  chunkCount : manifest.chunkCount = chunk.chunkCount

theorem uploadChunk_of_accepts {codec : Codec} {chunk : ContentUploadChunk}
    {request : ContentRequest} {manifest : ContentObjectManifest}
    (h : AcceptsChunk codec principal commandId chunk now t request manifest) :
    uploadChunk codec principal commandId chunk now t = (do
      let (duplicate, t) ← t.upsertChunkRow chunk now
      finishObject codec request manifest chunk duplicate now t) := by
  have hvalid := ContentUploadChunk.validate_eq_ok.mpr h.valid
  simp [uploadChunk, ensureClientRole, ensure, required, h.role, hvalid, h.command, h.requestId,
    h.unexpired, h.requestId ▸ h.stored, h.chunkCount, Except.mapError, bind, Except.bind]

/-- An accepted chunk is stored and may finish its object, or finds the request expired. -/
theorem uploadChunk_eq_ok {codec : Codec} {chunk : ContentUploadChunk}
    {r : ContentUploadResult × ContentTables} :
    uploadChunk codec principal commandId chunk now t = .ok r ↔
      (∃ request manifest, AcceptsChunk codec principal commandId chunk now t request manifest ∧
        ∃ duplicate t₁, t.upsertChunkRow chunk now = .ok (duplicate, t₁) ∧
          finishObject codec request manifest chunk duplicate now t₁ = .ok r) ∨
      (∃ request, principal.role.canIngest ∧ chunk.Valid codec ∧
        t.loadCommandRequest commandId principal.clientId = some request ∧
        request.requestId = chunk.requestId ∧ request.expiredAt now = true ∧
        (⟨request.requestId, .contentExpired, some "content_expired"⟩,
          t.completeRequestAndCommand request.requestId .contentExpired now) = r) := by
  simp only [uploadChunk, ensureClientRole, bind_eq_ok, exists_unit_and, ensure_eq_ok,
    required_eq_ok, mapError_eq_ok, ContentUploadChunk.validate_eq_ok]
  constructor
  · intro h
    rcases h with ⟨hrole, hvalid, request, hload, hid, h⟩
    cases hexpired : request.expiredAt now with
    | true =>
        rw [hexpired, if_pos rfl, pure_eq_ok] at h
        exact .inr ⟨request, hrole, hvalid, hload, hid, hexpired, h⟩
    | false =>
        rw [hexpired, if_neg (by simp)] at h
        simp only [bind_eq_ok, exists_unit_and, ensure_eq_ok, required_eq_ok] at h
        obtain ⟨manifest, hmanifest, hcount, ⟨duplicate, t₁⟩, hupsert, hfinish⟩ := h
        exact .inl ⟨request, manifest, ⟨hrole, hvalid, hload, hid, hexpired, hmanifest, hcount⟩,
          duplicate, t₁, hupsert, hfinish⟩
  · rintro (⟨request, manifest, h, duplicate, t₁, hupsert, hfinish⟩ |
      ⟨request, hrole, hvalid, hload, hid, hexpired, heq⟩)
    · refine ⟨h.role, h.valid, request, h.command, h.requestId, ?_⟩
      rw [h.unexpired, if_neg (by simp)]
      simp only [bind_eq_ok, exists_unit_and, ensure_eq_ok, required_eq_ok]
      exact ⟨manifest, h.stored, h.chunkCount, _, hupsert, hfinish⟩
    · refine ⟨hrole, hvalid, request, hload, hid, ?_⟩
      rw [hexpired, if_pos rfl, pure_eq_ok]
      exact heq

/-- A chunk that completes its object needs the right content; any other is simply kept. -/
theorem finishObject_eq_ok {codec : Codec} {request : ContentRequest}
    {manifest : ContentObjectManifest} {chunk : ContentUploadChunk} {duplicate : Bool}
    {r : ContentUploadResult × ContentTables} :
    finishObject codec request manifest chunk duplicate now t = .ok r ↔
      (t.isObjectComplete chunk.requestId chunk.objectSha256 chunk.chunkCount = false ∧
        (⟨chunk.requestId, .stored,
          some (if duplicate then "duplicate_chunk" else "partial_upload")⟩, t) = r) ∨
      (t.isObjectComplete chunk.requestId chunk.objectSha256 chunk.chunkCount = true ∧
        ∃ assembled uncompressed,
          t.assembleObject chunk.requestId chunk.objectSha256 chunk.chunkCount = .ok assembled ∧
          codec.decodeAll assembled = some uncompressed ∧
          codec.sha256Hex uncompressed = Text.asciiLowercase chunk.objectSha256 ∧
          assembled.length = manifest.compressedBytes ∧
          uncompressed.length = manifest.uncompressedBytes ∧
          (⟨chunk.requestId, .stored, if duplicate then some "duplicate_chunk_stored" else none⟩,
            t.storeObject request manifest assembled uncompressed now) = r) := by
  rw [finishObject]
  cases t.isObjectComplete chunk.requestId chunk.objectSha256 chunk.chunkCount with
  | false => simp
  | true =>
      simp only [if_true, bind_eq_ok, exists_unit_and, ensure_eq_ok, required_eq_ok, pure_eq_ok]
      constructor
      · intro h
        rcases h with ⟨assembled, hassembled, uncompressed, hdecode, hsha, ⟨hlen, hlen'⟩, heq⟩
        exact .inr ⟨trivial, assembled, uncompressed, hassembled, hdecode, hsha, hlen, hlen', heq⟩
      · rintro (⟨h, -⟩ | ⟨-, assembled, uncompressed, hassembled, hdecode, hsha, hlen, hlen', heq⟩)
        · cases h
        · exact ⟨assembled, hassembled, uncompressed, hdecode, hsha, ⟨hlen, hlen'⟩, heq⟩

theorem uploadResult_eq_ok {result : ContentUploadResult} :
    uploadResult principal commandId result now t = .ok t' ↔
      principal.role.canIngest ∧ ∃ request,
        t.loadCommandRequest commandId principal.clientId = some request ∧
        request.requestId = result.requestId ∧
        t.completeRequestAndCommand result.requestId (requestStatusOf result.status) now = t' := by
  simp only [uploadResult, ensureClientRole, bind_eq_ok, exists_unit_and, ensure_eq_ok,
    required_eq_ok, pure_eq_ok]

/-- The state in which `create_content_request_inner` queues a command. -/
structure AcceptsContentRequest (tasks : Table String TaskRow) (principal : Principal)
    (taskRef : String) (parts : List ContentPart) (expiresAtMs : Option TimestampMs)
    (requestId commandId : Uuid) (now : TimestampMs) (t : ContentTables) (row : TaskRow) :
    Prop where
  role : principal.role.isAdmin
  task : tasks.get? taskRef = some row
  valid : (contentRequestFor row taskRef parts expiresAtMs requestId now).validate = .ok ()
  requestId : t.contentRequests.get? requestId = none
  commandId : t.commands.get? commandId = none

/-- The tables with the rows of a new request. -/
def withContentRequest (command : ContentRequestCommand) (t : ContentTables) : ContentTables :=
  { t with
    contentRequests :=
      t.contentRequests.put command.request.requestId (contentRequestRowOf command.request)
    commands := t.commands.put command.commandId (commandRowOf command) }

/-- The tables with the conversation of a new request, within the limit. -/
def withConversation (request : ContentRequest) (t : ContentTables) : ContentTables :=
  (t.touchConversation request.clientId request.sessionId request.threadId
    request.createdAtMs).evictOldConversations request.clientId

theorem evictLoop_contentRequests (clientId : String) (fuel : ℕ) :
    (evictLoop clientId fuel t).contentRequests = t.contentRequests ∧
      (evictLoop clientId fuel t).commands = t.commands := by
  induction fuel generalizing t with
  | zero => exact ⟨rfl, rfl⟩
  | succ fuel ih =>
      rw [evictLoop]
      split
      · exact ⟨rfl, rfl⟩
      · split
        · exact ⟨rfl, rfl⟩
        · exact ih

@[simp] theorem withConversation_contentRequests (request : ContentRequest) :
    (withConversation request t).contentRequests = t.contentRequests :=
  (evictLoop_contentRequests ..).1

@[simp] theorem withConversation_commands (request : ContentRequest) :
    (withConversation request t).commands = t.commands :=
  (evictLoop_contentRequests ..).2

theorem createContentRequest_eq_ok {tasks : Table String TaskRow} {taskRef : String}
    {parts : List ContentPart} {expiresAtMs : Option TimestampMs} {requestId : Uuid} :
    createContentRequest tasks principal taskRef parts expiresAtMs requestId commandId now t =
        .ok t' ↔
      ∃ row, AcceptsContentRequest tasks principal taskRef parts expiresAtMs requestId commandId
        now t row ∧
        withContentRequest
          ⟨commandId, contentRequestFor row taskRef parts expiresAtMs requestId now⟩
          (withConversation (contentRequestFor row taskRef parts expiresAtMs requestId now) t) =
          t' := by
  simp only [createContentRequest, insertContentRequest, ensureAdminRole, bind_eq_ok,
    exists_unit_and, ensure_eq_ok, required_eq_ok, mapError_eq_ok, pure_eq_ok,
    Table.insertNew_eq_some]
  constructor
  · intro h
    rcases h with ⟨hrole, row, htask, hvalid, _, ⟨hrequest, rfl⟩, _, ⟨hcommand, rfl⟩, heq⟩
    change (withConversation _ t).contentRequests.get? requestId = none at hrequest
    change (withConversation _ t).commands.get? commandId = none at hcommand
    rw [withConversation_contentRequests] at hrequest
    rw [withConversation_commands] at hcommand
    exact ⟨row, ⟨hrole, htask, hvalid, hrequest, hcommand⟩, heq⟩
  · intro h
    rcases h with ⟨row, h, heq⟩
    refine ⟨h.role, row, h.task, h.valid, _, ⟨?_, rfl⟩, _, ⟨?_, rfl⟩, heq⟩
    · change (withConversation _ t).contentRequests.get? requestId = none
      rw [withConversation_contentRequests, h.requestId]
    · change (withConversation _ t).commands.get? commandId = none
      rw [withConversation_commands, h.commandId]

end Handlers

end Codexwatch.Server
