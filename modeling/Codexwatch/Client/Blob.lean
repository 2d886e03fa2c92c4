import Mathlib.Data.List.Infix
import Codexwatch.Lib.Chunks
import Codexwatch.Lib.Table
import Codexwatch.Client.Normalize
import Codexwatch.Protocol.Content

/-!
# Captured content

`client/src/blob.rs`, and the rows of `raw_objects` that `client/src/store.rs`
keeps for it. A body is compressed into a file named by its digest, its row says
how large it is and in how many chunks it travels, and `prepare_upload` copies the
row into a manifest.

## Main definitions

* `BlobStore.store`, `BlobStore.loadChunks`.
* `Contents` — the files with the tables `raw_objects` and `commands`.
* `persistContent`, `prepareUpload`.
-/
namespace Codexwatch.Client

open Protocol Relational Check

def RETENTION_HOURS : ℤ := 72

def hours (n : ℤ) : ℤ := n * 3600 * 1000000000

structure StoredContentInput where
  task : TaskKey
  part : ContentPart
  mediaType : String
  body : Bytes
  headers : List (String × String)
  createdAt : OffsetDateTime

structure StoredBlob where
  task : TaskKey
  part : ContentPart
  objectSha256 : String
  mediaType : String
  uncompressedBytes : ℕ
  compressedBytes : Bytes
  chunkCount : ℕ
  createdAt : OffsetDateTime
  expiresAt : OffsetDateTime
  sanitizedHeaders : List (String × String)

def isSensitiveHeader (key : String) : Bool :=
  let lower := Text.asciiLowercase key
  lower ∈ ["authorization", "proxy-authorization", "cookie", "set-cookie"] ||
    "api-key".toList <:+: lower.toList

def sanitizeHeaders (headers : List (String × String)) : List (String × String) :=
  headers.filter fun h => !isSensitiveHeader h.1

/-- `as u32` keeps 32 bits. -/
def chunkCount (compressedBytes : ℕ) : ℕ :=
  max (Chunks.divCeil compressedBytes MAX_CONTENT_CHUNK_BYTES) 1 % 2 ^ 32

/-- The files under the blob root, by the digest that names them. -/
abbrev BlobStore := Table String Bytes

namespace BlobStore

/-- An existing file is left as it is. -/
def store (codec : Codec) (files : BlobStore) (input : StoredContentInput) :
    Option (StoredBlob × BlobStore) :=
  if Text.isBlank input.mediaType then none
  else
    let objectSha256 := codec.sha256Hex input.body
    let compressedBytes := codec.encodeAll input.body
    some ({
      task := input.task
      part := input.part
      objectSha256
      mediaType := input.mediaType
      uncompressedBytes := input.body.length
      compressedBytes
      chunkCount := chunkCount input.body.length
      createdAt := input.createdAt
      expiresAt := input.createdAt + hours RETENTION_HOURS
      sanitizedHeaders := sanitizeHeaders input.headers },
      files.insertIgnore objectSha256 compressedBytes)

/-- The chunk of a file that starts at `index` mebibytes; `as u32` keeps 32 bits. -/
def chunkOf (codec : Codec) (file : Bytes) (objectSha256 : String) (requestId : Uuid)
    (index : ℕ) : ContentUploadChunk where
  requestId := requestId
  chunkIndex := index % 2 ^ 32
  chunkCount := chunkCount file.length
  objectSha256 := objectSha256
  payloadSha256 := codec.sha256Hex (Chunks.piece MAX_CONTENT_CHUNK_BYTES file index)
  payloadZstd := Chunks.piece MAX_CONTENT_CHUNK_BYTES file index
  isLast := (index + 1) % 2 ^ 32 = chunkCount file.length

def loadChunks (codec : Codec) (files : BlobStore) (objectSha256 : String) (requestId : Uuid) :
    Option (List ContentUploadChunk) := do
  let file ← files.get? objectSha256
  pure ((List.range (Chunks.divCeil file.length MAX_CONTENT_CHUNK_BYTES)).map
    (chunkOf codec file objectSha256 requestId))

end BlobStore

/-! ## The rows of the store -/

structure RawObjectRow where
  taskRef : String
  part : ContentPart
  mediaType : String
  uncompressedBytes : ℕ
  compressedBytes : ℕ
  chunkCount : ℕ
  createdAt : ℤ
  expiresAt : ℤ
  pinnedByCommandId : Option Uuid
  sanitizedHeadersJson : List (String × String)

inductive CommandStatus
  | pending | running | failed | completed
  deriving DecidableEq, Repr

structure CommandRow where
  expiresAt : ℤ
  status : CommandStatus
  payloadJson : ContentRequestCommand
  resultJson : Option ContentUploadResult
  errorJson : Option String
  attemptCount : ℕ
  nextAttemptAt : ℤ
  completedAt : Option ℤ

structure Contents where
  files : BlobStore
  rawObjects : Table String RawObjectRow
  commands : Table Uuid CommandRow

def rawObjectRowOf (stored : StoredBlob) : RawObjectRow where
  taskRef := stored.task.taskRef
  part := stored.part
  mediaType := stored.mediaType
  uncompressedBytes := stored.uncompressedBytes
  compressedBytes := stored.compressedBytes.length
  chunkCount := stored.chunkCount
  createdAt := ts stored.createdAt
  expiresAt := ts stored.expiresAt
  pinnedByCommandId := none
  sanitizedHeadersJson := stored.sanitizedHeaders

/-- The file and the row of one content of `persist_ingress`. -/
def persistContent (codec : Codec) (c : Contents) (input : StoredContentInput) :
    Option (StoredBlob × Contents) := do
  let (stored, files) ← c.files.store codec input
  pure (stored, { c with
    files
    rawObjects := c.rawObjects.replace stored.objectSha256 (rawObjectRowOf stored) })

/-! ## Preparing an upload -/

def contentPartName : ContentPart → String
  | .request => "request"
  | .response => "response"
  | .toolInput => "tool_input"
  | .toolOutput => "tool_output"
  | .modelText => "model_text"

structure UploadWork where
  commandId : Uuid
  requestId : Uuid
  manifests : List ContentObjectManifest

inductive UploadPreparation
  | ready (work : UploadWork)
  | expired (commandId : Uuid) (result : ContentUploadResult)

/-- `ORDER BY created_at DESC LIMIT 1` among the rows of the part. -/
def newestObject (c : Contents) (taskRef : String) (part : ContentPart) :
    Option (String × RawObjectRow) :=
  lastBy (fun r => r.2.createdAt)
    (c.rawObjects.rows.filter fun r => r.2.taskRef = taskRef ∧ r.2.part = part)

def manifestOf (request : ContentRequest) (part : ContentPart) (objectSha256 : String)
    (row : RawObjectRow) : ContentObjectManifest where
  requestId := request.requestId
  taskRef := request.taskRef
  sessionId := request.sessionId
  threadId := request.threadId
  part := part
  objectSha256 := objectSha256
  mediaType := row.mediaType
  uncompressedBytes := row.uncompressedBytes
  compressedBytes := row.compressedBytes
  chunkCount := row.chunkCount
  createdAtMs := row.createdAt

/-- The manifest of one part, or why it cannot be sent. -/
def prepareManifest (c : Contents) (request : ContentRequest) (nowMs : ℤ) (part : ContentPart) :
    Except String ContentObjectManifest := do
  let (objectSha256, row) ← required (newestObject c request.taskRef part)
    s!"missing local content for part {contentPartName part}"
  ensure (nowMs < row.expiresAt) s!"expired local content for part {contentPartName part}"
  pure (manifestOf request part objectSha256 row)

def prepareUpload (c : Contents) (command : ContentRequestCommand) (nowMs : ℤ) :
    UploadPreparation × Contents :=
  let request := command.request
  if request.expiredAt nowMs then
    (.expired command.commandId
      ⟨request.requestId, .contentExpired, some "content request expired"⟩, c)
  else
    match request.parts.mapM (prepareManifest c request nowMs) with
    | .error note =>
        (.expired command.commandId ⟨request.requestId, .contentExpired, some note⟩, c)
    | .ok manifests =>
        (.ready ⟨command.commandId, request.requestId, manifests⟩, { c with
          rawObjects := c.rawObjects.updateWhere (fun _ row => row.taskRef = request.taskRef)
            fun row => { row with pinnedByCommandId := some command.commandId }
          commands := c.commands.modify command.commandId fun row =>
            { row with
              status := .running
              attemptCount := row.attemptCount + 1
              nextAttemptAt := nowMs } })

/-! ## What is stored and what is announced -/

variable {codec : Codec} {c c' : Contents} {input : StoredContentInput} {stored : StoredBlob}

/-- Storing needs a media type. It writes the row, and the file unless there is one. -/
theorem persistContent_eq_some : persistContent codec c input = some (stored, c') ↔
    Text.isBlank input.mediaType = false ∧
    { task := input.task
      part := input.part
      objectSha256 := codec.sha256Hex input.body
      mediaType := input.mediaType
      uncompressedBytes := input.body.length
      compressedBytes := codec.encodeAll input.body
      chunkCount := chunkCount input.body.length
      createdAt := input.createdAt
      expiresAt := input.createdAt + hours RETENTION_HOURS
      sanitizedHeaders := sanitizeHeaders input.headers } = stored ∧
    { c with
      files := c.files.insertIgnore stored.objectSha256 stored.compressedBytes
      rawObjects := c.rawObjects.replace stored.objectSha256 (rawObjectRowOf stored) } = c' := by
  cases hblank : Text.isBlank input.mediaType with
  | true => simp [persistContent, BlobStore.store, hblank]
  | false =>
      simp only [persistContent, BlobStore.store, hblank, Bool.false_eq_true, if_false,
        Option.bind_eq_bind, Option.bind_some, Option.pure_def, Option.some.injEq, Prod.mk.injEq,
        true_and]
      constructor
      · intro ⟨hstored, hc⟩
        subst hstored
        exact ⟨rfl, hc⟩
      · intro ⟨hstored, hc⟩
        subst hstored
        exact ⟨rfl, hc⟩

theorem files_prepareUpload {command : ContentRequestCommand} {nowMs : ℤ}
    {preparation : UploadPreparation} (h : prepareUpload c command nowMs = (preparation, c')) :
    c'.files = c.files := by
  have hc : (prepareUpload c command nowMs).2.files = c.files := by
    rw [prepareUpload]
    split
    · rfl
    · split <;> rfl
  rw [h] at hc
  exact hc

/-- A prepared manifest is a copy of a row. -/
theorem manifest_of_ready {command : ContentRequestCommand} {nowMs : ℤ} {work : UploadWork}
    (h : prepareUpload c command nowMs = (.ready work, c')) {manifest : ContentObjectManifest}
    (hm : manifest ∈ work.manifests) :
    ∃ part row, part ∈ command.request.parts ∧
      c.rawObjects.get? manifest.objectSha256 = some row ∧
      manifest = manifestOf command.request part manifest.objectSha256 row := by
  rw [prepareUpload] at h
  split at h
  · cases h
  · split at h
    · cases h
    · rename_i manifests hmanifests
      obtain ⟨hwork, -⟩ := Prod.mk.inj h
      cases hwork
      obtain ⟨part, hpart, hmanifest⟩ := exists_of_mem_mapM hmanifests hm
      simp only [prepareManifest, bind_eq_ok, exists_unit_and, required_eq_ok,
        pure_eq_ok] at hmanifest
      obtain ⟨⟨objectSha256, row⟩, hnewest, -, rfl⟩ := hmanifest
      have hrow := List.mem_filter.mp (List.argmax_mem hnewest)
      exact ⟨part, row, hpart, Table.get?_eq_some.mpr hrow.1, rfl⟩

end Codexwatch.Client
