import Codexwatch.Lib.Table
import Codexwatch.Protocol.Types

/-!
# The server's database

The tables that `migrate` creates in `server/src/lib.rs`, with their primary keys.
A JSON column holds the value it was written from; a UUID column holds the UUID.
Columns that no statement writes are left out.

## Main definitions

* `ContentTables` — the tables of the full-content service.
* `Database` — all tables.
* `Principal` — the client and the role that a bearer token is bound to.
-/
namespace Codexwatch.Server

open Protocol Relational

inductive StatusCode
  | ok | badRequest | forbidden | notFound | conflict | payloadTooLarge | internalServerError
  deriving DecidableEq, Repr

inductive TokenRole
  | client | reader | admin
  deriving DecidableEq, Repr

def TokenRole.canIngest (role : TokenRole) : Bool := role = .client
def TokenRole.canQuery (role : TokenRole) : Bool := role = .reader ∨ role = .admin
def TokenRole.isAdmin (role : TokenRole) : Bool := role = .admin

structure Principal where
  clientId : String
  role : TokenRole
  deriving DecidableEq

structure ClientInstanceRow where
  clientId : String
  hostname : String
  platform : String
  codexVersion : String
  startedAtMs : TimestampMs
  lastSeenAtMs : TimestampMs
  deriving DecidableEq

/-- `(client_id, provider, session_id, thread_id)`. -/
abbrev SessionKey := String × String × String × String

structure SessionRow where
  firstSeenAtMs : TimestampMs
  lastSeenAtMs : TimestampMs
  deriving DecidableEq

structure TaskRow where
  clientId : String
  provider : String
  sessionId : String
  threadId : String
  turnId : String
  phase : TaskPhase
  terminal : Option TerminalOutcome
  updatedAtMs : TimestampMs
  snapshotJson : TaskSnapshot
  deriving DecidableEq

/-- A row of `attempts`, `task_events`, `errors` or `capture_gaps`. -/
structure PayloadRow (α : Type) where
  taskRef : String
  ts : TimestampMs
  payloadJson : α
  deriving DecidableEq

structure ReceiptRow where
  payloadSha256 : String
  receivedAtMs : TimestampMs
  deriving DecidableEq

inductive CommandStatus
  | pending | dispatched | completed
  deriving DecidableEq, Repr

structure CommandRow where
  requestId : Uuid
  clientId : String
  status : CommandStatus
  createdAtMs : TimestampMs
  deliveredAtMs : Option TimestampMs
  completedAtMs : Option TimestampMs
  payloadJson : ContentRequestCommand
  deriving DecidableEq

inductive RequestStatus
  | pending | partialUpload | stored | contentExpired | rejected
  deriving DecidableEq, Repr

structure ContentRequestRow where
  clientId : String
  taskRef : String
  sessionId : String
  threadId : String
  partsJson : List ContentPart
  createdAtMs : TimestampMs
  expiresAtMs : Option TimestampMs
  completedAtMs : Option TimestampMs
  status : RequestStatus
  outcome : Option RequestStatus
  deriving DecidableEq

/-- `(request_id, object_sha256)`. -/
abbrev ObjectKey := Uuid × String

structure ManifestRow where
  clientId : String
  manifestJson : ContentObjectManifest
  createdAtMs : TimestampMs
  deriving DecidableEq

/-- `(request_id, object_sha256, chunk_index)`. -/
abbrev ChunkKey := Uuid × String × ℕ

structure ChunkRow where
  chunkCount : ℕ
  payloadSha256 : String
  payloadZstd : Bytes
  isLast : Bool
  receivedAtMs : TimestampMs
  deriving DecidableEq

structure ContentObjectRow where
  contentZstd : Bytes
  uncompressedBytes : ℕ
  compressedBytes : ℕ
  createdAtMs : TimestampMs
  lastAccessedAtMs : TimestampMs
  deriving DecidableEq

structure ContentLinkRow where
  clientId : String
  sessionId : String
  threadId : String
  manifestJson : ContentObjectManifest
  createdAtMs : TimestampMs
  lastAccessedAtMs : TimestampMs
  deriving DecidableEq

/-- `(client_id, session_id, thread_id)`. -/
abbrev ConversationKey := String × String × String

/-- The tables of the full-content service. -/
structure ContentTables where
  commands : Table Uuid CommandRow
  contentRequests : Table Uuid ContentRequestRow
  contentManifests : Table ObjectKey ManifestRow
  contentChunks : Table ChunkKey ChunkRow
  contentObjects : Table String ContentObjectRow
  contentLinks : Table ObjectKey ContentLinkRow
  /-- `last_requested_at_ms`. -/
  contentConversations : Table ConversationKey TimestampMs

def ContentTables.empty : ContentTables :=
  ⟨.empty, .empty, .empty, .empty, .empty, .empty, .empty⟩

structure Database where
  clients : Table String TimestampMs
  clientInstances : Table Uuid ClientInstanceRow
  sessions : Table SessionKey SessionRow
  tasks : Table String TaskRow
  codexTasks : Table String CodexTaskMetadata
  attempts : Table Uuid (PayloadRow AttemptRecord)
  taskEvents : Table Uuid (PayloadRow TaskEvent)
  errors : Table Uuid (PayloadRow ErrorRecord)
  captureGaps : Table Uuid (PayloadRow CaptureGapRecord)
  heartbeats : Table Uuid Heartbeat
  ingestReceipts : Table (String × Uuid) ReceiptRow
  content : ContentTables

/-- The database after `migrate`. -/
def Database.empty : Database :=
  ⟨.empty, .empty, .empty, .empty, .empty, .empty, .empty, .empty, .empty, .empty, .empty, .empty⟩

end Codexwatch.Server
