import Codexwatch.Protocol.Codec

/-!
# Validation of the content messages

The checks that the full-content service makes of its requests, its manifests and
its chunks.

## Main definitions

* `ContentRequest.validate`, `ContentObjectManifest.validate`,
  `ContentUploadChunk.validate`.
-/
namespace Codexwatch.Protocol

open Check Text

namespace ContentRequest

def validate (r : ContentRequest) : Checked := do
  validateUuidV7 "request_id" r.requestId
  validateText "client_id" r.clientId MAX_ID_BYTES
  validateText "task_ref" r.taskRef MAX_ID_BYTES
  validateText "session_id" r.sessionId MAX_ID_BYTES
  validateText "thread_id" r.threadId MAX_ID_BYTES
  ensure (r.parts ≠ []) ⟨"parts", "must not be empty"⟩
  whenSome r.expiresAtMs fun expires =>
    ensure (r.createdAtMs < expires) ⟨"expires_at_ms", "must be later than created_at_ms"⟩

structure Valid (r : ContentRequest) : Prop where
  requestId : isUuidV7 r.requestId
  clientId : TextWithin MAX_ID_BYTES r.clientId
  taskRef : TextWithin MAX_ID_BYTES r.taskRef
  sessionId : TextWithin MAX_ID_BYTES r.sessionId
  threadId : TextWithin MAX_ID_BYTES r.threadId
  parts : r.parts ≠ []
  expiresAtMs : ∀ expires, r.expiresAtMs = some expires → r.createdAtMs < expires

theorem validate_eq_ok {r : ContentRequest} : r.validate = .ok () ↔ r.Valid := by
  simp only [validate, bind_eq_ok, exists_unit_and, validateUuidV7_eq_ok, validateText_eq_ok,
    whenSome_eq_ok, ensure_eq_ok]
  constructor
  · intro h
    rcases h with ⟨h₁, h₂, h₃, h₄, h₅, h₆, h₇⟩
    exact ⟨h₁, h₂, h₃, h₄, h₅, h₆, h₇⟩
  · intro h
    exact ⟨h.1, h.2, h.3, h.4, h.5, h.6, h.7⟩

/-- `expires_at_ms.is_some_and(|expires| expires <= now)` -/
def expiredAt (r : ContentRequest) (now : TimestampMs) : Bool := r.expiresAtMs.any (· ≤ now)

end ContentRequest

namespace ContentObjectManifest

def validate (m : ContentObjectManifest) : Checked := do
  validateUuidV7 "request_id" m.requestId
  validateText "task_ref" m.taskRef MAX_ID_BYTES
  validateText "session_id" m.sessionId MAX_ID_BYTES
  validateText "thread_id" m.threadId MAX_ID_BYTES
  validateSha256 "object_sha256" m.objectSha256
  validateText "media_type" m.mediaType MAX_SHORT_TEXT_BYTES
  ensure (m.chunkCount ≠ 0) ⟨"chunk_count", "must be greater than zero"⟩

structure Valid (m : ContentObjectManifest) : Prop where
  requestId : isUuidV7 m.requestId
  taskRef : TextWithin MAX_ID_BYTES m.taskRef
  sessionId : TextWithin MAX_ID_BYTES m.sessionId
  threadId : TextWithin MAX_ID_BYTES m.threadId
  objectSha256 : isHexDigest m.objectSha256
  mediaType : TextWithin MAX_SHORT_TEXT_BYTES m.mediaType
  chunkCount : m.chunkCount ≠ 0

theorem validate_eq_ok {m : ContentObjectManifest} : m.validate = .ok () ↔ m.Valid := by
  simp only [validate, bind_eq_ok, exists_unit_and, validateUuidV7_eq_ok, validateText_eq_ok,
    validateSha256_eq_ok, ensure_eq_ok]
  constructor
  · intro h
    rcases h with ⟨h₁, h₂, h₃, h₄, h₅, h₆, h₇⟩
    exact ⟨h₁, h₂, h₃, h₄, h₅, h₆, h₇⟩
  · intro h
    exact ⟨h.1, h.2, h.3, h.4, h.5, h.6, h.7⟩

end ContentObjectManifest

namespace ContentUploadChunk

def validate (codec : Codec) (c : ContentUploadChunk) : Checked := do
  validateUuidV7 "request_id" c.requestId
  validateSha256 "object_sha256" c.objectSha256
  validateSha256 "payload_sha256" c.payloadSha256
  ensure (c.chunkCount ≠ 0 ∧ c.chunkIndex < c.chunkCount)
    ⟨"chunk_index", "must be smaller than a non-zero chunk_count"⟩
  ensure (c.isLast = decide (c.chunkIndex + 1 = c.chunkCount))
    ⟨"is_last", "must identify exactly the final chunk"⟩
  ensure (c.payloadZstd.length ≤ MAX_CONTENT_CHUNK_BYTES)
    ⟨"payload_zstd", s!"must not exceed {MAX_CONTENT_CHUNK_BYTES} bytes"⟩
  ensure (codec.sha256Hex c.payloadZstd = asciiLowercase c.payloadSha256)
    ⟨"payload_sha256", "must match payload_zstd"⟩

structure Valid (codec : Codec) (c : ContentUploadChunk) : Prop where
  requestId : isUuidV7 c.requestId
  objectSha256 : isHexDigest c.objectSha256
  payloadSha256 : isHexDigest c.payloadSha256
  chunkIndex : c.chunkIndex < c.chunkCount
  isLast : c.isLast = decide (c.chunkIndex + 1 = c.chunkCount)
  payloadZstd : c.payloadZstd.length ≤ MAX_CONTENT_CHUNK_BYTES
  payloadDigest : codec.sha256Hex c.payloadZstd = asciiLowercase c.payloadSha256

theorem validate_eq_ok {codec : Codec} {c : ContentUploadChunk} :
    c.validate codec = .ok () ↔ c.Valid codec := by
  simp only [validate, bind_eq_ok, exists_unit_and, validateUuidV7_eq_ok, validateSha256_eq_ok,
    ensure_eq_ok]
  constructor
  · intro h
    rcases h with ⟨h₁, h₂, h₃, ⟨_, h₄⟩, h₅, h₆, h₇⟩
    exact ⟨h₁, h₂, h₃, h₄, h₅, h₆, h₇⟩
  · intro h
    exact ⟨h.1, h.2, h.3, ⟨Nat.ne_zero_of_lt h.4, h.4⟩, h.5, h.6, h.7⟩

end ContentUploadChunk

end Codexwatch.Protocol
