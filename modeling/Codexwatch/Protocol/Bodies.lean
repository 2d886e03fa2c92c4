import Codexwatch.Lib.Json
import Codexwatch.Protocol.Content

/-!
# Content messages as JSON

What `serde_json` writes for the messages of `protocol/src/types.rs` that the client posts when
it uploads content, and how long these bodies are. A vector of bytes is an array of numbers.

## Main definitions

* `ContentUploadChunk.json`, `ContentObjectManifest.json`.
* `DEFAULT_BODY_LIMIT` — the longest body that the `Json` extractor of `axum` takes.
-/
namespace Codexwatch.Protocol

open Json

/-- Without a `DefaultBodyLimit` layer an extractor takes two mebibytes. -/
def DEFAULT_BODY_LIMIT : ℕ := 2 * 1024 * 1024

def ContentPart.snakeCase : ContentPart → String
  | .request => "request"
  | .response => "response"
  | .toolInput => "tool_input"
  | .toolOutput => "tool_output"
  | .modelText => "model_text"

/-! ## The machine integers of the fields -/

def jsonU32 (n : ℕ) : String := number (n % 2 ^ 32)
def jsonU64 (n : ℕ) : String := number (n % 2 ^ 64)
def jsonI64 (z : ℤ) : String := integer (z.bmod (2 ^ 64))

def Uuid.json (u : Uuid) : String := string u.toString

def ContentUploadChunk.json (c : ContentUploadChunk) : String := object [
  ("request_id", c.requestId.json), ("chunk_index", jsonU32 c.chunkIndex),
  ("chunk_count", jsonU32 c.chunkCount), ("object_sha256", string c.objectSha256),
  ("payload_sha256", string c.payloadSha256),
  ("payload_zstd", array (c.payloadZstd.map fun b => number b.toNat)),
  ("is_last", boolean c.isLast)]

def ContentObjectManifest.json (m : ContentObjectManifest) : String := object [
  ("request_id", m.requestId.json), ("task_ref", string m.taskRef),
  ("session_id", string m.sessionId), ("thread_id", string m.threadId),
  ("part", string m.part.snakeCase), ("object_sha256", string m.objectSha256),
  ("media_type", string m.mediaType), ("uncompressed_bytes", jsonU64 m.uncompressedBytes),
  ("compressed_bytes", jsonU64 m.compressedBytes), ("chunk_count", jsonU32 m.chunkCount),
  ("created_at_ms", jsonI64 m.createdAtMs)]

/-! ## Lengths -/

theorem utf8ByteSize_jsonU32_le (n : ℕ) : (jsonU32 n).utf8ByteSize ≤ 80 :=
  utf8ByteSize_number_le ((Nat.mod_lt _ (by decide)).trans (by decide))

theorem utf8ByteSize_jsonU64_le (n : ℕ) : (jsonU64 n).utf8ByteSize ≤ 80 :=
  utf8ByteSize_number_le (Nat.mod_lt _ (by decide))

theorem utf8ByteSize_jsonI64_le (z : ℤ) : (jsonI64 z).utf8ByteSize ≤ 81 := by
  have hlow := Int.le_bmod (x := z) (m := 2 ^ 64) (by decide)
  have hhigh := Int.bmod_lt (x := z) (m := 2 ^ 64) (by decide)
  apply utf8ByteSize_integer_le
  omega

theorem utf8ByteSize_uuidJson_le (u : Uuid) : u.json.utf8ByteSize ≤ 866 := by
  have hlength : u.toString.length ≤ 36 := by
    simp only [Uuid.toString, String.length_append, String.length_ofList, List.length_take]
    have hhyphen : ("-" : String).length = 1 := by decide +kernel
    omega
  have hbytes := Text.utf8ByteSize_le_four_mul u.toString
  have hstring := utf8ByteSize_string_le u.toString
  rw [Uuid.json]
  omega

/-- A valid manifest, and an array with it alone, is far below the limit. -/
theorem ContentObjectManifest.utf8ByteSize_json_le {m : ContentObjectManifest} (h : m.Valid) :
    (array [m.json]).utf8ByteSize ≤ DEFAULT_BODY_LIMIT := by
  have hrequest := utf8ByteSize_uuidJson_le m.requestId
  have htask := utf8ByteSize_string_le m.taskRef
  have hsession := utf8ByteSize_string_le m.sessionId
  have hthread := utf8ByteSize_string_le m.threadId
  have hpart : (string m.part.snakeCase).utf8ByteSize ≤ 20 := by
    cases m.part <;> decide +kernel
  have hobject := utf8ByteSize_string_le m.objectSha256
  have hmedia := utf8ByteSize_string_le m.mediaType
  have huncompressed := utf8ByteSize_jsonU64_le m.uncompressedBytes
  have hcompressed := utf8ByteSize_jsonU64_le m.compressedBytes
  have hcount := utf8ByteSize_jsonU32_le m.chunkCount
  have hcreated := utf8ByteSize_jsonI64_le m.createdAtMs
  have hdigest : m.objectSha256.utf8ByteSize = 64 := by
    have hsha := h.objectSha256
    simp only [Text.isHexDigest, Bool.and_eq_true, decide_eq_true_eq] at hsha
    exact hsha.1
  have htaskRef := h.taskRef.2
  have hsessionId := h.sessionId.2
  have hthreadId := h.threadId.2
  have hmediaType := h.mediaType.2
  have hkeys : (["request_id", "task_ref", "session_id", "thread_id", "part", "object_sha256",
      "media_type", "uncompressed_bytes", "compressed_bytes", "chunk_count", "created_at_ms"].map
        fun key => (string key).utf8ByteSize).sum ≤ 200 := by decide +kernel
  rw [MAX_ID_BYTES] at htaskRef hsessionId hthreadId
  rw [MAX_SHORT_TEXT_BYTES] at hmediaType
  simp only [List.map_cons, List.map_nil, List.sum_cons, List.sum_nil] at hkeys
  simp only [utf8ByteSize_array, ContentObjectManifest.json, utf8ByteSize_object, List.map_cons,
    List.map_nil, List.sum_cons, List.sum_nil, List.length_cons, List.length_nil,
    DEFAULT_BODY_LIMIT]
  omega

/-- A chunk takes two to four bytes for each byte of its payload, and a little more. -/
theorem ContentUploadChunk.utf8ByteSize_json (c : ContentUploadChunk) :
    2 * c.payloadZstd.length + 70 ≤ c.json.utf8ByteSize ∧
      c.json.utf8ByteSize ≤ 4 * c.payloadZstd.length +
        6 * (c.objectSha256.utf8ByteSize + c.payloadSha256.utf8ByteSize) + 1200 := by
  have hrequest := utf8ByteSize_uuidJson_le c.requestId
  have hindex := utf8ByteSize_jsonU32_le c.chunkIndex
  have hcount := utf8ByteSize_jsonU32_le c.chunkCount
  have hobject := utf8ByteSize_string_le c.objectSha256
  have hdigest := utf8ByteSize_string_le c.payloadSha256
  have hpayload := utf8ByteSize_array_bytes c.payloadZstd
  have hlast : (boolean c.isLast).utf8ByteSize ≤ 5 := by
    cases c.isLast <;> decide +kernel
  have hkeys : (["request_id", "chunk_index", "chunk_count", "object_sha256", "payload_sha256",
      "payload_zstd", "is_last"].map fun key => (string key).utf8ByteSize).sum = 92 := by
    decide +kernel
  simp only [List.map_cons, List.map_nil, List.sum_cons, List.sum_nil] at hkeys
  simp only [json, utf8ByteSize_object, List.map_cons, List.map_nil, List.sum_cons, List.sum_nil,
    List.length_cons, List.length_nil]
  omega

end Codexwatch.Protocol
