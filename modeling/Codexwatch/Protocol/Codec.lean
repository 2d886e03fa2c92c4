import Codexwatch.Protocol.Validation

/-!
# The batch codec

`protocol/src/codec.rs`: a batch is validated, written as CBOR, hashed and
compressed. The CBOR, zstd and SHA-256 libraries are a parameter;
`Codec.LawfulFor` says what the code relies on when it sends a batch.

## Main definitions

* `Codec` — the three libraries.
* `Codec.encodeBatch`, `Codec.decodeBatchWithPayload`.
* `Codec.numbered batches` — a codec that sends a batch as its number in a list.
-/
namespace Codexwatch.Protocol

open Check

def MAX_DECOMPRESSED_BATCH_BYTES : ℕ := 2 * 1024 * 1024

structure EncodedBatch where
  batchId : Uuid
  payloadSha256 : String
  uncompressedLen : ℕ
  bytes : Bytes
  deriving DecidableEq

structure DecodedBatch where
  batch : IngestBatch
  payloadSha256 : String
  payload : Bytes
  deriving DecidableEq

inductive CodecError
  | invalidBatch (error : ValidationError)
  | decode
  | decompress
  | payloadTooLarge
  | trailingData
  deriving DecidableEq

/-- The libraries the codec calls. -/
structure Codec where
  /-- `ciborium::ser::into_writer` into a vector. -/
  intoWriter : IngestBatch → Bytes
  /-- `ciborium::de::from_reader`, with the position where it stopped. -/
  fromReader : Bytes → Option (IngestBatch × ℕ)
  /-- `zstd::stream::encode_all`. -/
  encodeAll : Bytes → Bytes
  /-- `zstd::stream::Decoder`, read to its end or to the given limit. -/
  readDecoded : Bytes → ℕ → Option Bytes
  /-- `zstd::stream::decode_all`. -/
  decodeAll : Bytes → Option Bytes
  sha256 : Bytes → Vector UInt8 32

namespace Codec

variable (codec : Codec)

/-- Decoding undoes encoding of the batch. -/
structure LawfulFor (batch : IngestBatch) : Prop where
  fromReader_intoWriter :
    codec.fromReader (codec.intoWriter batch) = some (batch, (codec.intoWriter batch).length)
  readDecoded_encodeAll : ∀ limit, codec.readDecoded (codec.encodeAll (codec.intoWriter batch))
    limit = some ((codec.intoWriter batch).take limit)

def sha256Hex (bytes : Bytes) : String := Text.hexEncode (codec.sha256 bytes).toList

def encodeBatch (batch : IngestBatch) : Except CodecError EncodedBatch := do
  batch.validate.mapError .invalidBatch
  let payload := codec.intoWriter batch
  ensure (payload.length ≤ MAX_DECOMPRESSED_BATCH_BYTES) .payloadTooLarge
  pure {
    batchId := batch.batchId
    payloadSha256 := codec.sha256Hex payload
    uncompressedLen := payload.length
    bytes := codec.encodeAll payload }

def decodeBatchWithPayload (bytes : Bytes) : Except CodecError DecodedBatch :=
  match codec.readDecoded bytes (MAX_DECOMPRESSED_BATCH_BYTES + 1) with
  | none => .error .decompress
  | some payload => do
      ensure (payload.length ≤ MAX_DECOMPRESSED_BATCH_BYTES) .payloadTooLarge
      match codec.fromReader payload with
      | none => .error .decode
      | some (batch, position) =>
          ensure (position = payload.length) .trailingData
          batch.validate.mapError .invalidBatch
          pure ⟨batch, codec.sha256Hex payload, payload⟩

/-- The encoding of a batch that has one. -/
def encodingOf (batch : IngestBatch) : EncodedBatch where
  batchId := batch.batchId
  payloadSha256 := codec.sha256Hex (codec.intoWriter batch)
  uncompressedLen := (codec.intoWriter batch).length
  bytes := codec.encodeAll (codec.intoWriter batch)

variable {codec} {batch : IngestBatch}

theorem encodeBatch_eq_ok_iff {encoded : EncodedBatch} :
    codec.encodeBatch batch = .ok encoded ↔ batch.Valid ∧
      (codec.intoWriter batch).length ≤ MAX_DECOMPRESSED_BATCH_BYTES ∧
      codec.encodingOf batch = encoded := by
  simp only [encodeBatch, bind_eq_ok, exists_unit_and, mapError_eq_ok, ensure_eq_ok, pure_eq_ok,
    IngestBatch.validate_eq_ok]
  rfl

/-- What is decoded is a valid batch. -/
theorem valid_of_decode {bytes : Bytes} {decoded : DecodedBatch}
    (h : codec.decodeBatchWithPayload bytes = .ok decoded) : decoded.batch.Valid := by
  rw [decodeBatchWithPayload] at h
  split at h
  · cases h
  · simp only [bind_eq_ok, exists_unit_and] at h
    obtain ⟨-, h⟩ := h
    split at h
    · cases h
    · simp only [bind_eq_ok, exists_unit_and, mapError_eq_ok, pure_eq_ok,
        IngestBatch.validate_eq_ok] at h
      obtain ⟨-, hvalid, rfl⟩ := h
      exact hvalid

/-- The server decodes what the client encoded, under the same digest. -/
theorem decode_encodeBatch (hlawful : codec.LawfulFor batch) {encoded : EncodedBatch}
    (h : codec.encodeBatch batch = .ok encoded) :
    codec.decodeBatchWithPayload encoded.bytes =
      .ok ⟨batch, encoded.payloadSha256, codec.intoWriter batch⟩ := by
  obtain ⟨hvalid, hlen, rfl⟩ := encodeBatch_eq_ok_iff.mp h
  have hread : codec.readDecoded (codec.encodeAll (codec.intoWriter batch))
      (MAX_DECOMPRESSED_BATCH_BYTES + 1) = some (codec.intoWriter batch) := by
    rw [hlawful.readDecoded_encodeAll, List.take_of_length_le (by omega)]
  rw [encodingOf, decodeBatchWithPayload, hread]
  simp only [hlawful.fromReader_intoWriter, bind_eq_ok, exists_unit_and, ensure_eq_ok, hlen,
    mapError_eq_ok, IngestBatch.validate_eq_ok, hvalid, true_and]
  rfl

/-- A codec for finitely many batches, with uncompressed frames. -/
def numbered (batches : List IngestBatch) : Codec where
  intoWriter batch := [UInt8.ofNat (batches.idxOf batch)]
  fromReader payload := payload.head?.bind fun n => batches[n.toNat]?.map fun b => (b, 1)
  encodeAll payload := payload
  readDecoded bytes limit := some (bytes.take limit)
  decodeAll bytes := some bytes
  sha256 payload := Vector.replicate 32 (payload.headD 0)

end Codec

end Codexwatch.Protocol
