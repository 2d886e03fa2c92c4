import Codexwatch.Protocol.Encoding

/-!
# What the batch codec accepts

Both sides of `protocol/src/codec.rs` enforce the same limit and the same contract: what
the sender encodes is what the receiver decodes, and whatever bytes come, nothing else is
decoded. A frame that expands beyond the limit is refused before more than one byte over
the limit is read.

## Main definitions

* `Codec.Expands` — what a compressed frame yields, read up to any limit.
* `Codec.Streams` — every input is such a frame, whole or broken off.
-/
namespace Codexwatch.Protocol

open Check

namespace Codec

/-- The bytes that come out of the input before it ends, or before it is found to be broken:
`Read::take` stops at its limit without asking for more. -/
structure Expands (codec : Codec) (bytes out : Bytes) (whole : Bool) : Prop where
  read : ∀ limit, codec.readDecoded bytes limit =
    if limit ≤ out.length then some (out.take limit) else if whole then some out else none

/-- The decompressor is a stream: how far it is read does not change what it yields. -/
def Streams (codec : Codec) : Prop := ∀ bytes, ∃ out whole, codec.Expands bytes out whole

/-- A batch as the receiver must find it. -/
structure Decodes (codec : Codec) (bytes : Bytes) (decoded : DecodedBatch) : Prop where
  valid : decoded.batch.validate = .ok ()
  consumed : codec.fromReader decoded.payload = some (decoded.batch, decoded.payload.length)
  expanded : codec.Expands bytes decoded.payload true
  bounded : decoded.payload.length ≤ MAX_DECOMPRESSED_BATCH_BYTES
  digest : decoded.payloadSha256 = codec.sha256Hex decoded.payload

variable {codec : Codec} {bytes out : Bytes} {whole : Bool}

/-- No more than the limit is read. -/
theorem Expands.length_le (h : codec.Expands bytes out whole) {limit : ℕ} {read : Bytes}
    (hread : codec.readDecoded bytes limit = some read) : read.length ≤ limit := by
  rw [h.read] at hread
  split at hread
  · obtain rfl := Option.some.inj hread
    exact List.length_take_le ..
  · rename_i hlimit
    split at hread
    · obtain rfl := Option.some.inj hread
      exact (Nat.lt_of_not_le hlimit).le
    · cases hread

/-- What is read short of the limit is all that the frame has. -/
theorem Expands.of_short (h : codec.Expands bytes out whole) {limit : ℕ} {read : Bytes}
    (hread : codec.readDecoded bytes limit = some read) (hshort : read.length < limit) :
    codec.Expands bytes read true := by
  have hall := h.read limit
  rw [hread] at hall
  split at hall
  · rename_i hlimit
    obtain rfl := Option.some.inj hall
    rw [List.length_take, min_eq_left hlimit] at hshort
    exact absurd hshort (lt_irrefl limit)
  · split at hall
    · rename_i hwhole
      obtain rfl := Option.some.inj hall
      rwa [hwhole] at h
    · cases hall

/-- The sender refuses what the receiver would refuse. -/
theorem isOk_encodeBatch_iff (codec : Codec) (batch : IngestBatch) :
    (∃ encoded, codec.encodeBatch batch = .ok encoded) ↔
      batch.validate = .ok () ∧
        (codec.intoWriter batch).length ≤ MAX_DECOMPRESSED_BATCH_BYTES := by
  simp only [encodeBatch_eq_ok_iff, IngestBatch.validate_eq_ok]
  constructor
  · rintro ⟨encoded, hvalid, hlength, -⟩
    exact ⟨hvalid, hlength⟩
  · rintro ⟨hvalid, hlength⟩
    exact ⟨codec.encodingOf batch, hvalid, hlength, rfl⟩

/-- Whatever is decoded has passed every check. -/
theorem decodes_of_decode (hstreams : codec.Streams) {decoded : DecodedBatch}
    (h : codec.decodeBatchWithPayload bytes = .ok decoded) : codec.Decodes bytes decoded := by
  obtain ⟨out, whole, hexpands⟩ := hstreams bytes
  rw [decodeBatchWithPayload] at h
  cases hread : codec.readDecoded bytes (MAX_DECOMPRESSED_BATCH_BYTES + 1) with
  | none =>
      rw [hread] at h
      cases h
  | some payload =>
      rw [hread] at h
      simp only [bind_eq_ok, exists_unit_and, ensure_eq_ok] at h
      obtain ⟨hlength, h⟩ := h
      cases hfrom : codec.fromReader payload with
      | none =>
          rw [hfrom] at h
          cases h
      | some found =>
          obtain ⟨batch, stop⟩ := found
          rw [hfrom] at h
          simp only [bind_eq_ok, exists_unit_and, ensure_eq_ok, mapError_eq_ok,
            pure_eq_ok] at h
          obtain ⟨hstop, hvalid, rfl⟩ := h
          subst hstop
          exact ⟨hvalid, hfrom, hexpands.of_short hread (Nat.lt_succ_of_le hlength), hlength, rfl⟩

/-- A frame that expands beyond the limit is refused, one byte over the limit. -/
theorem decode_of_expands (h : codec.Expands bytes out whole)
    (hlarge : MAX_DECOMPRESSED_BATCH_BYTES < out.length) :
    codec.decodeBatchWithPayload bytes = .error .payloadTooLarge := by
  have hread := h.read (MAX_DECOMPRESSED_BATCH_BYTES + 1)
  rw [if_pos (Nat.succ_le_of_lt hlarge)] at hread
  have hlength : (out.take (MAX_DECOMPRESSED_BATCH_BYTES + 1)).length =
      MAX_DECOMPRESSED_BATCH_BYTES + 1 := by
    rw [List.length_take, min_eq_left hlarge]
  rw [decodeBatchWithPayload, hread]
  simp only [hlength, ensure]
  rw [if_neg (Nat.not_succ_le_self _)]
  rfl

/-- The two sides agree: a batch is encoded when it is valid and short enough, and comes back
as it was with its digest and its length; every input that is decoded is a valid batch, read
to its last byte; and a larger one is refused. -/
theorem batchCodec_roundTrip (codec : Codec) (hstreams : codec.Streams) (batch : IngestBatch)
    (hlawful : codec.LawfulFor batch) (bytes : Bytes) :
    ((∃ encoded, codec.encodeBatch batch = .ok encoded) ↔
      batch.validate = .ok () ∧
        (codec.intoWriter batch).length ≤ MAX_DECOMPRESSED_BATCH_BYTES) ∧
    (∀ encoded, codec.encodeBatch batch = .ok encoded → ∃ payload,
      codec.decodeBatchWithPayload encoded.bytes = .ok ⟨batch, encoded.payloadSha256, payload⟩ ∧
        payload.length = encoded.uncompressedLen) ∧
    (∀ decoded, codec.decodeBatchWithPayload bytes = .ok decoded → codec.Decodes bytes decoded) ∧
    (∀ read, codec.readDecoded bytes (MAX_DECOMPRESSED_BATCH_BYTES + 1) = some read →
      read.length ≤ MAX_DECOMPRESSED_BATCH_BYTES + 1) ∧
    (∀ out whole, codec.Expands bytes out whole → MAX_DECOMPRESSED_BATCH_BYTES < out.length →
      codec.decodeBatchWithPayload bytes = .error .payloadTooLarge) := by
  refine ⟨isOk_encodeBatch_iff codec batch, fun encoded hencode => ?_,
    fun decoded hdecode => decodes_of_decode hstreams hdecode, fun read hread => ?_,
    fun out whole hexpands hlarge => decode_of_expands hexpands hlarge⟩
  · refine ⟨codec.intoWriter batch, decode_encodeBatch hlawful hencode, ?_⟩
    obtain ⟨-, -, rfl⟩ := encodeBatch_eq_ok_iff.mp hencode
    rfl
  · obtain ⟨out, whole, hexpands⟩ := hstreams bytes
    exact hexpands.length_le hread

theorem streams_writing (batches : List IngestBatch) : (writing batches).Streams := by
  refine fun bytes => ⟨bytes, true, ⟨fun limit => ?_⟩⟩
  split
  · rfl
  · rename_i hlimit
    exact congrArg some (List.take_of_length_le (Nat.lt_of_not_le hlimit).le)

/-- A batch with a task and a heartbeat. -/
theorem batchCodec_roundTrip_sampleBatch :
    ∃ encoded payload, (writing [sampleBatch "a" "u" 1 1]).encodeBatch (sampleBatch "a" "u" 1 1) =
        .ok encoded ∧
      encoded.bytes = (sampleBatch "a" "u" 1 1).cbor ∧
      (writing [sampleBatch "a" "u" 1 1]).decodeBatchWithPayload encoded.bytes =
        .ok ⟨sampleBatch "a" "u" 1 1, encoded.payloadSha256, payload⟩ := by
  have hvalid : (sampleBatch "a" "u" 1 1).validate = .ok () := by decide +kernel
  have hlength : (sampleBatch "a" "u" 1 1).cbor.length ≤ MAX_DECOMPRESSED_BATCH_BYTES := by
    decide +kernel
  have hlawful : (writing [sampleBatch "a" "u" 1 1]).LawfulFor (sampleBatch "a" "u" 1 1) :=
    lawfulFor_writing (by decide +kernel)
  obtain ⟨hencodes, hback, -⟩ := batchCodec_roundTrip (writing [sampleBatch "a" "u" 1 1])
    (streams_writing _) _ hlawful (sampleBatch "a" "u" 1 1).cbor
  obtain ⟨encoded, hencoded⟩ := hencodes.mpr ⟨hvalid, hlength⟩
  obtain ⟨payload, hpayload, -⟩ := hback encoded hencoded
  obtain ⟨-, -, rfl⟩ := encodeBatch_eq_ok_iff.mp hencoded
  exact ⟨_, payload, hencoded, rfl, hpayload⟩

end Codec

end Codexwatch.Protocol
