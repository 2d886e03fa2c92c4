import Codexwatch.Capture.H2

/-!
# HTTP/2 frames as they are sent

What a peer writes, and the events that it means. The decoder of a direction puts out
these events, however the bytes are cut. The HEADERS frame of a block and its CONTINUATION
frames are one item, as nothing may come between them.

## Main definitions

* `Sent`, `Sent.bytes`, `Sent.WellFormed` — a frame, or the frames of a header block.
* `Sent.events`, `sentEvents` — what they mean to a decoder of header blocks.
* `H2Decoder.pushes` — the pieces of a direction.
* `pushes_sentBytes` — decoding undoes encoding.
-/
namespace Codexwatch.Capture

open Protocol Streaming

/-- The fields of a priority. -/
structure SentPriority where
  dependencyStreamId : ℕ
  exclusive : Bool
  weight : UInt8
  deriving DecidableEq

def SentPriority.bytes (priority : SentPriority) : Bytes :=
  toBeBytes 4 (priority.dependencyStreamId + if priority.exclusive then 2 ^ 31 else 0) ++
    [priority.weight]

def SentPriority.toPriority (streamId : ℕ) (priority : SentPriority) : H2Priority :=
  ⟨streamId, priority.dependencyStreamId, priority.exclusive, priority.weight⟩

/-- One frame. -/
def frameBytes (frameType flags : UInt8) (streamId : ℕ) (payload : Bytes) : Bytes :=
  toBeBytes 3 payload.length ++ [frameType, flags] ++ toBeBytes 4 streamId ++ payload

/-- The length of the padding, the content, and the padding. -/
def padded (padding : Option Bytes) (content : Bytes) : Bytes :=
  match padding with
  | none => content
  | some padding => UInt8.ofNat padding.length :: content ++ padding

def continuationBytes (streamId : ℕ) (continuations : List (UInt8 × Bytes)) : Bytes :=
  continuations.flatMap fun continuation => frameBytes 0x9 continuation.1 streamId continuation.2

inductive Sent
  | data (flags : UInt8) (streamId : ℕ) (padding : Option Bytes) (payload : Bytes)
  /-- The fragment in the HEADERS frame, and the flags and fragments of the others. -/
  | headers (flags : UInt8) (streamId : ℕ) (padding : Option Bytes)
      (priority : Option SentPriority) (fragment : Bytes) (continuations : List (UInt8 × Bytes))
  | priority (flags : UInt8) (streamId : ℕ) (fields : SentPriority)
  | rstStream (flags : UInt8) (streamId errorCode : ℕ)
  | goAway (flags : UInt8) (lastStreamId errorCode : ℕ) (debugData : Bytes)
  | unknown (frameType flags : UInt8) (streamId : ℕ) (payload : Bytes)

/-- The payload of a HEADERS frame. -/
def headersBytes (padding : Option Bytes) (priority : Option SentPriority) (fragment : Bytes) :
    Bytes :=
  padded padding ((priority.elim [] SentPriority.bytes) ++ fragment)

namespace Sent

def bytes : Sent → Bytes
  | .data flags streamId padding payload => frameBytes 0x0 flags streamId (padded padding payload)
  | .headers flags streamId padding fields fragment continuations =>
      frameBytes 0x1 flags streamId (headersBytes padding fields fragment) ++
        continuationBytes streamId continuations
  | .priority flags streamId fields => frameBytes 0x2 flags streamId fields.bytes
  | .rstStream flags streamId errorCode => frameBytes 0x3 flags streamId (toBeBytes 4 errorCode)
  | .goAway flags lastStreamId errorCode debugData =>
      frameBytes 0x7 flags 0 (toBeBytes 4 lastStreamId ++ toBeBytes 4 errorCode ++ debugData)
  | .unknown frameType flags streamId payload => frameBytes frameType flags streamId payload

end Sent

/-- A frame has a length of three bytes. -/
abbrev FitsFrame (payload : Bytes) : Prop := payload.length < 2 ^ 24

/-- The flag tells that there is padding, whose length is one byte. -/
structure PaddingFits (flags : UInt8) (padding : Option Bytes) : Prop where
  flag : (flags &&& 0x08 != 0) = padding.isSome
  length : ∀ bytes ∈ padding, bytes.length < 256

/-- The flag END_HEADERS is on the last frame of a block, and only there. -/
def EndsBlock : UInt8 → List (UInt8 × Bytes) → Prop
  | flags, [] => flags &&& 0x04 ≠ 0
  | flags, continuation :: continuations =>
      flags &&& 0x04 = 0 ∧ FitsFrame continuation.2 ∧ EndsBlock continuation.1 continuations

instance decidableEndsBlock : ∀ flags continuations, Decidable (EndsBlock flags continuations)
  | flags, [] => inferInstanceAs (Decidable (flags &&& 0x04 ≠ 0))
  | flags, continuation :: continuations =>
      have := decidableEndsBlock continuation.1 continuations
      inferInstanceAs (Decidable (flags &&& 0x04 = 0 ∧ FitsFrame continuation.2 ∧
        EndsBlock continuation.1 continuations))

instance decidablePaddingFits (flags : UInt8) (padding : Option Bytes) :
    Decidable (PaddingFits flags padding) :=
  decidable_of_iff ((flags &&& 0x08 != 0) = padding.isSome ∧
    ∀ bytes ∈ padding, bytes.length < 256) ⟨fun h => ⟨h.1, h.2⟩, fun h => ⟨h.1, h.2⟩⟩

namespace Sent

/-- A stream has a number, of 31 bits. -/
def WellFormed : Sent → Prop
  | .data flags streamId padding payload =>
      0 < streamId ∧ streamId < 2 ^ 31 ∧ PaddingFits flags padding ∧
        FitsFrame (padded padding payload)
  | .headers flags streamId padding fields fragment continuations =>
      0 < streamId ∧ streamId < 2 ^ 31 ∧ PaddingFits flags padding ∧
        (flags &&& 0x20 != 0) = fields.isSome ∧
        (∀ p ∈ fields, p.dependencyStreamId < 2 ^ 31) ∧
        FitsFrame (headersBytes padding fields fragment) ∧ EndsBlock flags continuations
  | .priority _ streamId fields =>
      0 < streamId ∧ streamId < 2 ^ 31 ∧ fields.dependencyStreamId < 2 ^ 31
  | .rstStream _ streamId errorCode => 0 < streamId ∧ streamId < 2 ^ 31 ∧ errorCode < 2 ^ 32
  | .goAway _ lastStreamId errorCode debugData =>
      lastStreamId < 2 ^ 31 ∧ errorCode < 2 ^ 32 ∧ debugData.length + 8 < 2 ^ 24
  | .unknown frameType _ streamId payload =>
      frameType ∉ [0x0, 0x1, 0x2, 0x3, 0x7, 0x9] ∧ streamId < 2 ^ 31 ∧ FitsFrame payload

instance decidableWellFormed : ∀ item : Sent, Decidable item.WellFormed
  | .data .. | .headers .. | .priority .. | .rstStream .. | .goAway .. | .unknown .. =>
      inferInstanceAs (Decidable (_ ∧ _ ∧ _))

variable {η : Type} (hpack : Hpack η)

/-- The events of an item, and the decoder of header blocks after it. -/
def events (decoder : η) : Sent → Except H2DecodeError (List H2Event × η)
  | .data flags streamId _ payload =>
      .ok ([.data streamId payload (flags &&& 0x01 != 0)], decoder)
  | .headers flags streamId _ fields fragment continuations =>
      (decodeHeaders hpack decoder (fragment ++ continuations.flatMap Prod.snd)).map fun decoded =>
        ([.headers ⟨streamId, decoded.1, flags &&& 0x01 != 0,
          fields.map (SentPriority.toPriority streamId)⟩], decoded.2)
  | .priority _ streamId fields => .ok ([.priority (fields.toPriority streamId)], decoder)
  | .rstStream _ streamId errorCode => .ok ([.rstStream streamId errorCode], decoder)
  | .goAway _ lastStreamId errorCode debugData =>
      .ok ([.goAway lastStreamId errorCode debugData], decoder)
  | .unknown _ _ _ _ => .ok ([], decoder)

end Sent

section Events
variable {η : Type} (hpack : Hpack η)

/-- The events of the items, in order, up to a header block that does not decode. -/
def sentEvents (decoder : η) : List Sent → Except H2DecodeError (List H2Event × η)
  | [] => .ok ([], decoder)
  | item :: items => (item.events hpack decoder).bind fun r =>
      (sentEvents r.2 items).map fun r' => (r.1 ++ r'.1, r'.2)

/-- `push_client`, `push_server` -/
def H2Decoder.push (clientSide : Bool) (decoder : H2Decoder η) (bytes : Bytes) :
    Except H2DecodeError (List H2Event × H2Decoder η) :=
  if clientSide then decoder.pushClient hpack bytes else decoder.pushServer hpack bytes

/-- One piece after the other. -/
def H2Decoder.pushes (clientSide : Bool) : H2Decoder η → List Bytes →
    Except H2DecodeError (List H2Event × H2Decoder η)
  | decoder, [] => .ok ([], decoder)
  | decoder, piece :: pieces => (decoder.push hpack clientSide piece).bind fun r =>
      (r.2.pushes clientSide pieces).map fun r' => (r.1 ++ r'.1, r'.2)

/-- What is sent in a direction; the client begins with the preface. -/
def sentBytes (clientSide : Bool) (items : List Sent) : Bytes :=
  (if clientSide then CLIENT_PREFACE else []) ++ items.flatMap Sent.bytes

end Events

/-! ## One frame -/

section Frame
variable {η : Type} {hpack : Hpack η} {clientSide : Bool} {flags : UInt8} {streamId : ℕ}

theorem takeFrame_frameBytes {frameType : UInt8} {payload : Bytes} (hid : streamId < 2 ^ 31)
    (hpayload : FitsFrame payload) :
    takeFrame (frameBytes frameType flags streamId payload) =
      some (⟨frameType, flags, streamId, payload⟩, []) := by
  have hlength : fromBeBytes (toBeBytes 3 payload.length) = payload.length :=
    fromBeBytes_toBeBytes (by rw [FitsFrame] at hpayload; omega)
  have hstream : fromBeBytes (toBeBytes 4 streamId) = streamId :=
    fromBeBytes_toBeBytes (by omega)
  have h3 := length_toBeBytes 3 payload.length
  have h4 := length_toBeBytes 4 streamId
  have htotal : (frameBytes frameType flags streamId payload).length = 9 + payload.length := by
    simp only [frameBytes, List.length_append, List.length_cons, List.length_nil, h3, h4]
  have htake : (frameBytes frameType flags streamId payload).take 3 =
      toBeBytes 3 payload.length := by
    rw [frameBytes, List.append_assoc, List.append_assoc, List.take_left' h3]
  have hdrop : (frameBytes frameType flags streamId payload).drop 3 =
      [frameType, flags] ++ (toBeBytes 4 streamId ++ payload) := by
    rw [frameBytes, List.append_assoc, List.append_assoc, List.drop_left' h3]
  have hfive : (frameBytes frameType flags streamId payload).drop 5 =
      toBeBytes 4 streamId ++ payload := by
    have h := congrArg (List.drop 2) hdrop
    rwa [List.drop_drop] at h
  have hnine : (frameBytes frameType flags streamId payload).drop 9 = payload := by
    have h := congrArg (List.drop 4) hfive
    rwa [List.drop_drop, List.drop_left' h4] at h
  have hget : ∀ i, (frameBytes frameType flags streamId payload).getD (3 + i) 0 =
      ([frameType, flags] ++ (toBeBytes 4 streamId ++ payload)).getD i 0 := by
    intro i
    rw [← hdrop, List.getD_eq_getElem?_getD, List.getD_eq_getElem?_getD, List.getElem?_drop]
  have htype := hget 0
  have hflags := hget 1
  rw [takeFrame, if_neg (by omega), htake, hlength]
  dsimp only
  rw [if_neg (by omega), hfive, List.take_left' h4, hstream, hnine, List.take_length,
    List.drop_eq_nil_of_le (by omega), Nat.mod_eq_of_lt hid]
  simp only [Nat.add_zero] at htype
  rw [htype, hflags]
  rfl

/-- A direction that waits for a frame, in the middle of a header block or between blocks. -/
def waitingFor (clientSide : Bool) (decoder : η) (pending : Option PendingHeaders) :
    DirectionState η := ⟨[], decoder, pending, clientSide⟩

theorem nextUnit_waitingFor {decoder : η} {pending : Option PendingHeaders} (buffer : Bytes) :
    DirectionState.nextUnit hpack clientSide
        { waitingFor clientSide decoder pending with buffer } =
      DirectionState.nextFrame hpack { waitingFor clientSide decoder pending with buffer } := by
  cases clientSide <;> rfl

theorem drained_waitingFor {decoder : η} {pending : Option PendingHeaders} :
    (DirectionState.units hpack clientSide).Drained (waitingFor clientSide decoder pending) := by
  cases clientSide <;> rfl

/-- A frame that is pushed is parsed. -/
theorem push_frameBytes {decoder : η} {pending : Option PendingHeaders} {frameType : UInt8}
    {payload : Bytes} (hid : streamId < 2 ^ 31) (hpayload : FitsFrame payload) :
    (DirectionState.units hpack clientSide).push (waitingFor clientSide decoder pending)
        (frameBytes frameType flags streamId payload) =
      (parseFrame hpack (waitingFor clientSide decoder pending)
        ⟨frameType, flags, streamId, payload⟩) := by
  have hfirst : (DirectionState.units hpack clientSide).next
      { waitingFor clientSide decoder pending with
        buffer := frameBytes frameType flags streamId payload } =
      (parseFrame hpack (waitingFor clientSide decoder pending)
        ⟨frameType, flags, streamId, payload⟩).map some := by
    refine (nextUnit_waitingFor _).trans ?_
    rw [DirectionState.nextFrame, takeFrame_frameBytes hid hpayload]
    rfl
  have hpush : (DirectionState.units hpack clientSide).push (waitingFor clientSide decoder pending)
      (frameBytes frameType flags streamId payload) =
      (DirectionState.units hpack clientSide).drain
        ((frameBytes frameType flags streamId payload).length + 1)
        { waitingFor clientSide decoder pending with
          buffer := frameBytes frameType flags streamId payload } := rfl
  rw [hpush, Decoder.drain, hfirst]
  cases hparse : parseFrame hpack (waitingFor clientSide decoder pending)
      ⟨frameType, flags, streamId, payload⟩ with
  | error e => rfl
  | ok parsed =>
      obtain ⟨hbuffer, hpreface⟩ := rest_parseFrame hpack _ hparse
      have hstate : parsed.2 = waitingFor clientSide parsed.2.hpack parsed.2.pendingHeaders := by
        rw [waitingFor]
        cases hparsed : parsed.2
        rw [hparsed] at hbuffer hpreface
        dsimp only at hbuffer hpreface
        rw [hbuffer, hpreface]
        rfl
      have hdone : ∀ fuel, (DirectionState.units hpack clientSide).drain fuel parsed.2 =
          .ok ([], parsed.2) := by
        intro fuel
        have hdrained := @drained_waitingFor η hpack clientSide parsed.2.hpack
          parsed.2.pendingHeaders
        rw [← hstate, Decoder.Drained] at hdrained
        cases fuel with
        | zero => rfl
        | succ fuel => rw [Decoder.drain, hdrained]
      simp only [Except.map, hdone, List.append_nil]

end Frame

/-! ## The contents of a frame -/

section Contents
variable {η : Type} {hpack : Hpack η} {flags : UInt8} {streamId : ℕ}

theorem stripPadding_padded {padding : Option Bytes} {payload : Bytes}
    (h : PaddingFits flags padding) :
    stripPadding (padded padding payload) (flags &&& 0x08 != 0) = .ok payload := by
  cases padding with
  | none =>
      rw [h.flag]
      rfl
  | some padding =>
      have hlength := h.length padding rfl
      have hbyte : (UInt8.ofNat padding.length).toNat = padding.length := by
        rw [UInt8.toNat_ofNat']
        omega
      have htotal : (payload ++ padding).length = payload.length + padding.length :=
        List.length_append
      rw [h.flag, padded]
      simp only [stripPadding, Option.isSome_some, Bool.not_true, List.cons_append, hbyte]
      rw [if_neg Bool.false_ne_true, if_neg (by omega), htotal, Nat.add_sub_cancel, List.take_left]

theorem length_bytes_priority (fields : SentPriority) : fields.bytes.length = 5 := by
  rw [SentPriority.bytes, List.length_append, length_toBeBytes, List.length_singleton]

theorem priorityOf_bytes {fields : SentPriority} (h : fields.dependencyStreamId < 2 ^ 31)
    (rest : Bytes) :
    priorityOf streamId (fields.bytes ++ rest) = fields.toPriority streamId := by
  have h4 := length_toBeBytes 4
    (fields.dependencyStreamId + if fields.exclusive then 2 ^ 31 else 0)
  have hnumber : fromBeBytes ((fields.bytes ++ rest).take 4) =
      fields.dependencyStreamId + if fields.exclusive then 2 ^ 31 else 0 := by
    rw [SentPriority.bytes, List.append_assoc, List.take_left' h4]
    refine fromBeBytes_toBeBytes ?_
    split <;> omega
  have hweight : (fields.bytes ++ rest).getD 4 0 = fields.weight := by
    rw [SentPriority.bytes, List.append_assoc, List.getD_append_right _ _ _ _ (by omega), h4]
    rfl
  rw [priorityOf, hnumber, hweight, SentPriority.toPriority]
  cases fields.exclusive with
  | false => simpa using h
  | true => simpa using h

theorem eq_zero_of_flag {bit : UInt8} {b : Bool} (h : (flags &&& bit != 0) = b) :
    flags &&& bit = 0 ↔ b = false := by
  rw [← h]
  simp

/-- What follows the padding. -/
theorem headersPayload_of_drop {payload content : Bytes} {cursor : ℕ}
    {fields : Option SentPriority} {fragment : Bytes}
    (hcontent : content = fields.elim [] SentPriority.bytes ++ fragment)
    (hdrop : payload.drop cursor = content) (hlength : payload.length = cursor + content.length)
    (hfields : (flags &&& 0x20 != 0) = fields.isSome)
    (hdependency : ∀ p, fields = some p → p.dependencyStreamId < 2 ^ 31) :
    (do
      let (cursor, priority) ←
        if flags &&& 0x20 = 0 then .ok (cursor, none)
        else if payload.length < cursor + 5 then .error .invalidFrame
        else .ok (cursor + 5, some (priorityOf streamId (payload.drop cursor)))
      if payload.length < cursor then .error .invalidFrame
      else .ok (priority, payload.drop cursor) : Except H2DecodeError (Option H2Priority × Bytes)) =
      .ok (fields.map (SentPriority.toPriority streamId), fragment) := by
  cases fields with
  | none =>
      rw [if_pos ((eq_zero_of_flag hfields).mpr rfl)]
      simp only [bind, Except.bind]
      rw [if_neg (by omega), hdrop, hcontent]
      rfl
  | some fields =>
      have hbytes : content.length = 5 + fragment.length := by
        rw [hcontent, Option.elim_some, List.length_append, length_bytes_priority]
      rw [if_neg (by rw [eq_zero_of_flag hfields]; simp), if_neg (by omega)]
      simp only [bind, Except.bind]
      rw [if_neg (by omega), ← List.drop_drop, hdrop, hcontent, Option.elim_some,
        priorityOf_bytes (hdependency fields rfl), List.drop_left' (length_bytes_priority fields)]
      rfl

theorem headersPayload_headersBytes {padding : Option Bytes} {fields : Option SentPriority}
    {fragment : Bytes} (hpadding : PaddingFits flags padding)
    (hfields : (flags &&& 0x20 != 0) = fields.isSome)
    (hdependency : ∀ p, fields = some p → p.dependencyStreamId < 2 ^ 31) :
    headersPayload streamId flags (headersBytes padding fields fragment) =
      .ok (fields.map (SentPriority.toPriority streamId), fragment) := by
  rw [headersPayload.eq_def, headersBytes]
  cases padding with
  | none =>
      rw [if_pos ((eq_zero_of_flag hpadding.flag).mpr rfl)]
      exact headersPayload_of_drop rfl rfl (Nat.zero_add _).symm hfields hdependency
  | some padding =>
      have hlength := hpadding.length padding rfl
      have hbyte : (UInt8.ofNat padding.length).toNat = padding.length := by
        rw [UInt8.toNat_ofNat']
        omega
      have htotal : ∀ content : Bytes,
          (UInt8.ofNat padding.length :: content ++ padding).length =
            content.length + 1 + padding.length := by
        intro content
        simp only [List.length_append, List.length_cons]
      rw [if_neg (by rw [eq_zero_of_flag hpadding.flag]; simp), padded]
      simp only [List.cons_append, hbyte]
      rw [← List.cons_append, if_neg (by rw [htotal]; omega), htotal, Nat.add_sub_cancel,
        List.take_left' (by simp only [List.length_cons])]
      exact headersPayload_of_drop rfl rfl (by rw [List.length_cons, Nat.add_comm]) hfields
        hdependency

end Contents

/-! ## The items of a direction -/

section Items
variable {η : Type} {hpack : Hpack η} {clientSide : Bool} {decoder : η}

/-- The pushes of two pieces as one. -/
theorem push_append (state : DirectionState η) (l m : Bytes) :
    (DirectionState.units hpack clientSide).push state (l ++ m) =
      ((DirectionState.units hpack clientSide).push state l).bind fun r =>
        ((DirectionState.units hpack clientSide).push r.2 m).map fun r' => (r.1 ++ r'.1, r'.2) :=
  Decoder.push_append DirectionState.steady state l m

theorem push_nil {pending : Option PendingHeaders} :
    (DirectionState.units hpack clientSide).push (waitingFor clientSide decoder pending) [] =
      .ok ([], waitingFor clientSide decoder pending) :=
  Decoder.push_nil DirectionState.steady drained_waitingFor

/-- A header block ends with the last of its frames. -/
theorem push_continuations {flags : UInt8} {pending : PendingHeaders}
    {continuations : List (UInt8 × Bytes)} (hid : pending.streamId < 2 ^ 31)
    (hends : EndsBlock flags continuations) :
    ((endHeaders hpack (waitingFor clientSide decoder none) flags pending).bind fun r =>
      ((DirectionState.units hpack clientSide).push r.2
        (continuationBytes pending.streamId continuations)).map fun r' => (r.1 ++ r'.1, r'.2)) =
      (decodeHeaders hpack decoder (pending.block ++ continuations.flatMap Prod.snd)).map
        fun decoded =>
          ([.headers ⟨pending.streamId, decoded.1, pending.endStream, pending.priority⟩],
            waitingFor clientSide decoded.2 none) := by
  induction continuations generalizing flags pending with
  | nil =>
      rw [EndsBlock] at hends
      rw [endHeaders, if_neg hends, List.flatMap_nil, List.append_nil]
      have hdecoder : (waitingFor clientSide decoder none).hpack = decoder := rfl
      rw [hdecoder]
      cases decodeHeaders hpack decoder pending.block with
      | error e => rfl
      | ok decoded =>
          have hafter : { waitingFor clientSide decoder none with hpack := decoded.2 } =
              waitingFor clientSide decoded.2 none := rfl
          have hnil : continuationBytes pending.streamId [] = [] := rfl
          simp only [Except.map, Except.bind, hafter, hnil, push_nil, List.append_nil]
  | cons continuation continuations ih =>
      obtain ⟨hflag, hfits, hends⟩ := hends
      have hwaiting : { waitingFor clientSide decoder none with pendingHeaders := some pending } =
          waitingFor clientSide decoder (some pending) := rfl
      have hbytes : continuationBytes pending.streamId (continuation :: continuations) =
          frameBytes 0x9 continuation.1 pending.streamId continuation.2 ++
            continuationBytes pending.streamId continuations := List.flatMap_cons ..
      have hparse : parseFrame hpack (waitingFor clientSide decoder (some pending))
          ⟨0x9, continuation.1, pending.streamId, continuation.2⟩ =
          endHeaders hpack (waitingFor clientSide decoder none) continuation.1
            { pending with block := pending.block ++ continuation.2 } := by
        have hpending : (waitingFor clientSide decoder (some pending)).pendingHeaders =
            some pending := rfl
        rw [parseFrame]
        simp only [parseContinuationFrame, hpending, ne_eq, not_true_eq_false, if_false]
        rfl
      have hrest := @ih continuation.1 { pending with block := pending.block ++ continuation.2 }
        hid hends
      rw [endHeaders, if_pos hflag, hwaiting, hbytes]
      simp only [Except.bind]
      rw [push_append, push_frameBytes hid hfits, hparse, List.flatMap_cons, ← List.append_assoc]
      simp only [List.nil_append]
      rw [← hrest]
      cases endHeaders hpack (waitingFor clientSide decoder none) continuation.1
        { pending with block := pending.block ++ continuation.2 } with
      | error e => rfl
      | ok r =>
          simp only [Except.bind]
          cases (DirectionState.units hpack clientSide).push r.2
            (continuationBytes pending.streamId continuations) <;> rfl

/-- An item puts out its events. -/
theorem push_item {item : Sent} (h : item.WellFormed) :
    (DirectionState.units hpack clientSide).push (waitingFor clientSide decoder none) item.bytes =
      (item.events hpack decoder).map fun r => (r.1, waitingFor clientSide r.2 none) := by
  cases item with
  | data flags streamId padding payload =>
      obtain ⟨hpos, hid, hpadding, hfits⟩ := h
      rw [Sent.bytes, push_frameBytes hid hfits, parseFrame, Sent.events]
      simp only [parseDataFrame, stripPadding_padded hpadding]
      rw [if_neg hpos.ne']
      rfl
  | headers flags streamId padding fields fragment continuations =>
      obtain ⟨hpos, hid, hpadding, hfields, hdependency, hfits, hends⟩ := h
      have hparse : parseFrame hpack (waitingFor clientSide decoder none)
          ⟨0x1, flags, streamId, headersBytes padding fields fragment⟩ =
          endHeaders hpack (waitingFor clientSide decoder none) flags
            ⟨streamId, flags &&& 0x01 != 0, fields.map (SentPriority.toPriority streamId),
              fragment⟩ := by
        rw [parseFrame]
        simp only [parseHeadersFrame, if_neg hpos.ne',
          headersPayload_headersBytes hpadding hfields hdependency]
      have hblock := @push_continuations η hpack clientSide decoder flags
        ⟨streamId, flags &&& 0x01 != 0, fields.map (SentPriority.toPriority streamId), fragment⟩
        continuations hid hends
      rw [Sent.bytes, push_append, push_frameBytes hid hfits, hparse, hblock, Sent.events]
      cases decodeHeaders hpack decoder (fragment ++ continuations.flatMap Prod.snd) <;> rfl
  | priority flags streamId fields =>
      obtain ⟨hpos, hid, hdependency⟩ := h
      have hlength := length_bytes_priority fields
      have hfits : FitsFrame fields.bytes := by
        rw [FitsFrame, hlength]
        decide
      have hpriority := @priorityOf_bytes streamId fields hdependency []
      rw [List.append_nil] at hpriority
      rw [Sent.bytes, push_frameBytes hid hfits, parseFrame, Sent.events]
      simp only [parsePriorityPayload, hlength, hpriority]
      rw [if_neg (by omega)]
      rfl
  | rstStream flags streamId errorCode =>
      obtain ⟨hpos, hid, hcode⟩ := h
      have hlength := length_toBeBytes 4 errorCode
      have hfits : FitsFrame (toBeBytes 4 errorCode) := by
        rw [FitsFrame, hlength]
        decide
      rw [Sent.bytes, push_frameBytes hid hfits, parseFrame, Sent.events]
      simp only [hlength, fromBeBytes_toBeBytes (show errorCode < 256 ^ 4 by omega)]
      rw [if_neg (by omega)]
      rfl
  | goAway flags lastStreamId errorCode debugData =>
      obtain ⟨hid, hcode, hdebug⟩ := h
      have h4 := length_toBeBytes 4 lastStreamId
      have h4' := length_toBeBytes 4 errorCode
      have hlength : (toBeBytes 4 lastStreamId ++ toBeBytes 4 errorCode ++ debugData).length =
          8 + debugData.length := by
        rw [List.length_append, List.length_append, h4, h4']
      have hfits : FitsFrame (toBeBytes 4 lastStreamId ++ toBeBytes 4 errorCode ++ debugData) := by
        rw [FitsFrame, hlength]
        omega
      have hfirst : fromBeBytes (toBeBytes 4 lastStreamId) = lastStreamId :=
        fromBeBytes_toBeBytes (by omega)
      have hsecond : fromBeBytes (toBeBytes 4 errorCode) = errorCode :=
        fromBeBytes_toBeBytes (by omega)
      have hdrop : (toBeBytes 4 lastStreamId ++ toBeBytes 4 errorCode ++ debugData).drop 8 =
          debugData := List.drop_left' (by rw [List.length_append, h4, h4'])
      rw [Sent.bytes, push_frameBytes (by omega) hfits, parseFrame, Sent.events]
      simp only [hlength, hdrop]
      rw [if_neg (by omega), List.append_assoc, List.take_left' h4, List.drop_left' h4,
        List.take_left' h4', hfirst, hsecond, Nat.mod_eq_of_lt hid]
      rfl
  | unknown frameType flags streamId payload =>
      obtain ⟨htype, hid, hfits⟩ := h
      simp only [List.mem_cons, List.not_mem_nil, or_false, not_or] at htype
      rw [Sent.bytes, push_frameBytes hid hfits, parseFrame, Sent.events]
      simp only [Except.map]
      split <;> simp_all

theorem push_items {items : List Sent} (h : ∀ item ∈ items, item.WellFormed) :
    (DirectionState.units hpack clientSide).push (waitingFor clientSide decoder none)
        (items.flatMap Sent.bytes) =
      (sentEvents hpack decoder items).map fun r => (r.1, waitingFor clientSide r.2 none) := by
  induction items generalizing decoder with
  | nil => exact push_nil
  | cons item items ih =>
      rw [List.flatMap_cons, push_append, push_item (h item List.mem_cons_self), sentEvents]
      cases item.events hpack decoder with
      | error e => rfl
      | ok r =>
          have hrest := @ih r.2 fun item hitem => h item (List.mem_cons_of_mem _ hitem)
          simp only [Except.map, Except.bind]
          rw [hrest]
          cases sentEvents hpack r.2 items <;> rfl

/-- The preface puts out nothing. -/
theorem push_preface :
    (DirectionState.units hpack true).push (.default hpack) CLIENT_PREFACE =
      .ok ([], waitingFor true hpack.new none) := rfl

theorem push_sentBytes {items : List Sent} (h : ∀ item ∈ items, item.WellFormed) :
    (DirectionState.units hpack clientSide).push (.default hpack) (sentBytes clientSide items) =
      (sentEvents hpack hpack.new items).map fun r => (r.1, waitingFor clientSide r.2 none) := by
  cases clientSide with
  | false => exact push_items h
  | true =>
      rw [sentBytes, if_pos rfl, push_append, push_preface]
      simp only [Except.bind]
      rw [push_items h]
      cases sentEvents hpack hpack.new items <;> rfl

end Items

/-! ## Any pieces -/

section Pieces
variable {η : Type} (hpack : Hpack η) (clientSide : Bool)

def H2Decoder.side (decoder : H2Decoder η) : DirectionState η :=
  if clientSide then decoder.client else decoder.server

variable {hpack clientSide}

variable (hpack clientSide) in
/-- A push reaches one direction. -/
theorem H2Decoder.push_eq (decoder : H2Decoder η) (bytes : Bytes) :
    ∃ set : DirectionState η → H2Decoder η, (∀ state, (set state).side clientSide = state) ∧
      decoder.push hpack clientSide bytes =
        ((DirectionState.units hpack clientSide).push (decoder.side clientSide) bytes).map
          fun r => (r.1, set r.2) := by
  cases clientSide with
  | true =>
      refine ⟨fun state => { decoder with client := state }, fun state => rfl, ?_⟩
      rw [← DirectionState.push_eq]
      rfl
  | false =>
      refine ⟨fun state => { decoder with server := state }, fun state => rfl, ?_⟩
      rw [← DirectionState.push_eq]
      rfl

theorem H2Decoder.pushes_eq (decoder : H2Decoder η) (pieces : List Bytes) :
    (decoder.pushes hpack clientSide pieces).map Prod.fst =
      ((DirectionState.units hpack clientSide).pushAll (decoder.side clientSide) pieces).map
        Prod.fst := by
  induction pieces generalizing decoder with
  | nil => rfl
  | cons piece pieces ih =>
      rcases decoder.push_eq hpack clientSide piece with ⟨set, hset, hpush⟩
      rw [H2Decoder.pushes, hpush, Decoder.pushAll]
      cases (DirectionState.units hpack clientSide).push (decoder.side clientSide) piece with
      | error e => rfl
      | ok r =>
          have hrest := ih (set r.2)
          rw [hset] at hrest
          simp only [Except.map, Except.bind] at hrest ⊢
          cases hpushes : (set r.2).pushes hpack clientSide pieces with
          | error e =>
              rw [hpushes] at hrest
              cases hall : (DirectionState.units hpack clientSide).pushAll r.2 pieces with
              | error e' =>
                  rw [hall] at hrest
                  exact hrest
              | ok r' =>
                  rw [hall] at hrest
                  cases hrest
          | ok pushed =>
              rw [hpushes] at hrest
              cases hall : (DirectionState.units hpack clientSide).pushAll r.2 pieces with
              | error e' =>
                  rw [hall] at hrest
                  cases hrest
              | ok r' =>
                  rw [hall] at hrest
                  simp only [Except.ok.injEq] at hrest ⊢
                  rw [hrest]

/-- Decoding undoes encoding, however what is sent is cut. -/
theorem pushes_sentBytes (hpack : Hpack η) (clientSide : Bool) (items : List Sent)
    (h : ∀ item ∈ items, item.WellFormed) (pieces : List Bytes)
    (hpieces : pieces.flatten = sentBytes clientSide items) :
    ((H2Decoder.new hpack).pushes hpack clientSide pieces).map Prod.fst =
      (sentEvents hpack hpack.new items).map Prod.fst := by
  have hnew : (H2Decoder.new hpack).side clientSide = .default hpack := by
    cases clientSide <;> rfl
  rw [H2Decoder.pushes_eq, hnew,
    Decoder.pushAll_eq DirectionState.steady DirectionState.drained_default, hpieces,
    push_sentBytes h]
  cases sentEvents hpack hpack.new items <;> rfl

end Pieces

/-! ## A small connection -/

/-- A decoder that counts the blocks, and gives their bytes as one header. -/
def countingHpack : Hpack ℕ where
  new := 0
  decode n block := .ok ([([48 + n.toUInt8], block)], n + 1)

/-- A padded block with a priority in three frames, padded data, and the other frames. -/
def sampleItems : List Sent :=
  [.headers 0x29 3 (some [0, 0]) (some ⟨1, true, 16⟩) [65] [(0x00, [66]), (0x04, [67])],
    .data 0x09 3 (some [0]) [1, 2], .unknown 0x4 0x00 0 [], .priority 0x00 5 ⟨3, false, 7⟩,
    .headers 0x04 5 none none [68] [], .rstStream 0x00 5 8, .goAway 0x00 3 2 [98, 121]]

theorem pushes_sampleItems :
    ((H2Decoder.new countingHpack).pushes countingHpack true
        [(sentBytes true sampleItems).take 10, ((sentBytes true sampleItems).drop 10).take 20,
          (sentBytes true sampleItems).drop 30]).map Prod.fst =
      .ok [.headers ⟨3, [("0", "ABC")], true, some ⟨3, 1, true, 16⟩⟩, .data 3 [1, 2] true,
        .priority ⟨5, 3, false, 7⟩, .headers ⟨5, [("1", "D")], false, none⟩, .rstStream 5 8,
        .goAway 3 2 [98, 121]] := by
  refine (pushes_sentBytes countingHpack true sampleItems (by decide +kernel) _ ?_).trans ?_
  · decide +kernel
  · decide +kernel

end Codexwatch.Capture
