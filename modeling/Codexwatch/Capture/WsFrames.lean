import Codexwatch.Capture.WebSocket

/-!
# WebSocket frames as they are sent

Messages in any number of frames, each masked or not, with control frames between them. The
decoder puts out the messages and the control frames as they are complete, however the
bytes are cut, and so does putting together what `decode_websocket_frames` reads of the
whole.

## Main definitions

* `decodeWebsocketFrames`, `acceptAll` — the frames of a whole stream, put together.
* `SentFragment`, `SentFrame`, `SentMessage` — what is sent.
* `SentMessage.output` — what they mean.
* `pushes_messageBytes` — decoding undoes encoding.
-/
namespace Codexwatch.Capture

open Protocol Streaming

/-! ## A whole stream -/

/-- `bytes.get(start..stop)` -/
def getRange (bytes : Bytes) (start stop : ℕ) : Option Bytes :=
  if start ≤ stop ∧ stop ≤ bytes.length then some ((bytes.take stop).drop start) else none

/-- `ok_or(WebSocketError::Truncated)` -/
def orTruncated {α : Type} (value : Option α) : Except WebSocketError α :=
  value.elim (.error .truncated) .ok

/-- The frame at the cursor, and the cursor after it. -/
def frameAt (bytes : Bytes) (cursor : ℕ) : Except WebSocketError (WebSocketFrame × ℕ) := do
  let b0 ← orTruncated bytes[cursor]?
  let b1 ← orTruncated bytes[cursor + 1]?
  let cursor := cursor + 2
  let extended ← orTruncated (getRange bytes cursor (cursor + extendedBytes b1))
  let len := if extended = [] then (b1 &&& 0x7f).toNat else fromBeBytes extended
  let cursor := cursor + extendedBytes b1
  let mask ← orTruncated (getRange bytes cursor (cursor + maskBytes b1))
  let cursor := cursor + maskBytes b1
  let payload ← orTruncated (getRange bytes cursor (cursor + len))
  pure (⟨b0 &&& 0x0f, unmask mask payload, b0 &&& 0x80 != 0⟩, cursor + len)

/-- The loop of `decode_websocket_frames`; every frame takes one of the `fuel` bytes. -/
def decodeFramesFrom (bytes : Bytes) : ℕ → ℕ → Except WebSocketError (List WebSocketFrame)
  | 0, _ => .ok []
  | fuel + 1, cursor =>
      if bytes.length ≤ cursor then .ok []
      else (frameAt bytes cursor).bind fun r =>
        (decodeFramesFrom bytes fuel r.2).map fun frames => r.1 :: frames

def decodeWebsocketFrames (bytes : Bytes) : Except WebSocketError (List WebSocketFrame) :=
  decodeFramesFrom bytes bytes.length 0

namespace WebSocketDecoder

/-- The frames are put together one after the other. -/
def acceptAll : WebSocketDecoder → List WebSocketFrame →
    Except WebSocketError (List WebSocketFrame × WebSocketDecoder)
  | d, [] => .ok ([], d)
  | d, frame :: frames => (d.accept frame).bind fun r =>
      (acceptAll r.2 frames).map fun r' => (r.1 ++ r'.1, r'.2)

end WebSocketDecoder

/-! ## Frames -/

/-- How the length is written: in seven bits, in two bytes, or in eight. -/
inductive LengthForm
  | short | medium | long
  deriving DecidableEq

/-- The form can carry the length. -/
def LengthForm.Carries : LengthForm → ℕ → Prop
  | .short, length => length < 126
  | .medium, length => length < 2 ^ 16
  | .long, length => length < 2 ^ 63

instance (form : LengthForm) (length : ℕ) : Decidable (form.Carries length) := by
  cases form <;> exact inferInstanceAs (Decidable (_ < _))

/-- What is sent in a frame, and how. -/
structure SentFragment where
  form : LengthForm
  mask : Option Bytes
  payload : Bytes
  deriving DecidableEq

namespace SentFragment

structure WellFormed (fragment : SentFragment) : Prop where
  carries : fragment.form.Carries fragment.payload.length
  mask : ∀ mask ∈ fragment.mask, mask.length = 4

instance (fragment : SentFragment) : Decidable fragment.WellFormed :=
  decidable_of_iff (fragment.form.Carries fragment.payload.length ∧
    ∀ mask ∈ fragment.mask, mask.length = 4) ⟨fun h => ⟨h.1, h.2⟩, fun h => ⟨h.1, h.2⟩⟩

/-- The length field of seven bits. -/
def lengthField (fragment : SentFragment) : UInt8 :=
  match fragment.form with
  | .short => UInt8.ofNat fragment.payload.length
  | .medium => 126
  | .long => 127

def extendedLength (fragment : SentFragment) : Bytes :=
  match fragment.form with
  | .short => []
  | .medium => toBeBytes 2 fragment.payload.length
  | .long => toBeBytes 8 fragment.payload.length

end SentFragment

structure SentFrame where
  opcode : UInt8
  fin : Bool
  fragment : SentFragment

namespace SentFrame

structure WellFormed (frame : SentFrame) : Prop where
  opcode : frame.opcode < 16
  fragment : frame.fragment.WellFormed

/-- The second byte. -/
def lengthByte (frame : SentFrame) : UInt8 :=
  frame.fragment.lengthField ||| if frame.fragment.mask.isSome then 0x80 else 0

def bytes (frame : SentFrame) : Bytes :=
  [frame.opcode ||| if frame.fin then 0x80 else 0, frame.lengthByte] ++
    (frame.fragment.extendedLength ++ (frame.fragment.mask.getD [] ++
      unmask (frame.fragment.mask.getD []) frame.fragment.payload))

def frame (frame : SentFrame) : WebSocketFrame :=
  ⟨frame.opcode, frame.fragment.payload, frame.fin⟩

end SentFrame

/-! ## Messages -/

structure SentControl where
  opcode : UInt8
  fragment : SentFragment
  deriving DecidableEq

namespace SentControl

structure WellFormed (control : SentControl) : Prop where
  opcode : 8 ≤ control.opcode ∧ control.opcode < 16
  fragment : control.fragment.WellFormed

instance (control : SentControl) : Decidable control.WellFormed :=
  decidable_of_iff ((8 ≤ control.opcode ∧ control.opcode < 16) ∧ control.fragment.WellFormed)
    ⟨fun h => ⟨h.1, h.2⟩, fun h => ⟨h.1, h.2⟩⟩

def toFrame (control : SentControl) : SentFrame := ⟨control.opcode, true, control.fragment⟩

end SentControl

/-- A control frame, or a message: its first fragment, and the others, each after the control
frames that come before it. -/
inductive SentMessage
  | control (control : SentControl)
  | data (opcode : UInt8) (first : SentFragment) (later : List (List SentControl × SentFragment))

/-- The fragments after the first one, of which the last one ends the message. -/
def laterFrames : List (List SentControl × SentFragment) → List SentFrame
  | [] => []
  | part :: parts => part.1.map SentControl.toFrame ++ ⟨0, parts.isEmpty, part.2⟩ ::
      laterFrames parts

namespace SentMessage

def WellFormed : SentMessage → Prop
  | .control sent => sent.WellFormed
  | .data opcode first later => (1 ≤ opcode ∧ opcode ≤ 7) ∧ first.WellFormed ∧
      ∀ part ∈ later, (∀ control ∈ part.1, control.WellFormed) ∧ part.2.WellFormed

instance decidableWellFormed : ∀ message : SentMessage, Decidable message.WellFormed
  | .control sent => inferInstanceAs (Decidable sent.WellFormed)
  | .data opcode first later => inferInstanceAs (Decidable ((1 ≤ opcode ∧ opcode ≤ 7) ∧
      first.WellFormed ∧
      ∀ part ∈ later, (∀ control ∈ part.1, control.WellFormed) ∧ part.2.WellFormed))

def frames : SentMessage → List SentFrame
  | .control sent => [sent.toFrame]
  | .data opcode first later => ⟨opcode, later.isEmpty, first⟩ :: laterFrames later

def bytes (message : SentMessage) : Bytes := message.frames.flatMap SentFrame.bytes

/-- What is complete, in this order. -/
def output : SentMessage → List WebSocketFrame
  | .control sent => [sent.toFrame.frame]
  | .data opcode first later =>
      (later.flatMap fun part => part.1.map fun control => control.toFrame.frame) ++
        [⟨opcode, first.payload ++ later.flatMap fun part => part.2.payload, true⟩]

end SentMessage

/-- One piece after the other. -/
def WebSocketDecoder.pushes : WebSocketDecoder → List Bytes →
    Except WebSocketError (List WebSocketFrame × WebSocketDecoder)
  | d, [] => .ok ([], d)
  | d, piece :: pieces => (d.push piece).bind fun r =>
      (r.2.pushes pieces).map fun r' => (r.1 ++ r'.1, r'.2)

/-! ## One frame -/

section Frame
variable {fragment : SentFragment} {frame : SentFrame}

theorem length_unmask (mask payload : Bytes) : (unmask mask payload).length = payload.length := by
  rw [unmask]
  split
  · rfl
  · exact List.length_mapIdx

/-- Masking is its own inverse. -/
theorem unmask_unmask (mask payload : Bytes) : unmask mask (unmask mask payload) = payload := by
  refine List.ext_getElem (by rw [length_unmask, length_unmask]) ?_
  intro i hi hpayload
  simp only [unmask]
  split
  · rfl
  · rw [List.getElem_mapIdx, List.getElem_mapIdx, UInt8.xor_assoc, UInt8.xor_self, UInt8.xor_zero]

theorem and_or_fin {b : UInt8} (h : b < 16) (fin : Bool) :
    (b ||| if fin then 0x80 else 0) &&& 0x0f = b ∧
      ((b ||| if fin then 0x80 else 0) &&& 0x80 != 0) = fin := by
  have hall : ∀ n < 16, ∀ fin : Bool,
      (UInt8.ofNat n ||| if fin then 0x80 else 0) &&& 0x0f = UInt8.ofNat n ∧
        ((UInt8.ofNat n ||| if fin then 0x80 else 0) &&& 0x80 != 0) = fin := by decide
  have hb := hall b.toNat (by simpa [UInt8.lt_iff_toNat_lt] using h) fin
  rwa [UInt8.ofNat_toNat] at hb

theorem and_or_masked {b : UInt8} (h : b < 128) (masked : Bool) :
    (b ||| if masked then 0x80 else 0) &&& 0x7f = b ∧
      ((b ||| if masked then 0x80 else 0) &&& 0x80 = 0 ↔ masked = false) := by
  have hall : ∀ n < 128, ∀ masked : Bool,
      (UInt8.ofNat n ||| if masked then 0x80 else 0) &&& 0x7f = UInt8.ofNat n ∧
        ((UInt8.ofNat n ||| if masked then 0x80 else 0) &&& 0x80 = 0 ↔ masked = false) := by
    decide
  have hb := hall b.toNat (by simpa [UInt8.lt_iff_toNat_lt] using h) masked
  rwa [UInt8.ofNat_toNat] at hb

theorem lengthField_lt (h : fragment.WellFormed) : fragment.lengthField < 128 := by
  have hcarries := h.carries
  rw [SentFragment.lengthField]
  cases hform : fragment.form with
  | short =>
      rw [hform] at hcarries
      have hlt : fragment.payload.length < 126 := hcarries
      have hall : ∀ n < 126, UInt8.ofNat n < 128 := by decide
      exact hall _ hlt
  | medium =>
      change (126 : UInt8) < 128
      decide
  | long =>
      change (127 : UInt8) < 128
      decide

theorem length_extendedLength (h : frame.WellFormed) :
    frame.fragment.extendedLength.length = extendedBytes (frame.lengthByte) := by
  have hfield := (and_or_masked (lengthField_lt h.fragment) frame.fragment.mask.isSome).1
  have hcarries := h.fragment.carries
  rw [SentFrame.lengthByte, extendedBytes, hfield, SentFragment.extendedLength,
    SentFragment.lengthField]
  cases hform : frame.fragment.form with
  | short =>
      rw [hform] at hcarries
      have hlt : frame.fragment.payload.length < 126 := hcarries
      have hall : ∀ n < 126, UInt8.ofNat n ≠ 126 ∧ UInt8.ofNat n ≠ 127 := by decide
      obtain ⟨hne, hne'⟩ := hall _ hlt
      simp only [if_neg hne, if_neg hne', List.length_nil]
  | medium => rw [length_toBeBytes]; rfl
  | long => rw [length_toBeBytes]; rfl

theorem length_mask (h : frame.WellFormed) :
    (frame.fragment.mask.getD []).length = maskBytes (frame.lengthByte) := by
  have hbit := (and_or_masked (lengthField_lt h.fragment) frame.fragment.mask.isSome).2
  rw [SentFrame.lengthByte, maskBytes]
  cases hmask : frame.fragment.mask with
  | none =>
      rw [hmask] at hbit
      rw [if_pos (hbit.mpr rfl)]
      rfl
  | some mask =>
      rw [hmask] at hbit
      rw [if_neg (by rw [hbit]; simp), Option.getD_some]
      exact h.fragment.mask mask hmask

/-- The length as it is read. -/
theorem fromBeBytes_extendedLength (h : frame.WellFormed) :
    (if frame.fragment.extendedLength = [] then (frame.lengthByte &&& 0x7f).toNat
      else fromBeBytes frame.fragment.extendedLength) = frame.fragment.payload.length := by
  have hfield := (and_or_masked (lengthField_lt h.fragment) frame.fragment.mask.isSome).1
  have hcarries := h.fragment.carries
  rw [SentFrame.lengthByte, hfield, SentFragment.extendedLength, SentFragment.lengthField]
  cases hform : frame.fragment.form with
  | short =>
      rw [hform] at hcarries
      have hlt : frame.fragment.payload.length < 126 := hcarries
      simp only [if_true, UInt8.toNat_ofNat']
      omega
  | medium =>
      rw [hform] at hcarries
      have hlt : frame.fragment.payload.length < 2 ^ 16 := hcarries
      have hne : toBeBytes 2 frame.fragment.payload.length ≠ [] :=
        List.ne_nil_of_length_pos (by rw [length_toBeBytes]; decide)
      simp only [if_neg hne]
      exact fromBeBytes_toBeBytes (by omega)
  | long =>
      rw [hform] at hcarries
      have hlt : frame.fragment.payload.length < 2 ^ 63 := hcarries
      have hne : toBeBytes 8 frame.fragment.payload.length ≠ [] :=
        List.ne_nil_of_length_pos (by rw [length_toBeBytes]; decide)
      simp only [if_neg hne]
      exact fromBeBytes_toBeBytes (by omega)

theorem length_bytes_frame (h : frame.WellFormed) :
    (frame.bytes).length = 2 + extendedBytes (frame.lengthByte) +
      maskBytes (frame.lengthByte) + frame.fragment.payload.length := by
  have hextended := length_extendedLength h
  have hmask := length_mask h
  rw [SentFrame.bytes]
  simp only [List.length_append, List.length_cons, List.length_nil, hextended, hmask,
    length_unmask]
  omega

theorem frameHeader_bytes (h : frame.WellFormed) (rest : Bytes) :
    frameHeader (frame.bytes ++ rest) = some {
      opcode := frame.opcode
      fin := frame.fin
      mask := frame.fragment.mask.getD []
      cursor := 2 + extendedBytes (frame.lengthByte) + maskBytes (frame.lengthByte)
      len := frame.fragment.payload.length } := by
  have hfirst := and_or_fin h.opcode frame.fin
  have hextended := length_extendedLength h
  have hmask := length_mask h
  have hlen := fromBeBytes_extendedLength h
  have hbytes : frame.bytes ++ rest =
      (frame.opcode ||| if frame.fin then 0x80 else 0) :: frame.lengthByte ::
        (frame.fragment.extendedLength ++ (frame.fragment.mask.getD [] ++
          (unmask (frame.fragment.mask.getD []) frame.fragment.payload ++ rest))) := by
    simp [SentFrame.bytes]
  have hnil : extendedBytes (frame.lengthByte) = 0 ↔ frame.fragment.extendedLength = [] := by
    rw [← hextended, List.length_eq_zero_iff]
  rw [hbytes, frameHeader]
  simp only [hfirst.1, hfirst.2]
  rw [if_neg (by simp only [List.length_append, hextended, hmask]; omega), ← hextended,
    List.drop_left, List.take_left, ← hmask, List.take_left]
  simp only [List.length_eq_zero_iff, hlen]

/-- A frame comes off the buffer, whatever follows it. -/
theorem tryDecodeNext_bytes (h : frame.WellFormed) (rest : Bytes) :
    tryDecodeNext (frame.bytes ++ rest) =
      .ok (some (frame.frame, rest)) := by
  have hlength := length_bytes_frame h
  have hpayload : frame.fragment.payload.length < 2 ^ 63 := by
    have hcarries := h.fragment.carries
    cases hform : frame.fragment.form <;> rw [hform] at hcarries <;>
      simp only [LengthForm.Carries] at hcarries <;> omega
  have hextended : extendedBytes (frame.lengthByte) ≤ 8 := by
    rw [extendedBytes]
    split
    · omega
    · split <;> omega
  have hmask : maskBytes (frame.lengthByte) ≤ 4 := by
    rw [maskBytes]
    split <;> omega
  have htotal : (frame.bytes ++ rest).length =
      (frame.bytes).length + rest.length := List.length_append
  have hdrop : (frame.bytes).drop
      (2 + extendedBytes (frame.lengthByte) + maskBytes (frame.lengthByte)) =
      unmask (frame.fragment.mask.getD []) frame.fragment.payload := by
    have hcursor : ([frame.opcode ||| if frame.fin then 0x80 else 0, frame.lengthByte] ++
        frame.fragment.extendedLength ++ frame.fragment.mask.getD []).length =
        2 + extendedBytes (frame.lengthByte) + maskBytes (frame.lengthByte) := by
      simp only [List.length_append, List.length_cons, List.length_nil, length_extendedLength h,
        length_mask h]
    have hbytes : frame.bytes =
        [frame.opcode ||| if frame.fin then 0x80 else 0, frame.lengthByte] ++
          frame.fragment.extendedLength ++ frame.fragment.mask.getD [] ++
            unmask (frame.fragment.mask.getD []) frame.fragment.payload := by
      simp [SentFrame.bytes]
    rw [hbytes, List.drop_left' hcursor]
  rw [tryDecodeNext, frameHeader_bytes h]
  dsimp only
  rw [if_neg (by omega), if_neg (by omega),
    List.drop_append_of_le_length (by omega), hdrop,
    List.take_left' (by rw [length_unmask]), unmask_unmask, List.drop_left' hlength]
  rfl

theorem getRange_append (a b c : Bytes) :
    getRange (a ++ (b ++ c)) a.length (a.length + b.length) = some b := by
  rw [getRange, if_pos (by simp only [List.length_append]; omega), List.take_length_add_append,
    List.take_left, List.drop_left]

/-- A frame is read where it stands. -/
theorem frameAt_bytes (h : frame.WellFormed) (before rest : Bytes) :
    frameAt (before ++ (frame.bytes ++ rest)) before.length =
      .ok (frame.frame,
        before.length + (frame.bytes).length) := by
  have hfirst := and_or_fin h.opcode frame.fin
  have hextended := length_extendedLength h
  have hmask := length_mask h
  have hlen := fromBeBytes_extendedLength h
  have hlength := length_bytes_frame h
  let b0 : UInt8 := frame.opcode ||| if frame.fin then 0x80 else 0
  let masked := unmask (frame.fragment.mask.getD []) frame.fragment.payload
  have hmasked : masked.length = frame.fragment.payload.length := length_unmask ..
  let whole := before ++ (frame.bytes ++ rest)
  have hbytes : whole = before ++ ([b0, frame.lengthByte] ++ (frame.fragment.extendedLength ++
      (frame.fragment.mask.getD [] ++ (masked ++ rest)))) := by
    simp [whole, b0, masked, SentFrame.bytes]
  have hb0 : whole[before.length]? = some b0 := by
    rw [hbytes]
    simp
  have hb1 : whole[before.length + 1]? = some (frame.lengthByte) := by
    rw [hbytes]
    simp
  -- the three ranges, one after the other
  have hone : getRange whole (before.length + 2)
      (before.length + 2 + extendedBytes (frame.lengthByte)) =
      some frame.fragment.extendedLength := by
    have hcut := getRange_append (before ++ [b0, frame.lengthByte]) frame.fragment.extendedLength
      (frame.fragment.mask.getD [] ++ (masked ++ rest))
    simpa [hbytes, hextended] using hcut
  have htwo : getRange whole (before.length + 2 + extendedBytes (frame.lengthByte))
      (before.length + 2 + extendedBytes (frame.lengthByte) +
        maskBytes (frame.lengthByte)) = some (frame.fragment.mask.getD []) := by
    have hcut := getRange_append (before ++ [b0, frame.lengthByte] ++ frame.fragment.extendedLength)
      (frame.fragment.mask.getD []) (masked ++ rest)
    have hcursor : (before ++ [b0, frame.lengthByte] ++ frame.fragment.extendedLength).length =
        before.length + 2 + extendedBytes frame.lengthByte := by
      simp only [List.length_append, List.length_cons, List.length_nil, hextended]
    rw [hcursor, hmask] at hcut
    simpa [hbytes] using hcut
  have hthree : getRange whole (before.length + 2 + extendedBytes (frame.lengthByte) +
      maskBytes (frame.lengthByte)) (before.length + 2 + extendedBytes (frame.lengthByte) +
        maskBytes (frame.lengthByte) + frame.fragment.payload.length) = some masked := by
    have hcut := getRange_append (before ++ [b0, frame.lengthByte] ++ frame.fragment.extendedLength ++
      frame.fragment.mask.getD []) masked rest
    have hcursor : (before ++ [b0, frame.lengthByte] ++ frame.fragment.extendedLength ++
        frame.fragment.mask.getD []).length = before.length + 2 +
          extendedBytes (frame.lengthByte) + maskBytes (frame.lengthByte) := by
      simp only [List.length_append, List.length_cons, List.length_nil, hextended, hmask]
    rw [hcursor, hmasked] at hcut
    simpa [hbytes] using hcut
  change frameAt whole before.length = _
  rw [frameAt]
  simp only [hb0, hb1, orTruncated, Option.elim_some, bind, Except.bind, hone, htwo, hlen, hthree]
  have hnumber : before.length + 2 + extendedBytes (frame.lengthByte) +
      maskBytes (frame.lengthByte) + frame.fragment.payload.length =
      before.length + (frame.bytes).length := by omega
  rw [hnumber]
  simp only [b0, masked, unmask_unmask, hfirst.1, hfirst.2]
  rfl

end Frame

/-! ## A list of frames -/

section Frames
variable {frames : List SentFrame}

theorem bytes_ne_nil (frame : SentFrame) : frame.bytes ≠ [] := by simp [SentFrame.bytes]

theorem push_frame {d : WebSocketDecoder} {frame : SentFrame} (h : frame.WellFormed)
    (hbuffer : d.buffer = []) : WebSocketDecoder.decoder.push d frame.bytes = d.accept frame.frame := by
  have htake := tryDecodeNext_bytes h []
  rw [List.append_nil] at htake
  have hpush : WebSocketDecoder.decoder.push d frame.bytes =
      WebSocketDecoder.decoder.drain (frame.bytes.length + 1)
        { d with buffer := frame.bytes } := by
    simp only [Decoder.push, WebSocketDecoder.decoder, hbuffer, List.nil_append]
  have hnext : WebSocketDecoder.decoder.next { d with buffer := frame.bytes } =
      (d.accept frame.frame).map some := by
    simp only [WebSocketDecoder.decoder, WebSocketDecoder.next, htake]
    have hd : { d with buffer := ([] : Bytes) } = d := by
      rw [← hbuffer]
    rw [hd]
  rw [hpush, Decoder.drain, hnext]
  cases haccept : d.accept frame.frame with
  | error e => rfl
  | ok r =>
      have hr : r.2.buffer = [] := (WebSocketDecoder.buffer_accept haccept).trans hbuffer
      have hdone : ∀ fuel, WebSocketDecoder.decoder.drain fuel r.2 = .ok ([], r.2) := by
        intro fuel
        have hnone : WebSocketDecoder.decoder.next r.2 = .ok none := by
          simp only [WebSocketDecoder.decoder, WebSocketDecoder.next, hr]
          rfl
        cases fuel with
        | zero => rfl
        | succ fuel => rw [Decoder.drain, hnone]
      simp only [Except.map, hdone, List.append_nil]

/-- The decoder puts the frames together. -/
theorem push_frames {d : WebSocketDecoder} (h : ∀ frame ∈ frames, frame.WellFormed)
    (hbuffer : d.buffer = []) :
    WebSocketDecoder.decoder.push d (frames.flatMap SentFrame.bytes) =
      d.acceptAll (frames.map SentFrame.frame) := by
  induction frames generalizing d with
  | nil =>
      have hdrained : WebSocketDecoder.decoder.Drained d := by
        simp only [Decoder.Drained, WebSocketDecoder.decoder, WebSocketDecoder.next, hbuffer]
        rfl
      exact Decoder.push_nil WebSocketDecoder.steady hdrained
  | cons frame frames ih =>
      rw [List.flatMap_cons, Decoder.push_append WebSocketDecoder.steady,
        push_frame (h frame List.mem_cons_self) hbuffer, List.map_cons,
        WebSocketDecoder.acceptAll]
      cases haccept : d.accept frame.frame with
      | error e => rfl
      | ok r =>
          have hr : r.2.buffer = [] := (WebSocketDecoder.buffer_accept haccept).trans hbuffer
          simp only [Except.bind]
          rw [ih (fun f hf => h f (List.mem_cons_of_mem _ hf)) hr]

theorem decodeFramesFrom_frames (h : ∀ frame ∈ frames, frame.WellFormed) (before : Bytes)
    {fuel : ℕ} (hfuel : frames.length ≤ fuel) :
    decodeFramesFrom (before ++ frames.flatMap SentFrame.bytes) fuel before.length =
      .ok (frames.map SentFrame.frame) := by
  induction frames generalizing before fuel with
  | nil =>
      cases fuel with
      | zero => rfl
      | succ fuel =>
          rw [decodeFramesFrom, if_pos (by simp)]
          rfl
  | cons frame frames ih =>
      cases fuel with
      | zero => simp at hfuel
      | succ fuel =>
          have hpos := List.length_pos_of_ne_nil (bytes_ne_nil frame)
          have hrest := ih (fun f hf => h f (List.mem_cons_of_mem _ hf)) (before ++ frame.bytes)
            (Nat.le_of_succ_le_succ hfuel)
          rw [List.length_append, List.append_assoc] at hrest
          rw [List.flatMap_cons, decodeFramesFrom,
            if_neg (by simp only [List.length_append]; omega),
            frameAt_bytes (h frame List.mem_cons_self)]
          simp only [Except.bind]
          rw [hrest]
          rfl

/-- The whole is read frame by frame. -/
theorem decodeWebsocketFrames_frames (h : ∀ frame ∈ frames, frame.WellFormed) :
    decodeWebsocketFrames (frames.flatMap SentFrame.bytes) =
      .ok (frames.map SentFrame.frame) := by
  have hfuel : frames.length ≤ (frames.flatMap SentFrame.bytes).length := by
    clear h
    induction frames with
    | nil => exact le_rfl
    | cons frame frames ih =>
        have hpos := List.length_pos_of_ne_nil (bytes_ne_nil frame)
        rw [List.flatMap_cons, List.length_append, List.length_cons]
        omega
  exact decodeFramesFrom_frames h [] hfuel

end Frames

/-! ## Putting messages together -/

namespace WebSocketDecoder
variable {d : WebSocketDecoder}

theorem acceptAll_append (d : WebSocketDecoder) (frames frames' : List WebSocketFrame) :
    d.acceptAll (frames ++ frames') = (d.acceptAll frames).bind fun r =>
      (r.2.acceptAll frames').map fun r' => (r.1 ++ r'.1, r'.2) := by
  induction frames generalizing d with
  | nil =>
      rw [List.nil_append, acceptAll]
      simp only [Except.bind]
      cases d.acceptAll frames' <;> rfl
  | cons frame frames ih =>
      rw [List.cons_append, acceptAll, acceptAll]
      cases d.accept frame with
      | error e => rfl
      | ok r =>
          simp only [Except.bind]
          rw [ih]
          cases r.2.acceptAll frames with
          | error e => rfl
          | ok r' =>
              simp only [Except.bind, Except.map]
              cases r'.2.acceptAll frames' <;> simp

/-- A control frame passes. -/
theorem accept_control {control : SentControl} (h : control.WellFormed) :
    d.accept control.toFrame.frame = .ok ([control.toFrame.frame], d) := by
  have hopcode : control.opcode ≠ 0 := by
    intro hzero
    have hle := h.opcode.1
    rw [hzero] at hle
    exact absurd hle (by decide)
  simp [accept, SentControl.toFrame, SentFrame.frame, hopcode]

theorem acceptAll_controls {controls : List SentControl}
    (h : ∀ control ∈ controls, control.WellFormed) :
    d.acceptAll ((controls.map SentControl.toFrame).map SentFrame.frame) =
      .ok (controls.map fun control => control.toFrame.frame, d) := by
  induction controls with
  | nil => rfl
  | cons control controls ih =>
      rw [List.map_cons, List.map_cons, acceptAll, accept_control (h control List.mem_cons_self)]
      simp only [Except.bind]
      rw [ih fun c hc => h c (List.mem_cons_of_mem _ hc)]
      rfl

/-- In the middle of a message. -/
def within (opcode : UInt8) (payload : Bytes) : WebSocketDecoder := ⟨[], some opcode, payload⟩

theorem acceptAll_later {later : List (List SentControl × SentFragment)} (opcode : UInt8)
    (payload : Bytes) (hne : later ≠ [])
    (h : ∀ part ∈ later, (∀ control ∈ part.1, control.WellFormed) ∧ part.2.WellFormed) :
    (within opcode payload).acceptAll ((laterFrames later).map SentFrame.frame) =
      .ok ((later.flatMap fun part => part.1.map fun control => control.toFrame.frame) ++
        [⟨opcode, payload ++ later.flatMap fun part => part.2.payload, true⟩], new) := by
  induction later generalizing payload with
  | nil => exact absurd rfl hne
  | cons part later ih =>
      obtain ⟨hcontrols, -⟩ := h part List.mem_cons_self
      rw [laterFrames, List.map_append, acceptAll_append, acceptAll_controls hcontrols]
      simp only [Except.bind, List.map_cons]
      rw [acceptAll]
      cases hlater : later with
      | nil =>
          simp [SentFrame.frame, accept, within, Except.bind, Except.map, acceptAll, laterFrames,
            new]
      | cons next rest =>
          have hrest := ih (payload ++ part.2.payload) (by simp [hlater])
            fun p hp => h p (List.mem_cons_of_mem _ hp)
          have haccept : (within opcode payload).accept
              (SentFrame.frame ⟨0, (next :: rest).isEmpty, part.2⟩) =
              .ok ([], within opcode (payload ++ part.2.payload)) := rfl
          rw [haccept]
          simp only [Except.bind]
          rw [← hlater, hrest]
          simp [Except.map]

/-- A message is put out when it is complete. -/
theorem acceptAll_message {message : SentMessage} (h : message.WellFormed) :
    new.acceptAll (message.frames.map SentFrame.frame) = .ok (message.output, new) := by
  cases message with
  | control sent =>
      refine @acceptAll_controls new [sent] ?_
      intro control hcontrol
      rw [List.mem_singleton.mp hcontrol]
      exact h
  | data opcode first later =>
      obtain ⟨hopcode, -, hlater⟩ := h
      have hne : opcode ≠ 0 := by
        rintro rfl
        exact absurd hopcode.1 (by decide)
      rw [SentMessage.frames, List.map_cons, acceptAll]
      cases later with
      | nil =>
          simp [SentFrame.frame, accept, hne, Except.bind, Except.map, acceptAll, laterFrames,
            SentMessage.output]
      | cons part later =>
          have haccept : new.accept
              (SentFrame.frame ⟨opcode, (part :: later).isEmpty, first⟩) =
              .ok ([], within opcode first.payload) := by
            simp [SentFrame.frame, accept, hne, within, new]
          have hrest := acceptAll_later opcode first.payload (List.cons_ne_nil part later) hlater
          rw [haccept]
          simp only [Except.bind]
          rw [hrest]
          rfl

theorem acceptAll_messages {messages : List SentMessage}
    (h : ∀ message ∈ messages, message.WellFormed) :
    new.acceptAll ((messages.flatMap SentMessage.frames).map SentFrame.frame) =
      .ok (messages.flatMap SentMessage.output, new) := by
  induction messages with
  | nil => rfl
  | cons message messages ih =>
      rw [List.flatMap_cons, List.map_append, acceptAll_append,
        acceptAll_message (h message List.mem_cons_self)]
      simp only [Except.bind]
      rw [ih fun m hm => h m (List.mem_cons_of_mem _ hm)]
      rfl

theorem pushes_eq (d : WebSocketDecoder) (pieces : List Bytes) :
    d.pushes pieces = decoder.pushAll d pieces := by
  induction pieces generalizing d with
  | nil => rfl
  | cons piece pieces ih =>
      rw [pushes, Decoder.pushAll, push]
      cases decoder.push d piece with
      | error e => rfl
      | ok r =>
          simp only [Except.bind]
          rw [ih]

end WebSocketDecoder

/-! ## Any pieces -/

theorem wellFormed_laterFrames {later : List (List SentControl × SentFragment)}
    (h : ∀ part ∈ later, (∀ control ∈ part.1, control.WellFormed) ∧ part.2.WellFormed) :
    ∀ frame ∈ laterFrames later, frame.WellFormed := by
  induction later with
  | nil =>
      intro frame hframe
      cases hframe
  | cons part later ih =>
      obtain ⟨hcontrols, hfragment⟩ := h part List.mem_cons_self
      intro frame hframe
      rw [laterFrames, List.mem_append, List.mem_cons] at hframe
      rcases hframe with hframe | rfl | hframe
      · obtain ⟨control, hcontrol, rfl⟩ := List.mem_map.mp hframe
        exact ⟨(hcontrols control hcontrol).opcode.2, (hcontrols control hcontrol).fragment⟩
      · exact ⟨by change (0 : UInt8) < 16; decide, hfragment⟩
      · exact ih (fun p hp => h p (List.mem_cons_of_mem _ hp)) frame hframe

theorem wellFormed_frames {message : SentMessage} (h : message.WellFormed) :
    ∀ frame ∈ message.frames, frame.WellFormed := by
  cases message with
  | control sent =>
      intro frame hframe
      rw [SentMessage.frames, List.mem_singleton] at hframe
      subst hframe
      exact ⟨h.opcode.2, h.fragment⟩
  | data opcode first later =>
      obtain ⟨hopcode, hfirst, hlater⟩ := h
      intro frame hframe
      rw [SentMessage.frames, List.mem_cons] at hframe
      rcases hframe with rfl | hframe
      · have hle : opcode.toNat ≤ 7 := UInt8.le_iff_toNat_le.mp hopcode.2
        have hlt : opcode < 16 := UInt8.lt_iff_toNat_lt.mpr (lt_of_le_of_lt hle (by decide))
        exact ⟨hlt, hfirst⟩
      · exact wellFormed_laterFrames hlater frame hframe

/-- Decoding undoes encoding, however what is sent is cut, and so does the decoder of the
whole. -/
theorem pushes_messageBytes (messages : List SentMessage)
    (h : ∀ message ∈ messages, message.WellFormed) (pieces : List Bytes)
    (hpieces : pieces.flatten = messages.flatMap SentMessage.bytes) :
    (WebSocketDecoder.new.pushes pieces).map Prod.fst =
        .ok (messages.flatMap SentMessage.output) ∧
      (decodeWebsocketFrames pieces.flatten).bind (fun frames =>
        (WebSocketDecoder.new.acceptAll frames).map Prod.fst) =
        .ok (messages.flatMap SentMessage.output) := by
  have hbytes : messages.flatMap SentMessage.bytes =
      (messages.flatMap SentMessage.frames).flatMap SentFrame.bytes := by
    rw [List.flatMap_assoc]
    rfl
  have hframes : ∀ frame ∈ messages.flatMap SentMessage.frames, frame.WellFormed := by
    intro frame hframe
    obtain ⟨message, hmessage, hframe⟩ := List.mem_flatMap.mp hframe
    exact wellFormed_frames (h message hmessage) frame hframe
  constructor
  · rw [WebSocketDecoder.pushes_eq,
      Decoder.pushAll_eq WebSocketDecoder.steady (by rfl), hpieces, hbytes,
      push_frames hframes rfl, WebSocketDecoder.acceptAll_messages h]
    rfl
  · rw [hpieces, hbytes, decodeWebsocketFrames_frames hframes]
    simp only [Except.bind]
    rw [WebSocketDecoder.acceptAll_messages h]
    rfl

/-- A text in three frames, of three forms and two keys, with a ping between. -/
def sampleMessages : List SentMessage :=
  [.data 1 ⟨.short, some [1, 2, 3, 4], [104, 105]⟩
      [([⟨9, ⟨.medium, none, [7]⟩⟩], ⟨.medium, none, [33]⟩),
        ([], ⟨.long, some [5, 6, 7, 8], [33, 33]⟩)],
    .control ⟨8, ⟨.short, none, []⟩⟩, .data 2 ⟨.short, none, [0]⟩ []]

theorem pushes_sampleMessages :
    (WebSocketDecoder.new.pushes [(sampleMessages.flatMap SentMessage.bytes).take 3,
        ((sampleMessages.flatMap SentMessage.bytes).drop 3).take 20,
        (sampleMessages.flatMap SentMessage.bytes).drop 23]).map Prod.fst =
      .ok [⟨9, [7], true⟩, ⟨1, [104, 105, 33, 33, 33], true⟩, ⟨8, [], true⟩, ⟨2, [0], true⟩] :=
  ((pushes_messageBytes sampleMessages (by decide +kernel) _ (by decide +kernel)).1).trans
    (by decide +kernel)

end Codexwatch.Capture
