import Codexwatch.Lib.Streaming
import Codexwatch.Protocol.Types

/-!
# WebSocket frames

`WebSocketDecoder` of `capture/src/websocket.rs`: whole frames come off the buffer, and the
parts of a message are put together.

## Main definitions

* `tryDecodeNext` — the frame at the front of the buffer.
* `WebSocketDecoder.push` — the messages in a piece of the stream.
* `WebSocketDecoder.steady` — they do not depend on how the stream is cut.
-/
namespace Codexwatch.Capture

open Protocol

structure WebSocketFrame where
  opcode : UInt8
  payload : Bytes
  fin : Bool
  deriving DecidableEq

structure WebSocketDecoder where
  buffer : Bytes
  continuationOpcode : Option UInt8
  continuationPayload : Bytes
  deriving DecidableEq

inductive WebSocketError
  | truncated
  | invalidContinuation
  /-- `cursor + len` does not fit in a `usize`: the slice panics. -/
  | overflow
  deriving DecidableEq

/-! ## Numbers -/

/-- `from_be_bytes` -/
def fromBeBytes (bytes : Bytes) : ℕ := bytes.foldl (fun n b => n * 256 + b.toNat) 0

/-- A number in `n` bytes, as it is sent. -/
def toBeBytes : ℕ → ℕ → Bytes
  | 0, _ => []
  | n + 1, value => toBeBytes n (value / 256) ++ [UInt8.ofNat (value % 256)]

@[simp] theorem length_toBeBytes (n value : ℕ) : (toBeBytes n value).length = n := by
  induction n generalizing value with
  | zero => rfl
  | succ n ih => rw [toBeBytes, List.length_append, ih, List.length_singleton]

theorem fromBeBytes_toBeBytes {n value : ℕ} (h : value < 256 ^ n) :
    fromBeBytes (toBeBytes n value) = value := by
  induction n generalizing value with
  | zero =>
      rw [pow_zero, Nat.lt_one_iff] at h
      rw [h]
      rfl
  | succ n ih =>
      have hrest : value / 256 < 256 ^ n := by
        rw [Nat.div_lt_iff_lt_mul (by decide), ← pow_succ]
        exact h
      have hlast : (UInt8.ofNat (value % 256)).toNat = value % 256 := by
        rw [UInt8.toNat_ofNat']
        omega
      have hsum := ih hrest
      rw [fromBeBytes] at hsum
      rw [toBeBytes, fromBeBytes, List.foldl_append, hsum, List.foldl_cons, List.foldl_nil, hlast]
      omega

/-! ## One frame -/

/-- What stands before the payload of a frame. -/
structure FrameHeader where
  opcode : UInt8
  fin : Bool
  mask : Bytes
  cursor : ℕ
  len : ℕ

/-- The bytes of an extended length. -/
def extendedBytes (b : UInt8) : ℕ :=
  if b &&& 0x7f = 126 then 2 else if b &&& 0x7f = 127 then 8 else 0

/-- The bytes of a masking key. -/
def maskBytes (b : UInt8) : ℕ := if b &&& 0x80 = 0 then 0 else 4

def frameHeader : Bytes → Option FrameHeader
  | b0 :: b1 :: rest =>
      let extended := extendedBytes b1
      if rest.length < extended + maskBytes b1 then none
      else some {
        opcode := b0 &&& 0x0f
        fin := b0 &&& 0x80 != 0
        mask := (rest.drop extended).take (maskBytes b1)
        cursor := 2 + extended + maskBytes b1
        len := if extended = 0 then (b1 &&& 0x7f).toNat else fromBeBytes (rest.take extended) }
  | _ => none

def unmask (mask payload : Bytes) : Bytes :=
  if mask = [] then payload
  else payload.mapIdx fun index byte => byte ^^^ mask.getD (index % 4) 0

/-- The frame at the front of the buffer, and what follows it. -/
def tryDecodeNext (buffer : Bytes) : Except WebSocketError (Option (WebSocketFrame × Bytes)) :=
  match frameHeader buffer with
  | none => .ok none
  | some header =>
      let stop := header.cursor + header.len
      if 2 ^ 64 ≤ stop then .error .overflow
      else if buffer.length < stop then .ok none
      else .ok (some (⟨header.opcode,
        unmask header.mask ((buffer.drop header.cursor).take header.len), header.fin⟩,
        buffer.drop stop))

theorem frameHeader_cursor {buffer : Bytes} {header : FrameHeader}
    (h : frameHeader buffer = some header) : 2 ≤ header.cursor ∧ header.cursor ≤ buffer.length := by
  rcases buffer with _ | ⟨b0, _ | ⟨b1, rest⟩⟩
  · cases h
  · cases h
  · simp only [frameHeader] at h
    split at h
    · cases h
    · cases h
      simp only [List.length_cons]
      omega

theorem frameHeader_append {buffer : Bytes} {header : FrameHeader}
    (h : frameHeader buffer = some header) (later : Bytes) :
    frameHeader (buffer ++ later) = some header := by
  rcases buffer with _ | ⟨b0, _ | ⟨b1, rest⟩⟩
  · cases h
  · cases h
  · simp only [frameHeader, List.cons_append] at h ⊢
    split at h
    · cases h
    · rename_i hlength
      rw [if_neg (by rw [List.length_append]; omega),
        List.drop_append_of_le_length (by omega),
        List.take_append_of_le_length (by rw [List.length_drop]; omega),
        List.take_append_of_le_length (by omega)]
      exact h

theorem tryDecodeNext_shorter {buffer rest : Bytes} {frame : WebSocketFrame}
    (h : tryDecodeNext buffer = .ok (some (frame, rest))) : rest.length < buffer.length := by
  rw [tryDecodeNext] at h
  cases hheader : frameHeader buffer with
  | none =>
      rw [hheader] at h
      cases h
  | some header =>
      have hcursor := frameHeader_cursor hheader
      rw [hheader] at h
      dsimp only at h
      split at h
      · cases h
      · split at h
        · cases h
        · cases h
          rw [List.length_drop]
          omega

theorem tryDecodeNext_append {buffer rest : Bytes} {frame : WebSocketFrame}
    (h : tryDecodeNext buffer = .ok (some (frame, rest))) (later : Bytes) :
    tryDecodeNext (buffer ++ later) = .ok (some (frame, rest ++ later)) := by
  rw [tryDecodeNext] at h ⊢
  cases hheader : frameHeader buffer with
  | none =>
      rw [hheader] at h
      cases h
  | some header =>
      have hcursor := frameHeader_cursor hheader
      rw [hheader] at h
      rw [frameHeader_append hheader]
      dsimp only at h ⊢
      split at h
      · cases h
      · rename_i hfits
        split at h
        · cases h
        · rename_i hlength
          rw [if_neg hfits, if_neg (by rw [List.length_append]; omega),
            List.drop_append_of_le_length (by omega),
            List.take_append_of_le_length (by rw [List.length_drop]; omega),
            List.drop_append_of_le_length (by omega)]
          cases h
          rfl

theorem tryDecodeNext_error {buffer : Bytes} {e : WebSocketError}
    (h : tryDecodeNext buffer = .error e) (later : Bytes) :
    tryDecodeNext (buffer ++ later) = .error e := by
  rw [tryDecodeNext] at h ⊢
  cases hheader : frameHeader buffer with
  | none =>
      rw [hheader] at h
      cases h
  | some header =>
      rw [hheader] at h
      rw [frameHeader_append hheader]
      dsimp only at h ⊢
      split at h
      · rename_i hfits
        rw [if_pos hfits]
        exact h
      · split at h <;> cases h

/-! ## Messages -/

namespace WebSocketDecoder

def new : WebSocketDecoder := ⟨[], none, []⟩

/-- A frame that is a message, a part of one, or the last part. -/
def accept (d : WebSocketDecoder) (frame : WebSocketFrame) :
    Except WebSocketError (List WebSocketFrame × WebSocketDecoder) :=
  if frame.opcode = 0 then
    match d.continuationOpcode with
    | none => .error .invalidContinuation
    | some opcode =>
        let payload := d.continuationPayload ++ frame.payload
        if frame.fin then
          .ok ([⟨opcode, payload, true⟩],
            { d with continuationOpcode := none, continuationPayload := [] })
        else .ok ([], { d with continuationPayload := payload })
  else if !frame.fin then
    .ok ([], { d with
      continuationOpcode := some frame.opcode, continuationPayload := frame.payload })
  else .ok ([frame], d)

/-- The body of the loop in `push`. -/
def next (d : WebSocketDecoder) :
    Except WebSocketError (Option (List WebSocketFrame × WebSocketDecoder)) :=
  match tryDecodeNext d.buffer with
  | .error e => .error e
  | .ok none => .ok none
  | .ok (some (frame, rest)) => ({ d with buffer := rest }.accept frame).map some

def decoder : Streaming.Decoder WebSocketDecoder UInt8 WebSocketFrame WebSocketError where
  append d bytes := { d with buffer := d.buffer ++ bytes }
  pending d := d.buffer.length
  next := next

def push (d : WebSocketDecoder) (bytes : Bytes) :
    Except WebSocketError (List WebSocketFrame × WebSocketDecoder) :=
  decoder.push d bytes

/-- A frame is accepted alike whatever waits in the buffer. -/
theorem accept_setBuffer (d : WebSocketDecoder) (frame : WebSocketFrame) (buffer : Bytes) :
    { d with buffer := buffer }.accept frame =
      (d.accept frame).map fun r => (r.1, { r.2 with buffer := buffer }) := by
  rw [accept, accept]
  split
  · cases d.continuationOpcode with
    | none => rfl
    | some opcode =>
        dsimp only
        split <;> rfl
  · split <;> rfl

theorem buffer_accept {d d' : WebSocketDecoder} {frame : WebSocketFrame}
    {frames : List WebSocketFrame} (h : d.accept frame = .ok (frames, d')) :
    d'.buffer = d.buffer := by
  have hset := accept_setBuffer d frame d.buffer
  rw [h] at hset
  exact congrArg (fun r => r.2.buffer) (Except.ok.inj hset)

/-- What `next` does is done in any buffer that goes on. -/
theorem steady : decoder.Steady where
  append_nil d := by simp [decoder]
  append_append d l m := by simp [decoder]
  shorter := by
    intro d out d' h
    simp only [decoder, next] at h ⊢
    cases htake : tryDecodeNext d.buffer with
    | error e =>
        rw [htake] at h
        cases h
    | ok taken =>
        rw [htake] at h
        cases taken with
        | none => cases h
        | some taken =>
            dsimp only at h
            cases haccept : { d with buffer := taken.2 }.accept taken.1 with
            | error e =>
                rw [haccept] at h
                cases h
            | ok accepted =>
                rw [haccept] at h
                cases h
                have hbuffer := buffer_accept haccept
                dsimp only at hbuffer
                rw [hbuffer]
                exact tryDecodeNext_shorter htake
  extend := by
    intro d out d' later h
    simp only [decoder, next] at h ⊢
    cases htake : tryDecodeNext d.buffer with
    | error e =>
        rw [htake] at h
        cases h
    | ok taken =>
        rw [htake] at h
        cases taken with
        | none => cases h
        | some taken =>
            rw [tryDecodeNext_append htake]
            dsimp only at h ⊢
            rw [accept_setBuffer] at h ⊢
            cases haccept : d.accept taken.1 with
            | error e =>
                rw [haccept] at h
                cases h
            | ok accepted =>
                rw [haccept] at h
                cases h
                rfl
  fails := by
    intro d e later h
    simp only [decoder, next] at h ⊢
    cases htake : tryDecodeNext d.buffer with
    | error e =>
        rw [htake] at h
        cases h
        rw [tryDecodeNext_error htake]
    | ok taken =>
        rw [htake] at h
        cases taken with
        | none => cases h
        | some taken =>
            rw [tryDecodeNext_append htake]
            dsimp only at h ⊢
            rw [accept_setBuffer] at h ⊢
            cases haccept : d.accept taken.1 with
            | error e =>
                rw [haccept] at h
                cases h
                rfl
            | ok accepted =>
                rw [haccept] at h
                cases h

/-- The two parts of a message, masked with different keys. -/
example : (new.push [0x01, 0x82, 1, 2, 3, 4, 0x69, 0x6b, 0x80, 0x81, 5, 6, 7, 8, 0x24]).map
    Prod.fst = .ok [⟨1, [0x68, 0x69, 0x21], true⟩] := by
  decide

end WebSocketDecoder

end Codexwatch.Capture
