import Mathlib.Data.List.GetD
import Codexwatch.Capture.WebSocket
import Codexwatch.Lib.Text

/-!
# HTTP/2 frames

`H2Decoder` of `client/src/decode_support/h2.rs`, with one state for each direction: the
client preface, whole frames, and header blocks in several parts. The header compression
(`hpack`) is a parameter with a state of its own.

## Main definitions

* `Hpack` — the parameter.
* `parseFrame` — what a frame puts out.
* `H2Decoder.push` — the events in a piece of a direction.
* `DirectionState.push_eq` — they do not depend on how the direction is cut.
-/
namespace Codexwatch.Capture

open Protocol

structure H2Priority where
  streamId : ℕ
  dependencyStreamId : ℕ
  exclusive : Bool
  weight : UInt8
  deriving DecidableEq

structure H2HeaderBlock where
  streamId : ℕ
  headers : List (String × String)
  endStream : Bool
  priority : Option H2Priority
  deriving DecidableEq

inductive H2Event
  | headers (block : H2HeaderBlock)
  | data (streamId : ℕ) (payload : Bytes) (endStream : Bool)
  | priority (priority : H2Priority)
  | rstStream (streamId errorCode : ℕ)
  | goAway (lastStreamId errorCode : ℕ) (debugData : Bytes)
  deriving DecidableEq

inductive H2DecodeError
  | invalidPreface
  | invalidFrame
  | invalidPadding
  | unexpectedContinuation
  | continuationStreamMismatch
  | headerDecode (error : String)
  deriving DecidableEq

structure PendingHeaders where
  streamId : ℕ
  endStream : Bool
  priority : Option H2Priority
  block : Bytes
  deriving DecidableEq

/-- The decoder of header blocks. -/
structure Hpack (η : Type) where
  new : η
  decode : η → Bytes → Except String (List (Bytes × Bytes) × η)

structure DirectionState (η : Type) where
  buffer : Bytes
  hpack : η
  pendingHeaders : Option PendingHeaders
  prefaceComplete : Bool
  deriving DecidableEq

structure H2Decoder (η : Type) where
  client : DirectionState η
  server : DirectionState η

/-! ## Frames -/

structure H2Frame where
  frameType : UInt8
  flags : UInt8
  streamId : ℕ
  payload : Bytes
  deriving DecidableEq

/-- The frame at the front of the buffer, and what follows it. -/
def takeFrame (buffer : Bytes) : Option (H2Frame × Bytes) :=
  if buffer.length < 9 then none
  else
    let length := fromBeBytes (buffer.take 3)
    if buffer.length < 9 + length then none
    else some (⟨buffer.getD 3 0, buffer.getD 4 0, fromBeBytes ((buffer.drop 5).take 4) % 2 ^ 31,
      (buffer.drop 9).take length⟩, buffer.drop (9 + length))

theorem takeFrame_shorter {buffer rest : Bytes} {frame : H2Frame}
    (h : takeFrame buffer = some (frame, rest)) : rest.length < buffer.length := by
  rw [takeFrame] at h
  split at h
  · cases h
  · dsimp only at h
    split at h
    · cases h
    · cases h
      rw [List.length_drop]
      omega

theorem takeFrame_append {buffer rest : Bytes} {frame : H2Frame}
    (h : takeFrame buffer = some (frame, rest)) (later : Bytes) :
    takeFrame (buffer ++ later) = some (frame, rest ++ later) := by
  rw [takeFrame] at h ⊢
  split at h
  · cases h
  · rename_i hnine
    have hlength : (buffer ++ later).length = buffer.length + later.length :=
      List.length_append
    dsimp only at h ⊢
    rw [if_neg (by omega), List.take_append_of_le_length (by omega),
      List.getD_append _ _ _ _ (by omega), List.getD_append _ _ _ _ (by omega),
      List.drop_append_of_le_length (by omega), List.drop_append_of_le_length (by omega),
      List.take_append_of_le_length (by rw [List.length_drop]; omega)]
    split at h
    · cases h
    · rename_i hwhole
      rw [if_neg (by omega), List.take_append_of_le_length (by rw [List.length_drop]; omega),
        List.drop_append_of_le_length (by omega)]
      cases h
      rfl

def stripPadding (payload : Bytes) (padded : Bool) : Except H2DecodeError Bytes :=
  if !padded then .ok payload
  else
    match payload with
    | [] => .error .invalidPadding
    | padLen :: payload =>
        if payload.length < padLen.toNat then .error .invalidPadding
        else .ok (payload.take (payload.length - padLen.toNat))

def parseDataFrame (streamId : ℕ) (flags : UInt8) (payload : Bytes) :
    Except H2DecodeError H2Event :=
  if streamId = 0 then .error .invalidFrame
  else (stripPadding payload (flags &&& 0x08 != 0)).map fun payload =>
    .data streamId payload (flags &&& 0x01 != 0)

def priorityOf (streamId : ℕ) (payload : Bytes) : H2Priority :=
  let rawDependency := fromBeBytes (payload.take 4)
  ⟨streamId, rawDependency % 2 ^ 31, 2 ^ 31 ≤ rawDependency, payload.getD 4 0⟩

def parsePriorityPayload (streamId : ℕ) (payload : Bytes) : Except H2DecodeError H2Priority :=
  if streamId = 0 ∨ payload.length ≠ 5 then .error .invalidFrame
  else .ok (priorityOf streamId payload)

/-- The priority and the block fragment of a HEADERS frame; padding keeps its length byte. -/
def headersPayload (streamId : ℕ) (flags : UInt8) (payload : Bytes) :
    Except H2DecodeError (Option H2Priority × Bytes) := do
  let (cursor, payload) ←
    if flags &&& 0x08 = 0 then .ok (0, payload)
    else match payload with
      | [] => .error .invalidPadding
      | padLen :: _ =>
          if payload.length < 1 + padLen.toNat then .error .invalidPadding
          else .ok (1, payload.take (payload.length - padLen.toNat))
  let (cursor, priority) ←
    if flags &&& 0x20 = 0 then .ok (cursor, none)
    else if payload.length < cursor + 5 then .error .invalidFrame
    else .ok (cursor + 5, some (priorityOf streamId (payload.drop cursor)))
  if payload.length < cursor then .error .invalidFrame
  else .ok (priority, payload.drop cursor)

section Frames
variable {η : Type} (hpack : Hpack η) (state : DirectionState η)

/-- Names and values are text. -/
def decodeHeaders (decoder : η) (block : Bytes) :
    Except H2DecodeError (List (String × String) × η) :=
  match hpack.decode decoder block with
  | .error e => .error (.headerDecode e)
  | .ok (headers, decoder) => .ok (headers.map fun header =>
      (Text.fromUtf8Lossy header.1, Text.fromUtf8Lossy header.2), decoder)

/-- A header block that is whole, or that goes on in the next frame. -/
def endHeaders (flags : UInt8) (pending : PendingHeaders) :
    Except H2DecodeError (List H2Event × DirectionState η) :=
  if flags &&& 0x04 = 0 then .ok ([], { state with pendingHeaders := some pending })
  else (decodeHeaders hpack state.hpack pending.block).map fun decoded =>
    ([.headers ⟨pending.streamId, decoded.1, pending.endStream, pending.priority⟩],
      { state with hpack := decoded.2 })

def parseHeadersFrame (streamId : ℕ) (flags : UInt8) (payload : Bytes) :
    Except H2DecodeError (List H2Event × DirectionState η) :=
  if streamId = 0 then .error .invalidFrame
  else
    match headersPayload streamId flags payload with
    | .error e => .error e
    | .ok (priority, block) =>
        endHeaders hpack state flags ⟨streamId, flags &&& 0x01 != 0, priority, block⟩

def parseContinuationFrame (streamId : ℕ) (flags : UInt8) (payload : Bytes) :
    Except H2DecodeError (List H2Event × DirectionState η) :=
  match state.pendingHeaders with
  | none => .error .unexpectedContinuation
  | some pending =>
      if pending.streamId ≠ streamId then .error .continuationStreamMismatch
      else endHeaders hpack { state with pendingHeaders := none } flags
        { pending with block := pending.block ++ payload }

/-- Frames of other types put out nothing. -/
def parseFrame (frame : H2Frame) : Except H2DecodeError (List H2Event × DirectionState η) :=
  let payload := frame.payload
  match frame.frameType with
  | 0x0 => (parseDataFrame frame.streamId frame.flags payload).map fun event => ([event], state)
  | 0x1 => parseHeadersFrame hpack state frame.streamId frame.flags payload
  | 0x2 => (parsePriorityPayload frame.streamId payload).map fun priority =>
      ([.priority priority], state)
  | 0x3 =>
      if payload.length ≠ 4 ∨ frame.streamId = 0 then .error .invalidFrame
      else .ok ([.rstStream frame.streamId (fromBeBytes payload)], state)
  | 0x7 =>
      if payload.length < 8 ∨ frame.streamId ≠ 0 then .error .invalidFrame
      else .ok ([.goAway (fromBeBytes (payload.take 4) % 2 ^ 31)
        (fromBeBytes ((payload.drop 4).take 4)) (payload.drop 8)], state)
  | 0x9 => parseContinuationFrame hpack state frame.streamId frame.flags payload
  | _ => .ok ([], state)

/-- A frame is parsed alike whatever waits in the buffer. -/
theorem parseFrame_set (frame : H2Frame) (buffer : Bytes) (prefaceComplete : Bool) :
    parseFrame hpack ⟨buffer, state.hpack, state.pendingHeaders, prefaceComplete⟩ frame =
      (parseFrame hpack state frame).map fun r =>
        (r.1, ⟨buffer, r.2.hpack, r.2.pendingHeaders, prefaceComplete⟩) := by
  have hend : ∀ (pendingHeaders : Option PendingHeaders) flags pending,
      endHeaders hpack ⟨buffer, state.hpack, pendingHeaders, prefaceComplete⟩ flags pending =
        (endHeaders hpack { state with pendingHeaders } flags pending).map fun r =>
          (r.1, ⟨buffer, r.2.hpack, r.2.pendingHeaders, prefaceComplete⟩) := by
    intro pendingHeaders flags pending
    rw [endHeaders, endHeaders]
    split
    · rfl
    · cases decodeHeaders hpack state.hpack pending.block <;> rfl
  rw [parseFrame, parseFrame]
  split
  · cases parseDataFrame frame.streamId frame.flags frame.payload <;> rfl
  · rw [parseHeadersFrame, parseHeadersFrame]
    split
    · rfl
    · cases headersPayload frame.streamId frame.flags frame.payload with
      | error e => rfl
      | ok block => exact hend _ _ _
  · cases parsePriorityPayload frame.streamId frame.payload <;> rfl
  · split <;> rfl
  · split <;> rfl
  · rw [parseContinuationFrame, parseContinuationFrame]
    cases state.pendingHeaders with
    | none => rfl
    | some pending =>
        dsimp only
        split
        · rfl
        · exact hend _ _ _
  · rfl

theorem rest_parseFrame {frame : H2Frame} {events : List H2Event} {state' : DirectionState η}
    (h : parseFrame hpack state frame = .ok (events, state')) :
    state'.buffer = state.buffer ∧ state'.prefaceComplete = state.prefaceComplete := by
  have hset := parseFrame_set hpack state frame state.buffer state.prefaceComplete
  rw [h] at hset
  have hstate : state' =
      ⟨state.buffer, state'.hpack, state'.pendingHeaders, state.prefaceComplete⟩ :=
    congrArg Prod.snd (Except.ok.inj hset)
  rw [hstate]
  exact ⟨rfl, rfl⟩

end Frames

/-! ## Directions -/

/-- What a client sends first. -/
def CLIENT_PREFACE : Bytes :=
  "PRI * HTTP/2.0\r\n\r\nSM\r\n\r\n".toList.map fun c => c.toNat.toUInt8

namespace DirectionState
variable {η : Type} (hpack : Hpack η) (clientSide : Bool) (state : DirectionState η)

def default : DirectionState η := ⟨[], hpack.new, none, false⟩

def append (bytes : Bytes) : DirectionState η := { state with buffer := state.buffer ++ bytes }

@[simp] theorem prefaceComplete_append (bytes : Bytes) :
    (state.append bytes).prefaceComplete = state.prefaceComplete := rfl

/-- The body of the loop in `parse_complete_frames`. -/
def nextFrame : Except H2DecodeError (Option (List H2Event × DirectionState η)) :=
  match takeFrame state.buffer with
  | none => .ok none
  | some (frame, rest) => (parseFrame hpack { state with buffer := rest } frame).map some

def frames : Streaming.Decoder (DirectionState η) UInt8 H2Event H2DecodeError where
  append := append
  pending state := state.buffer.length
  next := nextFrame hpack

def parseCompleteFrames : Except H2DecodeError (List H2Event × DirectionState η) :=
  (frames hpack).drain (state.buffer.length + 1) state

def consumeClientPreface : Except H2DecodeError (DirectionState η) :=
  if state.prefaceComplete then .ok state
  else
    let compareLen := min state.buffer.length CLIENT_PREFACE.length
    if state.buffer.take compareLen ≠ CLIENT_PREFACE.take compareLen then .error .invalidPreface
    else if state.buffer.length < CLIENT_PREFACE.length then .ok state
    else .ok { state with
      buffer := state.buffer.drop CLIENT_PREFACE.length, prefaceComplete := true }

def push (bytes : Bytes) : Except H2DecodeError (List H2Event × DirectionState η) :=
  match if clientSide then (state.append bytes).consumeClientPreface
    else .ok (state.append bytes) with
  | .error e => .error e
  | .ok state => state.parseCompleteFrames hpack

end DirectionState

namespace H2Decoder
variable {η : Type} (hpack : Hpack η) (decoder : H2Decoder η)

def new : H2Decoder η := ⟨.default hpack, .default hpack⟩

def pushClient (bytes : Bytes) : Except H2DecodeError (List H2Event × H2Decoder η) :=
  (decoder.client.push hpack true bytes).map fun r => (r.1, { decoder with client := r.2 })

def pushServer (bytes : Bytes) : Except H2DecodeError (List H2Event × H2Decoder η) :=
  (decoder.server.push hpack false bytes).map fun r => (r.1, { decoder with server := r.2 })

end H2Decoder

/-! ## Pieces of a direction -/

namespace DirectionState
variable {η : Type} (hpack : Hpack η) (clientSide : Bool) (state : DirectionState η)

/-- The client preface is a unit of its own. -/
def nextUnit : Except H2DecodeError (Option (List H2Event × DirectionState η)) :=
  if clientSide && !state.prefaceComplete then
    state.consumeClientPreface.map fun state' =>
      if state'.prefaceComplete then some ([], state') else none
  else state.nextFrame hpack

def units : Streaming.Decoder (DirectionState η) UInt8 H2Event H2DecodeError where
  append := append
  pending state := state.buffer.length
  next := nextUnit hpack clientSide

variable {hpack clientSide state}

theorem frame_of_nextFrame {events : List H2Event} {state' : DirectionState η}
    (h : state.nextFrame hpack = .ok (some (events, state'))) :
    state'.prefaceComplete = state.prefaceComplete ∧
      state'.buffer.length < state.buffer.length := by
  rw [nextFrame] at h
  cases htake : takeFrame state.buffer with
  | none =>
      rw [htake] at h
      cases h
  | some taken =>
      rw [htake] at h
      dsimp only at h
      cases hparse : parseFrame hpack { state with buffer := taken.2 } taken.1 with
      | error e =>
          rw [hparse] at h
          cases h
      | ok parsed =>
          rw [hparse] at h
          cases h
          have hrest := rest_parseFrame hpack _ hparse
          refine ⟨hrest.2, ?_⟩
          rw [hrest.1]
          exact takeFrame_shorter htake

theorem nextFrame_append {taken : Option (List H2Event × DirectionState η)} (later : Bytes)
    (h : state.nextFrame hpack = .ok taken) (hsome : taken ≠ none) :
    (state.append later).nextFrame hpack = .ok (taken.map fun r => (r.1, r.2.append later)) := by
  rw [nextFrame] at h ⊢
  cases htake : takeFrame state.buffer with
  | none =>
      rw [htake] at h
      cases h
      exact absurd rfl hsome
  | some frame =>
      rw [htake] at h
      rw [append, takeFrame_append htake]
      dsimp only at h ⊢
      rw [parseFrame_set hpack state] at h ⊢
      cases hparse : parseFrame hpack state frame.1 with
      | error e =>
          rw [hparse] at h
          cases h
      | ok parsed =>
          rw [hparse] at h
          cases h
          rfl

theorem nextFrame_error {e : H2DecodeError} (later : Bytes)
    (h : state.nextFrame hpack = .error e) : (state.append later).nextFrame hpack = .error e := by
  rw [nextFrame] at h ⊢
  cases htake : takeFrame state.buffer with
  | none =>
      rw [htake] at h
      cases h
  | some frame =>
      rw [htake] at h
      rw [append, takeFrame_append htake]
      dsimp only at h ⊢
      rw [parseFrame_set hpack state] at h ⊢
      cases hparse : parseFrame hpack state frame.1 with
      | error e =>
          rw [hparse] at h
          cases h
          rfl
      | ok parsed =>
          rw [hparse] at h
          cases h

theorem take_min_of_append {l m p : Bytes}
    (h : (l ++ m).take (min (l ++ m).length p.length) = p.take (min (l ++ m).length p.length)) :
    l.take (min l.length p.length) = p.take (min l.length p.length) := by
  have hle : min l.length p.length ≤ min (l ++ m).length p.length := by
    rw [List.length_append]
    omega
  have hshort := congrArg (List.take (min l.length p.length)) h
  rw [List.take_take, List.take_take, min_eq_left hle] at hshort
  rwa [List.take_append_of_le_length (min_le_left _ _)] at hshort

theorem consumeClientPreface_error {e : H2DecodeError} (later : Bytes)
    (h : state.consumeClientPreface = .error e) :
    (state.append later).consumeClientPreface = .error e := by
  rw [consumeClientPreface] at h ⊢
  rw [append]
  split at h
  · cases h
  · rename_i hstate
    rw [if_neg hstate]
    dsimp only at h ⊢
    split at h
    · rename_i hdiffers
      rw [if_pos fun hsame => hdiffers (take_min_of_append hsame)]
      exact h
    · split at h <;> cases h

theorem consumeClientPreface_append {state' : DirectionState η} (later : Bytes)
    (h : state.consumeClientPreface = .ok state') (hcomplete : state'.prefaceComplete = true) :
    (state.append later).consumeClientPreface = .ok (state'.append later) := by
  rw [consumeClientPreface] at h ⊢
  split at h
  · rename_i hstate
    cases h
    rw [append, if_pos hstate]
  · rename_i hstate
    dsimp only at h
    split at h
    · cases h
    · rename_i hsame
      split at h
      · cases h
        exact absurd hcomplete hstate
      · rename_i hlength
        cases h
        have hmin : min state.buffer.length CLIENT_PREFACE.length = CLIENT_PREFACE.length :=
          min_eq_right (not_lt.mp hlength)
        have hmin' : min (state.buffer ++ later).length CLIENT_PREFACE.length =
            CLIENT_PREFACE.length := by
          rw [List.length_append]
          omega
        rw [hmin] at hsame
        rw [append, if_neg hstate]
        dsimp only
        rw [hmin', List.take_append_of_le_length (not_lt.mp hlength), if_neg hsame,
          if_neg (by rw [List.length_append]; omega),
          List.drop_append_of_le_length (not_lt.mp hlength)]
        rfl

/-- A preface that is not there in full leaves the state as it is. -/
theorem eq_of_consumeClientPreface {state' : DirectionState η}
    (h : state.consumeClientPreface = .ok state') (hpart : state'.prefaceComplete = false) :
    state' = state ∧ state.buffer <+: CLIENT_PREFACE ∧
      state.buffer.length < CLIENT_PREFACE.length := by
  rw [consumeClientPreface] at h
  split at h
  · rename_i hstate
    cases h
    cases hstate.symm.trans hpart
  · dsimp only at h
    split at h
    · cases h
    · rename_i hsame
      split at h
      · rename_i hlength
        cases h
        refine ⟨rfl, ?_, hlength⟩
        rw [min_eq_left hlength.le, not_not, List.take_length] at hsame
        rw [hsame]
        exact List.take_prefix _ _
      · cases h
        cases hpart

theorem pending_of_consumeClientPreface {state' : DirectionState η}
    (h : state.consumeClientPreface = .ok state') (hstate : state.prefaceComplete = false)
    (hcomplete : state'.prefaceComplete = true) :
    state'.buffer.length < state.buffer.length := by
  rw [consumeClientPreface, if_neg (by simp [hstate])] at h
  dsimp only at h
  split at h
  · cases h
  · split at h
    · cases h
      cases hstate.symm.trans hcomplete
    · rename_i hlength
      cases h
      have hpos : 0 < CLIENT_PREFACE.length := by decide
      rw [List.length_drop]
      omega

/-- A part of the preface is no frame. -/
theorem takeFrame_of_preface {buffer : Bytes} (h : buffer <+: CLIENT_PREFACE) :
    takeFrame buffer = none := by
  rw [takeFrame]
  split
  · rfl
  · rename_i hnine
    have hstart : buffer.take 3 = [80, 82, 73] := by
      obtain ⟨rest, hrest⟩ := h
      have htake := congrArg (List.take 3) hrest
      rw [List.take_append_of_le_length (by omega)] at htake
      rw [htake]
      decide
    have hlength := h.length_le
    have hpreface : CLIENT_PREFACE.length = 24 := by decide
    dsimp only
    rw [hstart, if_pos]
    have hfield : fromBeBytes [80, 82, 73] = 5263945 := by decide
    omega

theorem nextUnit_of_preface (h : (clientSide && !state.prefaceComplete) = true) :
    state.nextUnit hpack clientSide = state.consumeClientPreface.map fun state' =>
      if state'.prefaceComplete then some ([], state') else none := if_pos h

theorem nextUnit_of_complete (h : ¬ (clientSide && !state.prefaceComplete) = true) :
    state.nextUnit hpack clientSide = state.nextFrame hpack := if_neg h

/-- The preface comes off when it is there in full. -/
theorem preface_of_nextUnit {events : List H2Event} {state' : DirectionState η}
    (h : (state.consumeClientPreface.map fun state' =>
      if state'.prefaceComplete then some (([] : List H2Event), state') else none) =
        .ok (some (events, state'))) :
    events = [] ∧ state.consumeClientPreface = .ok state' ∧ state'.prefaceComplete = true := by
  cases hconsume : state.consumeClientPreface with
  | error e =>
      rw [hconsume] at h
      cases h
  | ok state'' =>
      rw [hconsume] at h
      simp only [Except.map, Except.ok.injEq] at h
      split at h
      · rename_i hcomplete
        cases h
        exact ⟨rfl, rfl, hcomplete⟩
      · cases h

/-- What `nextUnit` does is done in any buffer that goes on. -/
theorem steady : (units hpack clientSide).Steady where
  append_nil s := by simp [units, append]
  append_append s l m := by simp [units, append]
  shorter := by
    intro s out s' h
    by_cases hpreface : (clientSide && !s.prefaceComplete) = true
    · have hstep := preface_of_nextUnit ((nextUnit_of_preface hpreface).symm.trans h)
      simp only [Bool.and_eq_true, Bool.not_eq_true'] at hpreface
      exact pending_of_consumeClientPreface hstep.2.1 hpreface.2 hstep.2.2
    · exact (frame_of_nextFrame ((nextUnit_of_complete hpreface).symm.trans h)).2
  extend := by
    intro s out s' later h
    by_cases hpreface : (clientSide && !s.prefaceComplete) = true
    · have hstep := preface_of_nextUnit ((nextUnit_of_preface hpreface).symm.trans h)
      refine (@nextUnit_of_preface η hpack clientSide (s.append later) hpreface).trans ?_
      rw [consumeClientPreface_append later hstep.2.1 hstep.2.2, hstep.1]
      simp only [Except.map, prefaceComplete_append, hstep.2.2, if_true]
      rfl
    · have hstep := (nextUnit_of_complete hpreface).symm.trans h
      refine (@nextUnit_of_complete η hpack clientSide (s.append later) hpreface).trans ?_
      exact nextFrame_append later hstep (by simp)
  fails := by
    intro s e later h
    by_cases hpreface : (clientSide && !s.prefaceComplete) = true
    · have hstep := (nextUnit_of_preface hpreface).symm.trans h
      refine (@nextUnit_of_preface η hpack clientSide (s.append later) hpreface).trans ?_
      cases hconsume : s.consumeClientPreface with
      | error e' =>
          rw [hconsume] at hstep
          rw [consumeClientPreface_error later hconsume]
          exact hstep
      | ok state' =>
          rw [hconsume] at hstep
          cases hstep
    · have hstep := (nextUnit_of_complete hpreface).symm.trans h
      exact (@nextUnit_of_complete η hpack clientSide (s.append later) hpreface).trans
        (nextFrame_error later hstep)

/-- After the preface the units are frames. -/
theorem drain_units (h : ¬ (clientSide && !state.prefaceComplete) = true) (fuel : ℕ) :
    (units hpack clientSide).drain fuel state = (frames hpack).drain fuel state := by
  induction fuel generalizing state with
  | zero => rfl
  | succ fuel ih =>
      have hnext : (units hpack clientSide).next state = state.nextFrame hpack :=
        nextUnit_of_complete h
      have hnext' : (frames hpack).next state = state.nextFrame hpack := rfl
      rw [Streaming.Decoder.drain, Streaming.Decoder.drain, hnext, hnext']
      cases hframe : state.nextFrame hpack with
      | error e => rfl
      | ok taken =>
          cases taken with
          | none => rfl
          | some taken =>
              have hcomplete := (frame_of_nextFrame hframe).1
              have hrest : (units hpack clientSide).drain fuel taken.2 =
                  (frames hpack).drain fuel taken.2 := ih (by rw [hcomplete]; exact h)
              dsimp only
              rw [hrest]

theorem steady_frames : (frames hpack).Steady where
  append_nil s := by simp [frames, append]
  append_append s l m := by simp [frames, append]
  shorter _ _ _ h := (frame_of_nextFrame h).2
  extend _ _ _ later h := nextFrame_append later h (by simp)
  fails _ _ later h := nextFrame_error later h

/-- `push` takes units. -/
theorem push_eq (bytes : Bytes) :
    state.push hpack clientSide bytes = (units hpack clientSide).push state bytes := by
  have hdrain : (units hpack clientSide).push state bytes = (units hpack clientSide).drain
      ((state.append bytes).buffer.length + 1) (state.append bytes) := rfl
  rw [push, hdrain]
  by_cases hpreface : (clientSide && !(state.append bytes).prefaceComplete) = true
  · have hunit : (units hpack clientSide).next (state.append bytes) = _ :=
      nextUnit_of_preface hpreface
    simp only [Bool.and_eq_true, Bool.not_eq_true'] at hpreface
    rw [if_pos hpreface.1, Streaming.Decoder.drain, hunit]
    cases hconsume : (state.append bytes).consumeClientPreface with
    | error e => rfl
    | ok state' =>
        simp only [Except.map]
        cases hcomplete : state'.prefaceComplete with
        | false =>
            obtain ⟨rfl, hpart, -⟩ := eq_of_consumeClientPreface hconsume hcomplete
            have hnone : (frames hpack).next (state.append bytes) = .ok none := by
              simp only [frames, nextFrame, takeFrame_of_preface hpart]
            rw [parseCompleteFrames, Streaming.Decoder.drain, hnone, if_neg Bool.false_ne_true]
        | true =>
            have hlt := pending_of_consumeClientPreface hconsume hpreface.2 hcomplete
            have hdone : ¬ (clientSide && !state'.prefaceComplete) = true := by simp [hcomplete]
            have hfuel : (frames hpack).drain (state'.buffer.length + 1) state' =
                (frames hpack).drain (state.append bytes).buffer.length state' :=
              Streaming.Decoder.drain_eq steady_frames (Nat.lt_succ_self _) hlt
            rw [if_pos rfl]
            dsimp only
            rw [drain_units hdone, parseCompleteFrames, hfuel]
            cases (frames hpack).drain (state.append bytes).buffer.length state' <;> rfl
  · rw [drain_units hpreface]
    have hconsume : (if clientSide then (state.append bytes).consumeClientPreface
        else .ok (state.append bytes)) = .ok (state.append bytes) := by
      cases clientSide with
      | false => rfl
      | true =>
          rw [if_pos rfl, consumeClientPreface, if_pos (by simpa using hpreface)]
    rw [hconsume]
    rfl

theorem drained_default : (units hpack clientSide).Drained (default hpack) := by
  cases clientSide <;> rfl

end DirectionState

end Codexwatch.Capture
