import Codexwatch.Capture.WsFrames
import Codexwatch.Lib.Checked

/-!
# Lengths of WebSocket frames

A frame announces in up to eight bytes how long its payload is, and `websocket.rs` adds this
length to a cursor. Where the sum does not fit in a word the call panics; everywhere else it
takes whole frames of the lengths that were announced.

## Main definitions

* `announced` — the length of the frame that some bytes begin with.
* `WebSocketDecoder.pushChecked`, `decodeWebsocketFramesChecked` — the functions of the source,
  whose sums and ranges have to be in range.

## Main results

* `WebSocketDecoder.pushSafe_iff`, `framesSafe_iff`.
-/
namespace Codexwatch.Capture

open Protocol Checked

/-- How long the frame is that the bytes begin with, once its header is there. -/
def announced (bytes : Bytes) : Option ℕ :=
  (frameHeader bytes).map fun header => header.cursor + header.len

/-- Frames, each as long as it announces. -/
def AreFrames (frames : List Bytes) : Prop :=
  ∀ frame ∈ frames, announced frame = some frame.length

/-- The buffer was cut into frames, and what is left is no whole frame. -/
def CutInto (buffer rest : Bytes) : Prop :=
  ∃ frames, AreFrames frames ∧ buffer = frames.flatten ++ rest ∧
    ∀ n ∈ announced rest, rest.length < n

/-- `Q` holds of every length that is announced, and of the frames before it. -/
def EachLength (Q : List Bytes → ℕ → Prop) (stream : Bytes) : Prop :=
  ∀ frames rest, stream = frames.flatten ++ rest → AreFrames frames →
    ∀ n ∈ announced rest, Q frames n

section Announced
variable {bytes : Bytes} {n : ℕ} {Q : List Bytes → ℕ → Prop}

theorem announced_append (h : announced bytes = some n) (later : Bytes) :
    announced (bytes ++ later) = some n := by
  obtain ⟨header, hheader, rfl⟩ := Option.map_eq_some_iff.mp h
  rw [announced, frameHeader_append hheader]
  rfl

theorem two_le_announced (h : announced bytes = some n) : 2 ≤ n ∧ bytes ≠ [] := by
  obtain ⟨header, hheader, rfl⟩ := Option.map_eq_some_iff.mp h
  have hcursor := frameHeader_cursor hheader
  refine ⟨by omega, ?_⟩
  rintro rfl
  rw [List.length_nil] at hcursor
  omega

/-- A header is read from its own bytes. -/
theorem frameHeader_take {header : FrameHeader} (h : frameHeader bytes = some header)
    (hn : header.cursor ≤ n) : frameHeader (bytes.take n) = some header := by
  rcases bytes with _ | ⟨b0, _ | ⟨b1, rest⟩⟩
  · cases h
  · cases h
  · simp only [frameHeader] at h
    split at h
    · cases h
    · rename_i hlength
      cases h
      dsimp only at hn
      obtain ⟨k, rfl⟩ := Nat.exists_eq_add_of_le (show 2 ≤ n by omega)
      have htake : (b0 :: b1 :: rest).take (2 + k) = b0 :: b1 :: rest.take k := by
        rw [Nat.add_comm, List.take_succ_cons, List.take_succ_cons]
      have hkey : ((rest.take k).drop (extendedBytes b1)).take (maskBytes b1) =
          (rest.drop (extendedBytes b1)).take (maskBytes b1) := by
        rw [List.drop_take, List.take_take, Nat.min_eq_left (by omega)]
      have hextended : (rest.take k).take (extendedBytes b1) = rest.take (extendedBytes b1) := by
        rw [List.take_take, Nat.min_eq_left (by omega)]
      rw [htake]
      simp only [frameHeader]
      rw [if_neg (by rw [List.length_take]; omega), hkey, hextended]

theorem announced_take (h : announced bytes = some n) : announced (bytes.take n) = some n := by
  obtain ⟨header, hheader, rfl⟩ := Option.map_eq_some_iff.mp h
  rw [announced, frameHeader_take hheader (Nat.le_add_right ..)]
  rfl

/-- The first of some frames is as long as the bytes announce. -/
theorem eq_take_of_areFrames {frame rest : Bytes} {frames : List Bytes}
    (hframes : AreFrames (frame :: frames)) (hbytes : bytes = (frame :: frames).flatten ++ rest)
    (h : announced bytes = some n) :
    frame = bytes.take n ∧ n ≤ bytes.length ∧ bytes.drop n = frames.flatten ++ rest := by
  have hframe := hframes frame List.mem_cons_self
  have hsplit : bytes = frame ++ (frames.flatten ++ rest) := by
    rw [hbytes, List.flatten_cons, List.append_assoc]
  have hsame := announced_append hframe (frames.flatten ++ rest)
  rw [← hsplit, h, Option.some.injEq] at hsame
  rw [hsame, hsplit, List.take_left, List.drop_left, List.length_append]
  exact ⟨rfl, Nat.le_add_right .., rfl⟩

/-- Where no header is there no frame is there. -/
theorem eq_nil_of_areFrames {rest : Bytes} {frames : List Bytes} (hframes : AreFrames frames)
    (hbytes : bytes = frames.flatten ++ rest) (h : announced bytes = none) :
    frames = [] := by
  cases frames with
  | nil => rfl
  | cons frame frames =>
      have hframe := hframes frame List.mem_cons_self
      have hsome := announced_append hframe (frames.flatten ++ rest)
      rw [← List.append_assoc, ← List.flatten_cons, ← hbytes, h] at hsome
      cases hsome

theorem areFrames_cons {frames : List Bytes} (h : announced bytes = some n) (hle : n ≤ bytes.length)
    (hframes : AreFrames frames) : AreFrames (bytes.take n :: frames) := by
  intro frame hframe
  rcases List.mem_cons.mp hframe with rfl | hframe
  · rw [announced_take h, List.length_take_of_le hle]
  · exact hframes frame hframe

theorem areFrames_nil : AreFrames [] := by simp [AreFrames]

theorem eachLength_of_none (h : announced bytes = none) : EachLength Q bytes := by
  intro frames rest hbytes hframes n hn
  have hnil := eq_nil_of_areFrames hframes hbytes h
  rw [hnil, List.flatten_nil, List.nil_append] at hbytes
  rw [hbytes, Option.mem_def.mp hn] at h
  cases h

theorem EachLength.head (hQ : EachLength Q bytes) (h : announced bytes = some n) : Q [] n :=
  hQ [] bytes rfl areFrames_nil n h

/-- A frame that is not there in full is the last one. -/
theorem eachLength_of_short (h : announced bytes = some n) (hshort : bytes.length < n)
    (hQ : Q [] n) : EachLength Q bytes := by
  intro frames rest hbytes hframes m hm
  cases frames with
  | nil =>
      rw [List.flatten_nil, List.nil_append] at hbytes
      rw [← hbytes, Option.mem_def, h, Option.some.injEq] at hm
      exact hm ▸ hQ
  | cons frame frames =>
      have hle := (eq_take_of_areFrames hframes hbytes h).2.1
      omega

theorem eachLength_cons_iff (h : announced bytes = some n) (hle : n ≤ bytes.length) :
    EachLength Q bytes ↔
      Q [] n ∧ EachLength (fun frames m => Q (bytes.take n :: frames) m) (bytes.drop n) := by
  constructor
  · intro hQ
    refine ⟨hQ.head h, ?_⟩
    intro frames rest hdrop hframes m hm
    refine hQ (bytes.take n :: frames) rest ?_ (areFrames_cons h hle hframes) m hm
    rw [List.flatten_cons, List.append_assoc, ← hdrop, List.take_append_drop]
  · rintro ⟨hfirst, hlater⟩ frames rest hbytes hframes m hm
    cases frames with
    | nil =>
        rw [List.flatten_nil, List.nil_append] at hbytes
        rw [← hbytes, Option.mem_def, h, Option.some.injEq] at hm
        exact hm ▸ hfirst
    | cons frame frames =>
        obtain ⟨rfl, -, hdrop⟩ := eq_take_of_areFrames hframes hbytes h
        exact hlater frames rest hdrop (fun f hf => hframes f (List.mem_cons_of_mem _ hf)) m hm

theorem cutInto_self (h : ∀ n ∈ announced bytes, bytes.length < n) : CutInto bytes bytes :=
  ⟨[], areFrames_nil, rfl, h⟩

theorem cutInto_cons {rest : Bytes} (h : announced bytes = some n) (hle : n ≤ bytes.length)
    (hcut : CutInto (bytes.drop n) rest) : CutInto bytes rest := by
  obtain ⟨frames, hframes, hdrop, hrest⟩ := hcut
  refine ⟨bytes.take n :: frames, areFrames_cons h hle hframes, ?_, hrest⟩
  rw [List.flatten_cons, List.append_assoc, ← hdrop, List.take_append_drop]

end Announced

/-! ## One frame -/

/-- `try_decode_next`: every sum and every range has to be in range. -/
def tryDecodeNextChecked (buffer : Bytes) :
    Option (Except WebSocketError (Option (WebSocketFrame × Bytes))) :=
  if buffer.length < 2 then some (.ok none)
  else do
    let b0 ← buffer[0]?
    let b1 ← buffer[1]?
    let stop ← add 2 (extendedBytes b1)
    if buffer.length < stop then pure (.ok none)
    else do
      let extended ← slice buffer 2 stop
      let len := if extended = [] then (b1 &&& 0x7f).toNat else fromBeBytes extended
      let cursor := stop
      let stop ← add cursor (maskBytes b1)
      if buffer.length < stop then pure (.ok none)
      else do
        let mask ← slice buffer cursor stop
        let cursor := stop
        let stop ← add cursor len
        if buffer.length < stop then pure (.ok none)
        else do
          let payload ← slice buffer cursor stop
          let (_, rest) ← drain buffer stop
          pure (.ok (some (⟨b0 &&& 0x0f, unmask mask payload, b0 &&& 0x80 != 0⟩, rest)))

theorem extendedBytes_le (b : UInt8) : extendedBytes b ≤ 8 := by
  rw [extendedBytes]
  split_ifs <;> omega

theorem maskBytes_le (b : UInt8) : maskBytes b ≤ 4 := by
  rw [maskBytes]
  split <;> omega

theorem take_eq_nil_iff_of_le {xs : Bytes} {n : ℕ} (h : n ≤ xs.length) :
    xs.take n = [] ↔ n = 0 := by
  rw [← List.length_eq_zero_iff, List.length_take_of_le h]

theorem tryDecodeNextChecked_eq {buffer : Bytes} (h : InMemory buffer) :
    tryDecodeNextChecked buffer =
      match announced buffer with
      | none => some (.ok none)
      | some n => if 2 ^ 64 ≤ n then none else some (tryDecodeNext buffer) := by
  rcases buffer with _ | ⟨b0, _ | ⟨b1, rest⟩⟩
  · rfl
  · rfl
  · have hextended := extendedBytes_le b1
    have hmask := maskBytes_le b1
    have hlength : (b0 :: b1 :: rest).length = rest.length + 2 := rfl
    rw [InMemory, hlength] at h
    rw [tryDecodeNextChecked, announced, tryDecodeNext, hlength, if_neg (by omega)]
    simp only [frameHeader, List.getElem?_cons_zero, List.getElem?_cons_succ, Option.bind_eq_bind,
      Option.bind_some, add_eq_some (show 2 + extendedBytes b1 < 2 ^ 64 by omega)]
    by_cases hshort : rest.length < extendedBytes b1
    · rw [if_pos (by omega), if_pos (by omega)]
      rfl
    · have hrange : slice (b0 :: b1 :: rest) 2 (2 + extendedBytes b1) =
          some (rest.take (extendedBytes b1)) := by
        rw [slice_eq_some (by omega) (by rw [hlength]; omega), List.drop_take,
          Nat.add_sub_cancel_left]
        rfl
      rw [if_neg (by omega), hrange, Option.bind_some,
        add_eq_some (show 2 + extendedBytes b1 + maskBytes b1 < 2 ^ 64 by omega), Option.bind_some]
      by_cases hcut : rest.length < extendedBytes b1 + maskBytes b1
      · rw [if_pos (by omega), if_pos hcut]
        rfl
      · have hkey : slice (b0 :: b1 :: rest) (2 + extendedBytes b1)
            (2 + extendedBytes b1 + maskBytes b1) =
              some ((rest.drop (extendedBytes b1)).take (maskBytes b1)) := by
          rw [slice_eq_some (by omega) (by rw [hlength]; omega), List.drop_take,
            Nat.add_sub_cancel_left, Nat.add_comm 2]
          rfl
        have hempty := take_eq_nil_iff_of_le (not_lt.mp hshort)
        rw [if_neg (by omega), hkey, Option.bind_some, if_neg hcut]
        simp only [hempty, Option.map_some]
        -- the length that is announced, however it is written
        generalize (if extendedBytes b1 = 0 then (b1 &&& 0x7f).toNat
          else fromBeBytes (rest.take (extendedBytes b1))) = len
        by_cases hover : 2 ^ 64 ≤ 2 + extendedBytes b1 + maskBytes b1 + len
        · rw [add_eq_none hover, if_pos hover]
          rfl
        · rw [add_eq_some (by omega), Option.bind_some, if_neg hover, if_neg hover]
          by_cases hpart : rest.length + 2 < 2 + extendedBytes b1 + maskBytes b1 + len
          · rw [if_pos hpart, if_pos hpart]
            rfl
          · rw [if_neg hpart, if_neg hpart, slice_eq_some (by omega) (by rw [hlength]; omega),
              drain_eq_some (by rw [hlength]; omega), List.drop_take, Nat.add_sub_cancel_left,
              List.splitAt_eq]
            rfl

/-- What is taken is the frame that was announced. -/
theorem tryDecodeNext_announced {buffer : Bytes} {n : ℕ} (h : announced buffer = some n)
    (hfits : n < 2 ^ 64) :
    (buffer.length < n ∧ tryDecodeNext buffer = .ok none) ∨
      (n ≤ buffer.length ∧ ∃ header payload, frameHeader buffer = some header ∧
        tryDecodeNext buffer = .ok (some (⟨header.opcode, payload, header.fin⟩,
          buffer.drop n))) := by
  obtain ⟨header, hheader, rfl⟩ := Option.map_eq_some_iff.mp h
  rw [tryDecodeNext, hheader]
  dsimp only
  rw [if_neg (by omega)]
  by_cases hshort : buffer.length < header.cursor + header.len
  · exact .inl ⟨hshort, if_pos hshort⟩
  · exact .inr ⟨not_lt.mp hshort, header, _, rfl, if_neg hshort⟩

/-! ## The loop of `push` -/

namespace WebSocketDecoder

/-- `next`, whose sums and ranges have to be in range. -/
def nextChecked (d : WebSocketDecoder) :
    Option (Except WebSocketError (Option (List WebSocketFrame × WebSocketDecoder))) :=
  (tryDecodeNextChecked d.buffer).map fun taken =>
    match taken with
    | .error e => .error e
    | .ok none => .ok none
    | .ok (some (frame, rest)) => ({ d with buffer := rest }.accept frame).map some

/-- Without `fuel` the loop does not end. -/
def drainChecked :
    ℕ → WebSocketDecoder → Option (Except WebSocketError (List WebSocketFrame × WebSocketDecoder))
  | 0, _ => none
  | fuel + 1, d =>
      match nextChecked d with
      | none => none
      | some (.error e) => some (.error e)
      | some (.ok none) => some (.ok ([], d))
      | some (.ok (some (out, d'))) =>
          (drainChecked fuel d').map fun rest => rest.map fun r => (out ++ r.1, r.2)

def pushChecked (d : WebSocketDecoder) (bytes : Bytes) :
    Option (Except WebSocketError (List WebSocketFrame × WebSocketDecoder)) :=
  drainChecked ((d.buffer ++ bytes).length + 1) { d with buffer := d.buffer ++ bytes }

/-- No frame continues a message that was not begun. -/
def continues : Bool → List Bytes → Bool
  | _, [] => true
  | begun, frame :: frames =>
      match frameHeader frame with
      | none => false
      | some header =>
          if header.opcode = 0 then begun && continues (!header.fin) frames
          else continues (begun || !header.fin) frames

/-- Whatever frames come first, the next one announces a length that fits in a word. -/
def LengthsFit (d : WebSocketDecoder) (stream : Bytes) : Prop :=
  EachLength (fun frames n => continues d.continuationOpcode.isSome frames = true → n < 2 ^ 64)
    stream

/-- The call returns, and what it leaves in the buffer is what follows the frames. -/
def PushSafe (d : WebSocketDecoder) (bytes : Bytes) : Prop :=
  ∃ result, d.pushChecked bytes = some result ∧
    ∀ out d', result = .ok (out, d') → CutInto (d.buffer ++ bytes) d'.buffer

theorem accept_cases (d : WebSocketDecoder) (frame : WebSocketFrame) :
    (frame.opcode = 0 ∧ d.continuationOpcode = none ∧ ∃ e, d.accept frame = .error e) ∨
      ∃ out d', d.accept frame = .ok (out, d') ∧
        (frame.opcode = 0 → d.continuationOpcode.isSome = true) ∧
        d'.continuationOpcode.isSome =
          if frame.opcode = 0 then !frame.fin else d.continuationOpcode.isSome || !frame.fin := by
  rw [accept]
  by_cases hopcode : frame.opcode = 0
  · rw [if_pos hopcode, if_pos hopcode]
    cases hbegun : d.continuationOpcode with
    | none => exact .inl ⟨hopcode, rfl, _, rfl⟩
    | some opcode => cases hfin : frame.fin <;> exact .inr ⟨_, _, rfl, fun _ => rfl, rfl⟩
  · rw [if_neg hopcode, if_neg hopcode]
    cases hfin : frame.fin
    · exact .inr ⟨_, _, rfl, fun h => absurd h hopcode, (Bool.or_true _).symm⟩
    · exact .inr ⟨_, _, rfl, fun h => absurd h hopcode, (Bool.or_false _).symm⟩

section Fits
variable {d : WebSocketDecoder} {buffer : Bytes} {n : ℕ}

/-- The first frame is taken off. -/
theorem continues_cons {header : FrameHeader} (hheader : frameHeader buffer = some header)
    (hn : announced buffer = some n) (begun : Bool) (frames : List Bytes) :
    continues begun (buffer.take n :: frames) =
      if header.opcode = 0 then begun && continues (!header.fin) frames
      else continues (begun || !header.fin) frames := by
  have hcursor : header.cursor ≤ n := by
    rw [announced, hheader, Option.map_some, Option.some.injEq] at hn
    omega
  rw [continues, frameHeader_take hheader hcursor]

theorem lengthsFit_cons {d' : WebSocketDecoder} {header : FrameHeader}
    (hheader : frameHeader buffer = some header) (hn : announced buffer = some n)
    (hle : n ≤ buffer.length) (hfits : n < 2 ^ 64)
    (hbegun : header.opcode = 0 → d.continuationOpcode.isSome = true)
    (hd' : d'.continuationOpcode.isSome =
      if header.opcode = 0 then !header.fin else d.continuationOpcode.isSome || !header.fin) :
    LengthsFit d' (buffer.drop n) ↔ LengthsFit d buffer := by
  have hcontinues : ∀ frames, continues d.continuationOpcode.isSome (buffer.take n :: frames) =
      continues d'.continuationOpcode.isSome frames := by
    intro frames
    rw [continues_cons hheader hn, hd']
    by_cases hopcode : header.opcode = 0
    · rw [if_pos hopcode, if_pos hopcode, hbegun hopcode, Bool.true_and]
    · rw [if_neg hopcode, if_neg hopcode]
  rw [LengthsFit, LengthsFit, eachLength_cons_iff hn hle]
  simp only [hcontinues]
  exact (and_iff_right fun _ => hfits).symm

/-- A frame that is refused is the last one that is read. -/
theorem lengthsFit_of_refused {header : FrameHeader} (hheader : frameHeader buffer = some header)
    (hn : announced buffer = some n) (hle : n ≤ buffer.length) (hfits : n < 2 ^ 64)
    (hopcode : header.opcode = 0) (hd : d.continuationOpcode = none) : LengthsFit d buffer := by
  refine (eachLength_cons_iff hn hle).mpr ⟨fun _ => hfits, ?_⟩
  intro frames rest _ _ m _ hcont
  rw [continues_cons hheader hn, if_pos hopcode, hd] at hcont
  cases hcont

/-- The loop returns where all lengths fit, and nowhere else. -/
theorem drainChecked_cases {fuel : ℕ} (hmem : InMemory d.buffer) (hfuel : d.buffer.length < fuel) :
    (LengthsFit d d.buffer ∧ ∃ result, d.drainChecked fuel = some result ∧
      ∀ out d', result = .ok (out, d') → CutInto d.buffer d'.buffer) ∨
    (¬ LengthsFit d d.buffer ∧ d.drainChecked fuel = none) := by
  induction fuel generalizing d with
  | zero => omega
  | succ fuel ih =>
      rw [drainChecked, nextChecked, tryDecodeNextChecked_eq hmem]
      cases hn : announced d.buffer with
      | none =>
          refine .inl ⟨eachLength_of_none hn, _, rfl, ?_⟩
          intro out d' hresult
          cases hresult
          exact cutInto_self (by simp [hn])
      | some n =>
          dsimp only
          by_cases hover : 2 ^ 64 ≤ n
          · refine .inr ⟨fun hfit => ?_, by rw [if_pos hover]; rfl⟩
            exact absurd (hfit.head hn rfl) (not_lt.mpr hover)
          · have hfits := not_le.mp hover
            rw [if_neg hover]
            rcases tryDecodeNext_announced hn hfits with ⟨hshort, htake⟩ |
              ⟨hle, header, payload, hheader, htake⟩
            · rw [htake]
              refine .inl ⟨eachLength_of_short hn hshort fun _ => hfits, _, rfl, ?_⟩
              intro out d' hresult
              cases hresult
              refine cutInto_self fun m hm => ?_
              rw [hn, Option.mem_some] at hm
              exact hm ▸ hshort
            · rw [htake]
              dsimp only [Option.map_some]
              rcases accept_cases { d with buffer := d.buffer.drop n }
                ⟨header.opcode, payload, header.fin⟩ with
                ⟨hopcode, hd, e, haccept⟩ | ⟨out, d', haccept, hbegun, hd'⟩
              · rw [haccept]
                refine .inl ⟨lengthsFit_of_refused hheader hn hle hfits hopcode hd, _, rfl, ?_⟩
                intro out d' hresult
                cases hresult
              · have hbuffer : d'.buffer = d.buffer.drop n := buffer_accept haccept
                have hlength : d'.buffer.length = d.buffer.length - n := by
                  rw [hbuffer, List.length_drop]
                have htwo := (two_le_announced hn).1
                have hmem' : InMemory d'.buffer := by
                  rw [InMemory] at hmem ⊢
                  omega
                have hiff := lengthsFit_cons (d := d) hheader hn hle hfits hbegun hd'
                rw [haccept]
                dsimp only [Except.map]
                rcases ih hmem' (by omega) with ⟨hfit, result, hdrain, hcut⟩ | ⟨hnot, hdrain⟩
                · rw [hbuffer] at hfit hcut
                  refine .inl ⟨hiff.mp hfit, _, by rw [hdrain]; rfl, ?_⟩
                  intro more d'' hresult
                  cases result with
                  | error e => cases hresult
                  | ok r =>
                      cases hresult
                      exact cutInto_cons hn hle (hcut r.1 r.2 rfl)
                · rw [hbuffer] at hnot
                  exact .inr ⟨fun hfit => hnot (hiff.mpr hfit), by rw [hdrain]; rfl⟩

theorem pushSafe_iff {bytes : Bytes} (h : InMemory (d.buffer ++ bytes)) :
    PushSafe d bytes ↔ LengthsFit d (d.buffer ++ bytes) := by
  have hmem : InMemory ({ d with buffer := d.buffer ++ bytes } : WebSocketDecoder).buffer := h
  rcases drainChecked_cases hmem (Nat.lt_succ_self _) with ⟨hfit, hsafe⟩ | ⟨hnot, hnone⟩
  · exact ⟨fun _ => hfit, fun _ => hsafe⟩
  · refine ⟨?_, fun hfit => absurd hfit hnot⟩
    rintro ⟨result, hresult, -⟩
    cases hnone.symm.trans hresult

end Fits

end WebSocketDecoder

/-! ## The loop of `decode_websocket_frames` -/

/-- `frameAt`: every sum has to fit, and `get` fails where a range is out of range. -/
def frameAtChecked (bytes : Bytes) (cursor : ℕ) :
    Option (Except WebSocketError (WebSocketFrame × ℕ)) := do
  let second ← add cursor 1
  match bytes[cursor]?, bytes[second]? with
  | some b0, some b1 => do
      let cursor ← add cursor 2
      let stop ← add cursor (extendedBytes b1)
      match slice bytes cursor stop with
      | none => pure (.error .truncated)
      | some extended => do
          let len := if extended = [] then (b1 &&& 0x7f).toNat else fromBeBytes extended
          let cursor := stop
          let stop ← add cursor (maskBytes b1)
          match slice bytes cursor stop with
          | none => pure (.error .truncated)
          | some mask => do
              let cursor := stop
              let stop ← add cursor len
              match slice bytes cursor stop with
              | none => pure (.error .truncated)
              | some payload =>
                  pure (.ok (⟨b0 &&& 0x0f, unmask mask payload, b0 &&& 0x80 != 0⟩, stop))
  | _, _ => pure (.error .truncated)

/-- Without `fuel` the loop does not end. -/
def decodeFramesFromChecked (bytes : Bytes) :
    ℕ → ℕ → Option (Except WebSocketError (List WebSocketFrame))
  | 0, _ => none
  | fuel + 1, cursor =>
      if bytes.length ≤ cursor then some (.ok [])
      else
        match frameAtChecked bytes cursor with
        | none => none
        | some (.error e) => some (.error e)
        | some (.ok (frame, cursor)) =>
            (decodeFramesFromChecked bytes fuel cursor).map fun rest =>
              rest.map fun frames => frame :: frames

def decodeWebsocketFramesChecked (bytes : Bytes) :
    Option (Except WebSocketError (List WebSocketFrame)) :=
  decodeFramesFromChecked bytes (bytes.length + 1) 0

/-- Whatever frames come first, the next one ends at a cursor that fits in a word. -/
def FramesFit (start : ℕ) (stream : Bytes) : Prop :=
  EachLength (fun frames n => start + frames.flatten.length + n < 2 ^ 64) stream

/-- The call returns, and it reads whole frames and nothing else. -/
def FramesSafe (bytes : Bytes) : Prop :=
  ∃ result, decodeWebsocketFramesChecked bytes = some result ∧
    ∀ out, result = .ok out →
      ∃ frames, AreFrames frames ∧ bytes = frames.flatten ∧ frames.length = out.length

theorem frameAtChecked_cases {before tail : Bytes} (hmem : InMemory (before ++ tail))
    (hne : tail ≠ []) :
    (announced tail = none ∧
      frameAtChecked (before ++ tail) before.length = some (.error .truncated)) ∨
    ∃ n, announced tail = some n ∧
      ((2 ^ 64 ≤ before.length + n ∧ frameAtChecked (before ++ tail) before.length = none) ∨
      (before.length + n < 2 ^ 64 ∧ tail.length < n ∧
        frameAtChecked (before ++ tail) before.length = some (.error .truncated)) ∨
      (n ≤ tail.length ∧ ∃ frame, frameAtChecked (before ++ tail) before.length =
        some (.ok (frame, before.length + n)))) := by
  rw [InMemory, List.length_append] at hmem
  have hget : ∀ i, (before ++ tail)[before.length + i]? = tail[i]? := by
    intro i
    rw [List.getElem?_append_right (Nat.le_add_right ..), Nat.add_sub_cancel_left]
  have hfirst := hget 0
  rw [Nat.add_zero] at hfirst
  rw [frameAtChecked, add_eq_some (show before.length + 1 < 2 ^ 64 by omega), Option.bind_eq_bind,
    Option.bind_some, hfirst, hget]
  rcases tail with _ | ⟨b0, _ | ⟨b1, rest⟩⟩
  · exact absurd rfl hne
  · exact .inl ⟨rfl, rfl⟩
  · have hextended := extendedBytes_le b1
    have hmask := maskBytes_le b1
    have hlength : (b0 :: b1 :: rest).length = rest.length + 2 := rfl
    have hslice : ∀ lo hi, slice (before ++ b0 :: b1 :: rest) (before.length + 2 + lo)
        (before.length + 2 + hi) = slice rest lo hi := by
      intro lo hi
      have hboth := slice_append (before ++ [b0, b1]) rest lo hi
      rwa [List.append_assoc, List.length_append] at hboth
    rw [hlength] at hmem
    simp only [announced, frameHeader, List.getElem?_cons_zero, List.getElem?_cons_succ,
      add_eq_some (show before.length + 2 < 2 ^ 64 by omega), Option.bind_some,
      add_eq_some (show before.length + 2 + extendedBytes b1 < 2 ^ 64 by omega)]
    rw [hslice 0]
    by_cases hshort : rest.length < extendedBytes b1
    · rw [if_pos (by omega), slice_eq_none hshort]
      exact .inl ⟨rfl, rfl⟩
    · have hstop : before.length + 2 + extendedBytes b1 + maskBytes b1 =
          before.length + 2 + (extendedBytes b1 + maskBytes b1) := Nat.add_assoc ..
      rw [slice_eq_some (Nat.zero_le _) (not_lt.mp hshort), List.drop_zero]
      dsimp only
      rw [add_eq_some (show before.length + 2 + extendedBytes b1 + maskBytes b1 < 2 ^ 64 by omega),
        Option.bind_some, hstop, hslice]
      by_cases hcut : rest.length < extendedBytes b1 + maskBytes b1
      · rw [if_pos hcut, slice_eq_none hcut]
        exact .inl ⟨rfl, rfl⟩
      · have hempty := take_eq_nil_iff_of_le (not_lt.mp hshort)
        rw [if_neg hcut, slice_eq_some (Nat.le_add_right ..) (not_lt.mp hcut)]
        simp only [hempty, Option.map_some]
        -- the length that is announced, however it is written
        generalize (if extendedBytes b1 = 0 then (b1 &&& 0x7f).toNat
          else fromBeBytes (rest.take (extendedBytes b1))) = len
        refine .inr ⟨_, rfl, ?_⟩
        have hsum : before.length + 2 + (extendedBytes b1 + maskBytes b1) + len =
            before.length + (2 + extendedBytes b1 + maskBytes b1 + len) := by omega
        have hend : before.length + 2 + (extendedBytes b1 + maskBytes b1) + len =
            before.length + 2 + (extendedBytes b1 + maskBytes b1 + len) := by omega
        by_cases hover : 2 ^ 64 ≤ before.length + (2 + extendedBytes b1 + maskBytes b1 + len)
        · rw [add_eq_none (by omega)]
          exact .inl ⟨hover, rfl⟩
        · rw [add_eq_some (by omega), Option.bind_some, hend, hslice]
          by_cases hpart : rest.length < extendedBytes b1 + maskBytes b1 + len
          · rw [slice_eq_none hpart]
            exact .inr (.inl ⟨not_le.mp hover, by rw [hlength]; omega, rfl⟩)
          · rw [slice_eq_some (Nat.le_add_right ..) (not_lt.mp hpart), ← hend, hsum]
            exact .inr (.inr ⟨by rw [hlength]; omega, _, rfl⟩)

section FramesFit
variable {n : ℕ} {stream : Bytes}

theorem framesFit_cons (start : ℕ) (hn : announced stream = some n) (hle : n ≤ stream.length)
    (hfits : start + n < 2 ^ 64) :
    FramesFit (start + n) (stream.drop n) ↔ FramesFit start stream := by
  have hsum : ∀ (frames : List Bytes) (m : ℕ),
      start + (stream.take n :: frames).flatten.length + m =
        start + n + frames.flatten.length + m := by
    intro frames m
    rw [List.flatten_cons, List.length_append, List.length_take_of_le hle]
    omega
  rw [FramesFit, FramesFit, eachLength_cons_iff hn hle]
  simp only [hsum]
  exact (and_iff_right hfits).symm

/-- The loop returns where all cursors fit, and nowhere else. -/
theorem decodeFramesFromChecked_cases (before tail : Bytes) {fuel : ℕ}
    (hmem : InMemory (before ++ tail)) (hfuel : tail.length < fuel) :
    (FramesFit before.length tail ∧
      ∃ result, decodeFramesFromChecked (before ++ tail) fuel before.length = some result ∧
        ∀ out, result = .ok out →
          ∃ frames, AreFrames frames ∧ tail = frames.flatten ∧ frames.length = out.length) ∨
    (¬ FramesFit before.length tail ∧
      decodeFramesFromChecked (before ++ tail) fuel before.length = none) := by
  induction fuel generalizing before tail with
  | zero => omega
  | succ fuel ih =>
      have hmem' := hmem
      rw [InMemory] at hmem'
      rw [decodeFramesFromChecked]
      by_cases hne : tail = []
      · subst hne
        refine .inl ⟨eachLength_of_none rfl, .ok [], by rw [if_pos (by simp)], ?_⟩
        intro out hout
        cases hout
        exact ⟨[], areFrames_nil, rfl, rfl⟩
      · have hpos := List.length_pos_iff.mpr hne
        rw [List.length_append] at hmem'
        rw [List.length_append, if_neg (by omega)]
        rcases frameAtChecked_cases hmem hne with ⟨hnone, hread⟩ |
          ⟨n, hn, ⟨hover, hread⟩ | ⟨hfits, hshort, hread⟩ | ⟨hle, frame, hread⟩⟩
        · rw [hread]
          exact .inl ⟨eachLength_of_none hnone, _, rfl, fun out hout => by cases hout⟩
        · rw [hread]
          exact .inr ⟨fun hfit => absurd (hfit.head hn) (not_lt.mpr hover), rfl⟩
        · rw [hread]
          exact .inl ⟨eachLength_of_short hn hshort hfits, _, rfl, fun out hout => by cases hout⟩
        · have htwo := (two_le_announced hn).1
          have hsplit : before ++ tail = before ++ tail.take n ++ tail.drop n := by
            rw [List.append_assoc, List.take_append_drop]
          have hcursor : (before ++ tail.take n).length = before.length + n := by
            rw [List.length_append, List.length_take_of_le hle]
          have hiff := framesFit_cons before.length hn hle (by omega)
          have hrest := ih (before ++ tail.take n) (tail.drop n) (hsplit ▸ hmem)
            (by rw [List.length_drop]; omega)
          rw [← hsplit, hcursor] at hrest
          rw [hread]
          dsimp only
          rcases hrest with ⟨hfit, result, hdecode, hout⟩ | ⟨hnot, hdecode⟩
          · refine .inl ⟨hiff.mp hfit, _, by rw [hdecode]; rfl, ?_⟩
            intro out hresult
            cases result with
            | error e => cases hresult
            | ok rest =>
                cases hresult
                obtain ⟨frames, hframes, hdrop, hlength⟩ := hout rest rfl
                refine ⟨tail.take n :: frames, areFrames_cons hn hle hframes, ?_,
                  by simp [hlength]⟩
                rw [List.flatten_cons, ← hdrop, List.take_append_drop]
          · exact .inr ⟨fun hfit => hnot (hiff.mpr hfit), by rw [hdecode]; rfl⟩

theorem framesSafe_iff {bytes : Bytes} (h : InMemory bytes) :
    FramesSafe bytes ↔ FramesFit 0 bytes := by
  rcases decodeFramesFromChecked_cases [] bytes h (Nat.lt_succ_self _) with
    ⟨hfit, hsafe⟩ | ⟨hnot, hnone⟩
  · exact ⟨fun _ => hfit, fun _ => hsafe⟩
  · refine ⟨?_, fun hfit => absurd hfit hnot⟩
    rintro ⟨result, hresult, -⟩
    cases hnone.symm.trans hresult

end FramesFit

end Codexwatch.Capture
