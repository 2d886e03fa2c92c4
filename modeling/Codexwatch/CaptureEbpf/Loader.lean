import Codexwatch.CaptureEbpf.Abi

/-!
# Decoding ring-buffer records in user space

`capture-ebpf/src/loader.rs` reads a record back with a cursor that advances by
the size of each field. The cursor never skips a byte, while the struct it reads
has six bytes of padding before `connection`. From `boot_id` on, every field and
the payload are read six bytes too early.

`decode_imageAt` says what is read for every image; `roundTrips_iff` says for
which images that is nevertheless the record.

## Main definitions

* `Cursor` — a read offset, and the `?` exit.
* `decodeCaptureRecord` — the decoder.
* `RoundTrips r bs` — the decoder gives the record back.
-/
namespace Codexwatch.CaptureEbpf

open ReprC

structure OwnedCaptureRecord where
  header : CaptureRecordHeader
  payload : List UInt8
  deriving DecidableEq

/-- `offset: &mut usize` over the sampled bytes; `none` is the early return. -/
abbrev Cursor := StateT ℕ Option

def readBytes (bytes : List UInt8) (len : ℕ) : Cursor (List UInt8) := do
  let offset ← get
  if 2 ^ 64 ≤ offset + len then failure
  else if bytes.length < offset + len then failure
  else
    set (offset + len)
    pure (slice bytes offset len)

def readU8 (bytes : List UInt8) : Cursor UInt8 := do
  let read ← readBytes bytes 1
  StateT.lift read.head?

def readU16 (bytes : List UInt8) : Cursor UInt16 := do
  let read ← readBytes bytes 2
  pure (UInt16.ofNat (ofLE read))

def readU32 (bytes : List UInt8) : Cursor UInt32 := do
  let read ← readBytes bytes 4
  pure (UInt32.ofNat (ofLE read))

def readU64 (bytes : List UInt8) : Cursor UInt64 := do
  let read ← readBytes bytes 8
  pure (UInt64.ofNat (ofLE read))

def decodeProbeKind (value : UInt8) : Option ProbeKind :=
  match value.toNat with
  | 0 => some .processExec
  | 1 => some .processExit
  | 2 => some .tcpStateChange
  | 3 => some .connectionCreate
  | 4 => some .connectionDrop
  | 5 => some .plaintextWrite
  | 6 => some .plaintextRead
  | 7 => some .turnComplete
  | 8 => some .turnAbort
  | 9 => some .terminalError
  | _ => none

def decodeProbeDirection (value : UInt8) : Option ProbeDirection :=
  match value.toNat with
  | 0 => some .none
  | 1 => some .read
  | 2 => some .write
  | _ => none

/-- `boot_id.copy_from_slice(..)` into `[0u8; 16]`. -/
def bootIdOf (read : List UInt8) : Vector UInt8 16 := Vector.ofFn fun i => read.getD i 0

def decodeCaptureRecord (bytes : List UInt8) : Option OwnedCaptureRecord :=
  if bytes.length < sizeOfHeader then none
  else
    let decode : Cursor OwnedCaptureRecord := do
      let abiVersion ← readU16 bytes
      let headerSize ← readU16 bytes
      let kind ← StateT.lift (decodeProbeKind (← readU8 bytes))
      let direction ← StateT.lift (decodeProbeDirection (← readU8 bytes))
      let cpu ← readU16 bytes
      let pad0 ← readU16 bytes
      let bootId ← readBytes bytes 16
      let tgid ← readU32 bytes
      let pid ← readU32 bytes
      let startTicks ← readU64 bytes
      let connectionPtr ← readU64 bytes
      let epoch ← readU64 bytes
      let callSequence ← readU64 bytes
      let fileOffset ← readU64 bytes
      let dataOffset ← readU64 bytes
      let dataLength ← readU32 bytes
      let auxValue ← readU32 bytes
      let auxValue2 ← readU64 bytes
      let payloadLen := min dataLength.toNat MAX_CAPTURE_BYTES
      let payloadBytes ← readBytes bytes MAX_CAPTURE_BYTES
      pure {
        header := {
          abiVersion, headerLen := headerSize, kind, direction, cpu, pad0
          connection := {
            bootId := bootIdOf bootId
            tgid, pid, startTicks, connectionPtr, epoch, callSequence }
          fileOffset, dataOffset, dataLength, auxValue, auxValue2 }
        payload := payloadBytes.take payloadLen }
    decode.run' 0

/-! ## One read -/

section Reads
variable {bytes : List UInt8} {offset : ℕ} {α : Type}

/-- What follows a read that succeeds continues with its value, after its bytes. -/
theorem run_bind_of_run {β : Type} {x : Cursor β} {f : β → Cursor α} {b : β} {next : ℕ}
    (h : x.run offset = some (b, next)) : (x >>= f).run offset = (f b).run next := by
  rw [StateT.run_bind, h]
  rfl

theorem run_readBytes {len : ℕ} (h : offset + len ≤ bytes.length) (hlen : bytes.length < 2 ^ 64) :
    (readBytes bytes len).run offset = some (slice bytes offset len, offset + len) := by
  have h₁ : ¬ 2 ^ 64 ≤ offset + len := by omega
  have h₂ : ¬ bytes.length < offset + len := by omega
  simp only [readBytes, StateT.run_bind, StateT.run_get, pure_bind]
  rw [if_neg h₁, if_neg h₂]
  rfl

theorem run_readBytes_bind {len : ℕ} (f : List UInt8 → Cursor α)
    (h : offset + len ≤ bytes.length) (hlen : bytes.length < 2 ^ 64) :
    (readBytes bytes len >>= f).run offset =
      (f (slice bytes offset len)).run (offset + len) :=
  run_bind_of_run (run_readBytes h hlen)

theorem run_readU8_bind (f : UInt8 → Cursor α)
    (h : offset + 1 ≤ bytes.length) (hlen : bytes.length < 2 ^ 64) :
    (readU8 bytes >>= f).run offset = (f (bytes.getD offset 0)).run (offset + 1) := by
  have hhead : (slice bytes offset 1).head? = some (bytes.getD offset 0) := by
    simp [slice, List.head?_take, List.head?_drop, List.getD,
      List.getElem?_eq_getElem (show offset < bytes.length by omega)]
  rw [readU8, bind_assoc, run_readBytes_bind _ h hlen, hhead]
  rfl

theorem run_readU16_bind (f : UInt16 → Cursor α)
    (h : offset + 2 ≤ bytes.length) (hlen : bytes.length < 2 ^ 64) :
    (readU16 bytes >>= f).run offset =
      (f (UInt16.ofNat (ofLE (slice bytes offset 2)))).run (offset + 2) := by
  rw [readU16, bind_assoc, run_readBytes_bind _ h hlen, pure_bind]

theorem run_readU32_bind (f : UInt32 → Cursor α)
    (h : offset + 4 ≤ bytes.length) (hlen : bytes.length < 2 ^ 64) :
    (readU32 bytes >>= f).run offset =
      (f (UInt32.ofNat (ofLE (slice bytes offset 4)))).run (offset + 4) := by
  rw [readU32, bind_assoc, run_readBytes_bind _ h hlen, pure_bind]

theorem run_readU64_bind (f : UInt64 → Cursor α)
    (h : offset + 8 ≤ bytes.length) (hlen : bytes.length < 2 ^ 64) :
    (readU64 bytes >>= f).run offset =
      (f (UInt64.ofNat (ofLE (slice bytes offset 8)))).run (offset + 8) := by
  rw [readU64, bind_assoc, run_readBytes_bind _ h hlen, pure_bind]

theorem run_lift_some_bind {β : Type} (b : β) (f : β → Cursor α) :
    ((StateT.lift (some b) : Cursor β) >>= f).run offset = (f b).run offset := rfl

end Reads

theorem toList_bootIdOf {read : List UInt8} (h : read.length = 16) :
    (bootIdOf read).toList = read := by
  apply List.ext_getElem
  · simp [h]
  · intro i h₁ h₂
    simp [bootIdOf, List.getD, List.getElem?_eq_getElem h₂]

theorem bootIdOf_eq_iff {read : List UInt8} (h : read.length = 16) (v : Vector UInt8 16) :
    bootIdOf read = v ↔ read = v.toList := by
  rw [← Vector.toList_inj, toList_bootIdOf h]

/-! ## What is read from an image -/

@[simp] theorem decodeProbeKind_discriminant (kind : ProbeKind) :
    decodeProbeKind (UInt8.ofNat kind.discriminant) = some kind := by cases kind <;> rfl

@[simp] theorem decodeProbeDirection_discriminant (direction : ProbeDirection) :
    decodeProbeDirection (UInt8.ofNat direction.discriminant) = some direction := by
  cases direction <;> rfl

/-- The record the cursor reads: up to `pad0` the fields of `r`, from `boot_id` on
the bytes six places before each field. -/
def misreadRecord (r : CaptureRecord) (bs : List UInt8) : OwnedCaptureRecord where
  header :=
    { r.header with
      connection :=
        { bootId := bootIdOf (slice bs 10 16)
          tgid := UInt32.ofNat (ofLE (slice bs 26 4))
          pid := UInt32.ofNat (ofLE (slice bs 30 4))
          startTicks := UInt64.ofNat (ofLE (slice bs 34 8))
          connectionPtr := UInt64.ofNat (ofLE (slice bs 42 8))
          epoch := UInt64.ofNat (ofLE (slice bs 50 8))
          callSequence := UInt64.ofNat (ofLE (slice bs 58 8)) }
      fileOffset := UInt64.ofNat (ofLE (slice bs 66 8))
      dataOffset := UInt64.ofNat (ofLE (slice bs 74 8))
      dataLength := UInt32.ofNat (ofLE (slice bs 82 4))
      auxValue := UInt32.ofNat (ofLE (slice bs 86 4))
      auxValue2 := UInt64.ofNat (ofLE (slice bs 90 8)) }
  payload :=
    slice bs 98 (min (UInt32.ofNat (ofLE (slice bs 82 4))).toNat MAX_CAPTURE_BYTES)

theorem getD_eq_of_slice {bs : List UInt8} {offset n : ℕ} (hlen : offset < bs.length)
    (h : slice bs offset 1 = leBytes 1 n) : bs.getD offset 0 = UInt8.ofNat n := by
  have hhead : (slice bs offset 1).head? = some bs[offset] := by
    simp [slice, List.head?_take, List.head?_drop, List.getElem?_eq_getElem hlen]
  rw [h] at hhead
  simpa [leBytes, List.getD, List.getElem?_eq_getElem hlen, eq_comm] using hhead

theorem ofNat_ofLE_slice16 {bs : List UInt8} {offset : ℕ} {x : UInt16}
    (h : slice bs offset 2 = leBytes 2 x.toNat) : UInt16.ofNat (ofLE (slice bs offset 2)) = x := by
  rw [h, ofLE_leBytes_of_lt x.toNat_lt, UInt16.ofNat_toNat]

/-- Every image decodes, to the record read six bytes early. -/
theorem decode_imageAt {r : CaptureRecord} {bs : List UInt8} (h : ImageAt r bs) :
    decodeCaptureRecord bs = some (misreadRecord r bs) := by
  have hlen := h.length
  have hheader : ¬ bs.length < sizeOfHeader := by rw [hlen]; decide
  have hkind := getD_eq_of_slice (by omega) h.kind
  have hdirection := getD_eq_of_slice (by omega) h.direction
  have habi := ofNat_ofLE_slice16 h.abiVersion
  have hheaderLen := ofNat_ofLE_slice16 h.headerLen
  have hcpu := ofNat_ofLE_slice16 h.cpu
  have hpad := ofNat_ofLE_slice16 h.pad0
  have hlt : bs.length < 2 ^ 64 := by omega
  rw [decodeCaptureRecord, if_neg hheader, StateT.run'_eq]
  simp (disch := omega) only [run_readU16_bind, run_readU8_bind, run_readBytes_bind,
    run_readU32_bind, run_readU64_bind, run_lift_some_bind, hkind, hdirection, habi, hheaderLen,
    hcpu, hpad, MAX_CAPTURE_BYTES, decodeProbeKind_discriminant,
    decodeProbeDirection_discriminant, Nat.zero_add, Nat.reduceAdd, take_slice,
    Nat.min_assoc, Nat.min_self]
  rfl

/-! ## When the record comes back -/

/-- What the loader owes the kernel program: the header it wrote and the captured
part of the payload it wrote. -/
def RoundTrips (r : CaptureRecord) (bs : List UInt8) : Prop :=
  ∃ d, decodeCaptureRecord bs = some d ∧ d.header = r.header ∧
    d.payload = r.payload.toList.take (min r.header.dataLength.toNat MAX_CAPTURE_BYTES)

section Fields
variable {bs : List UInt8} {offset place : ℕ}

theorem ofNat_ofLE_eq_iff32 {x : UInt32} (hread : offset + 4 ≤ bs.length)
    (h : slice bs place 4 = leBytes 4 x.toNat) :
    UInt32.ofNat (ofLE (slice bs offset 4)) = x ↔ slice bs offset 4 = slice bs place 4 := by
  have hlt : ofLE (slice bs offset 4) < 2 ^ 32 := by
    simpa [length_slice hread] using ofLE_lt (slice bs offset 4)
  have hlen : (slice bs offset 4).length = (leBytes 4 x.toNat).length := by
    rw [length_slice hread, length_leBytes]
  rw [h, ← ofLE_inj hlen, ofLE_leBytes_of_lt x.toNat_lt, ← UInt32.toNat_inj,
    UInt32.toNat_ofNat', Nat.mod_eq_of_lt hlt]

theorem ofNat_ofLE_eq_iff64 {x : UInt64} (hread : offset + 8 ≤ bs.length)
    (h : slice bs place 8 = leBytes 8 x.toNat) :
    UInt64.ofNat (ofLE (slice bs offset 8)) = x ↔ slice bs offset 8 = slice bs place 8 := by
  have hlt : ofLE (slice bs offset 8) < 2 ^ 64 := by
    simpa [length_slice hread] using ofLE_lt (slice bs offset 8)
  have hlen : (slice bs offset 8).length = (leBytes 8 x.toNat).length := by
    rw [length_slice hread, length_leBytes]
  rw [h, ← ofLE_inj hlen, ofLE_leBytes_of_lt x.toNat_lt, ← UInt64.toNat_inj,
    UInt64.toNat_ofNat', Nat.mod_eq_of_lt hlt]

end Fields

/-- The decoded header is the written one when the 88 bytes from the boot id on repeat
the 88 bytes six places before. -/
theorem misread_header_iff {r : CaptureRecord} {bs : List UInt8} (h : ImageAt r bs) :
    (misreadRecord r bs).header = r.header ↔
      RangesAgree bs 10 16 [16, 4, 4, 8, 8, 8, 8, 8, 8, 4, 4, 8] := by
  have hlen := h.length
  have hboot : bootIdOf (slice bs 10 16) = r.header.connection.bootId ↔
      slice bs 10 16 = slice bs 16 16 := by
    rw [bootIdOf_eq_iff (length_slice (by omega)), h.bootId]
  have htgid := ofNat_ofLE_eq_iff32 (show 26 + 4 ≤ bs.length by omega) h.tgid
  have hpid := ofNat_ofLE_eq_iff32 (show 30 + 4 ≤ bs.length by omega) h.pid
  have hstart := ofNat_ofLE_eq_iff64 (show 34 + 8 ≤ bs.length by omega) h.startTicks
  have hptr := ofNat_ofLE_eq_iff64 (show 42 + 8 ≤ bs.length by omega) h.connectionPtr
  have hepoch := ofNat_ofLE_eq_iff64 (show 50 + 8 ≤ bs.length by omega) h.epoch
  have hcall := ofNat_ofLE_eq_iff64 (show 58 + 8 ≤ bs.length by omega) h.callSequence
  have hfile := ofNat_ofLE_eq_iff64 (show 66 + 8 ≤ bs.length by omega) h.fileOffset
  have hdata := ofNat_ofLE_eq_iff64 (show 74 + 8 ≤ bs.length by omega) h.dataOffset
  have hlength := ofNat_ofLE_eq_iff32 (show 82 + 4 ≤ bs.length by omega) h.dataLength
  have haux := ofNat_ofLE_eq_iff32 (show 86 + 4 ≤ bs.length by omega) h.auxValue
  have haux2 := ofNat_ofLE_eq_iff64 (show 90 + 8 ≤ bs.length by omega) h.auxValue2
  simp only [misreadRecord, CaptureRecordHeader.ext_iff, ConnectionIdentity.ext_iff,
    rangesAgree_cons, rangesAgree_nil, true_and, and_true, and_assoc, Nat.reduceAdd, hboot, htgid,
    hpid, hstart, hptr, hepoch, hcall, hfile, hdata, hlength, haux, haux2]

/-- The decoder gives a record back exactly when the missed padding makes no difference:
from byte 10 to the end of the captured payload, the image repeats every six bytes. -/
theorem roundTrips_iff {r : CaptureRecord} {bs : List UInt8} (h : IsImage r.members bs) :
    RoundTrips r bs ↔
      slice bs 10 (88 + min r.header.dataLength.toNat MAX_CAPTURE_BYTES) =
        slice bs 16 (88 + min r.header.dataLength.toNat MAX_CAPTURE_BYTES) := by
  rw [isImage_iff_imageAt] at h
  have hlen := h.length
  have hclamp : min r.header.dataLength.toNat MAX_CAPTURE_BYTES ≤ 256 := min_le_right _ _
  have hpayload : r.payload.toList.take (min r.header.dataLength.toNat MAX_CAPTURE_BYTES) =
      slice bs 104 (min r.header.dataLength.toNat MAX_CAPTURE_BYTES) := by
    rw [← h.payload, take_slice, min_eq_left hclamp]
  have hheader : RangesAgree bs 10 16 [16, 4, 4, 8, 8, 8, 8, 8, 8, 4, 4, 8] ↔
      slice bs 10 88 = slice bs 16 88 :=
    rangesAgree_iff (by rw [hlen]; decide) (by rw [hlen]; decide)
  rw [slice_add_eq_iff (by omega) (by omega), ← hheader, ← misread_header_iff h]
  constructor
  · rintro ⟨d, hd, hdh, hdp⟩
    obtain rfl : misreadRecord r bs = d := by
      rw [decode_imageAt h] at hd
      exact Option.some.inj hd
    have hdl : UInt32.ofNat (ofLE (slice bs 82 4)) = r.header.dataLength :=
      congrArg CaptureRecordHeader.dataLength hdh
    rw [hpayload] at hdp
    refine ⟨hdh, ?_⟩
    rwa [misreadRecord, hdl] at hdp
  · rintro ⟨hdh, hdp⟩
    have hdl : UInt32.ofNat (ofLE (slice bs 82 4)) = r.header.dataLength :=
      congrArg CaptureRecordHeader.dataLength hdh
    refine ⟨_, decode_imageAt h, hdh, ?_⟩
    rw [hpayload, misreadRecord, hdl]
    exact hdp

/-- The six bytes that the padding and all that follows repeat. -/
def cycle (i : ℕ) : UInt8 := ([3, 0, 0, 0, 5, 9] : List UInt8).getD (i % 6) 0

/-- A read of three bytes, whose fields repeat the six bytes. -/
def cyclicRecord : CaptureRecord where
  header :=
    { abiVersion := ABI_VERSION, headerLen := 104, kind := .plaintextRead, direction := .read
      cpu := 2, pad0 := 0
      connection :=
        { bootId := Vector.ofFn fun i => cycle i, tgid := 0x30905, pid := 0x9050000
          startTicks := 0x3090500000003, connectionPtr := 0x309050000
          epoch := 0x905000000030905, callSequence := 0x3090500000003 }
      fileOffset := 0x309050000, dataOffset := 0x905000000030905, dataLength := 3
      auxValue := 0x30905, auxValue2 := 0x309050000 }
  payload := Vector.ofFn fun i => cycle (i + 4)

def cyclicImage : List UInt8 := [1, 0, 104, 0, 6, 1, 2, 0, 0, 0] ++ (List.range 350).map cycle

theorem isImage_cyclic : IsImage cyclicRecord.members cyclicImage := by
  rw [isImage_iff_imageAt]
  constructor <;> decide +kernel

theorem roundTrips_cyclic :
    IsImage cyclicRecord.members cyclicImage ∧ RoundTrips cyclicRecord cyclicImage :=
  ⟨isImage_cyclic, (roundTrips_iff isImage_cyclic).mpr (by decide +kernel)⟩

/-- An exec record of the first boot with nothing captured. -/
def idleRecord : CaptureRecord where
  header :=
    { abiVersion := ABI_VERSION, headerLen := 104, kind := .processExec, direction := .none
      cpu := 0, pad0 := 0
      connection :=
        { bootId := Vector.replicate 16 0, tgid := 0, pid := 0, startTicks := 0
          connectionPtr := 0, epoch := 0, callSequence := 0 }
      fileOffset := 0, dataOffset := 0, dataLength := 0, auxValue := 0, auxValue2 := 0 }
  payload := Vector.replicate 256 0

/-- Its image with zeroed padding: all bytes after the first three scalars are zero. -/
def idleImage : List UInt8 := [1, 0, 104, 0] ++ List.replicate 356 0

/-- The same record from a process whose thread group id is 7. -/
def tgidRecord : CaptureRecord :=
  { idleRecord with
    header := { idleRecord.header with
      connection := { idleRecord.header.connection with tgid := 7 } } }

def tgidImage : List UInt8 := idleImage.set 32 7

theorem isImage_tgid : IsImage tgidRecord.members tgidImage := by
  rw [isImage_iff_imageAt]
  constructor <;> decide +kernel

/-- Its thread group id is read from the last bytes of the boot id. -/
theorem not_roundTrips_tgid : IsImage tgidRecord.members tgidImage ∧
    ¬ RoundTrips tgidRecord tgidImage := by
  refine ⟨isImage_tgid, ?_⟩
  rintro ⟨d, hd, hheader, -⟩
  rw [decode_imageAt ((isImage_iff_imageAt _ _).mp isImage_tgid)] at hd
  cases hd
  have htgid := congrArg (fun h => h.connection.tgid) hheader
  revert htgid
  decide +kernel

end Codexwatch.CaptureEbpf
