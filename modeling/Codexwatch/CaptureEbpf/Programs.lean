import Codexwatch.CaptureEbpf.Loader
import Codexwatch.Lib.Table

/-!
# The process tracepoints of the kernel program

`try_process_exec` and `try_process_exit` of `capture-ebpf/ebpf/src/lib.rs`. Both name
the thread they run in. The kernel runs the exit tracepoint in every thread that exits,
and nothing in the record tells the last thread of a process from another.

`reportsExit_iff` says which process an exit record names once the loader has decoded
it: the one whose id the boot id spells.

## Main definitions

* `Thread` — a thread, by its thread group and its own id.
* `tryProcessExec`, `tryProcessExit` — the programs.
* `reportsExit` — a decoder reads the exit of a process from an image.
-/
namespace Codexwatch.CaptureEbpf

open ReprC Relational

/-- `bpf_get_current_pid_tgid()`: the user's process id is `tgid`. -/
structure Thread where
  tgid : UInt32
  pid : UInt32
  deriving DecidableEq

def MAX_PROCESS_START : ℕ := 4096

/-- The maps that the two programs use. -/
structure KernelMaps where
  bootId : Vector UInt8 16
  processStart : Table UInt32 UInt64

/-- What a program takes from the kernel. -/
structure Probe where
  /-- `bpf_ktime_get_ns()` -/
  ktime : UInt64
  /-- `bpf_get_current_comm()` -/
  comm : Option (Vector UInt8 16)
  /-- `SCRATCH_RECORDS`, as the last record left it. -/
  scratch : Vector UInt8 MAX_CAPTURE_BYTES

def currentIdentity (maps : KernelMaps) (thread : Thread) (probe : Probe)
    (connectionPtr epoch callSequence : UInt64) : ConnectionIdentity where
  bootId := maps.bootId
  tgid := thread.tgid
  pid := thread.pid
  startTicks := (maps.processStart.get? thread.tgid).getD probe.ktime
  connectionPtr
  epoch
  callSequence

def emitRecord (kind : ProbeKind) (direction : ProbeDirection) (identity : ConnectionIdentity)
    (fileOffset dataOffset : UInt64) (auxValue : UInt32) (auxValue2 : UInt64)
    (payload : List UInt8) (probe : Probe) : CaptureRecord where
  header :=
    { abiVersion := ABI_VERSION, headerLen := UInt16.ofNat sizeOfHeader, kind, direction
      cpu := 0, pad0 := 0, connection := identity, fileOffset, dataOffset
      dataLength := UInt32.ofNat (min payload.length MAX_CAPTURE_BYTES), auxValue, auxValue2 }
  payload := Vector.ofFn fun i => payload.getD i probe.scratch[i]

/-- A map that is full takes no new key. -/
def insertStart (starts : Table UInt32 UInt64) (tgid : UInt32) (now : UInt64) :
    Table UInt32 UInt64 :=
  if starts.rows.length < MAX_PROCESS_START ∨ (starts.get? tgid).isSome then starts.put tgid now
  else starts

/-- The record, if there is one, and the maps afterwards. -/
def tryProcessExec (maps : KernelMaps) (thread : Thread) (probe : Probe) :
    Option CaptureRecord × KernelMaps :=
  let identity := currentIdentity maps thread probe 0 0 0
  (probe.comm.map fun comm =>
      emitRecord .processExec .none identity 0 0 0 0 comm.toList probe,
    { maps with processStart := insertStart maps.processStart thread.tgid identity.startTicks })

def tryProcessExit (maps : KernelMaps) (thread : Thread) (probe : Probe) :
    Option CaptureRecord × KernelMaps :=
  let identity := currentIdentity maps thread probe 0 0 0
  (probe.comm.map fun comm =>
      emitRecord .processExit .none identity 0 0 0 0 comm.toList probe,
    { maps with processStart := maps.processStart.deleteWhere fun tgid _ => tgid = thread.tgid })

/-! ## What user space reads -/

/-- The decoder reads the exit of the process from the image. -/
def reportsExit (decode : List UInt8 → Option OwnedCaptureRecord) (tgid : UInt32)
    (image : List UInt8) : Bool :=
  (decode image).any fun r => r.header.kind = .processExit ∧ r.header.connection.tgid = tgid

/-- Bytes 10 to 13 of the boot id. -/
def spelledTgid (bootId : Vector UInt8 16) : UInt32 :=
  UInt32.ofNat (ofLE (slice bootId.toList 10 4))

/-- The loader looks for the thread group in the boot id. -/
theorem reportsExit_iff {r : CaptureRecord} {image : List UInt8} (h : IsImage r.members image)
    (tgid : UInt32) :
    reportsExit decodeCaptureRecord tgid image ↔
      r.header.kind = .processExit ∧ spelledTgid r.header.connection.bootId = tgid := by
  have himage := (isImage_iff_imageAt r image).mp h
  have hboot : slice image 26 4 = slice r.header.connection.bootId.toList 10 4 := by
    rw [← himage.bootId, slice_slice (by norm_num)]
  rw [reportsExit, decode_imageAt himage]
  simp [misreadRecord, spelledTgid, hboot]

/-- A decoder that gives the records back reads the thread group of the thread. -/
theorem reportsExit_iff_of_faithful {decode : List UInt8 → Option OwnedCaptureRecord}
    {r : CaptureRecord} {image : List UInt8}
    (h : (decode image).map OwnedCaptureRecord.header = some r.header) (tgid : UInt32) :
    reportsExit decode tgid image ↔
      r.header.kind = .processExit ∧ r.header.connection.tgid = tgid := by
  obtain ⟨d, hd, hheader⟩ := Option.map_eq_some_iff.mp h
  rw [reportsExit, hd]
  simp [hheader]

end Codexwatch.CaptureEbpf
