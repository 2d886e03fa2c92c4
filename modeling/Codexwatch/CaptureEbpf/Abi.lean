import Codexwatch.Lib.ReprC

/-!
# The capture record shared by the kernel program and the loader

The types of `capture-ebpf/src/abi.rs`, with the memory layout that their
`#[repr(C)]` attributes give them on x86_64. The kernel program writes whole
records to the ring buffer, so what user space receives is a memory image of a
`CaptureRecord`, padding included.

## Main definitions

* `CaptureRecord` — a header and a fixed payload array.
* `CaptureRecord.members` — its layout, from which `IsImage` follows.
-/
namespace Codexwatch.CaptureEbpf

open ReprC

def ABI_VERSION : UInt16 := 1
def MAX_CAPTURE_BYTES : ℕ := 256

inductive ProbeDirection
  | none | read | write
  deriving DecidableEq, Repr

/-- The `#[repr(u8)]` discriminant. -/
def ProbeDirection.discriminant : ProbeDirection → ℕ
  | .none => 0
  | .read => 1
  | .write => 2

inductive ProbeKind
  | processExec | processExit | tcpStateChange | connectionCreate | connectionDrop
  | plaintextWrite | plaintextRead | turnComplete | turnAbort | terminalError
  deriving DecidableEq, Repr

/-- The `#[repr(u8)]` discriminant. -/
def ProbeKind.discriminant : ProbeKind → ℕ
  | .processExec => 0
  | .processExit => 1
  | .tcpStateChange => 2
  | .connectionCreate => 3
  | .connectionDrop => 4
  | .plaintextWrite => 5
  | .plaintextRead => 6
  | .turnComplete => 7
  | .turnAbort => 8
  | .terminalError => 9

@[ext] structure ConnectionIdentity where
  bootId : Vector UInt8 16
  tgid : UInt32
  pid : UInt32
  startTicks : UInt64
  connectionPtr : UInt64
  epoch : UInt64
  callSequence : UInt64
  deriving DecidableEq

@[ext] structure CaptureRecordHeader where
  abiVersion : UInt16
  headerLen : UInt16
  kind : ProbeKind
  direction : ProbeDirection
  cpu : UInt16
  pad0 : UInt16
  connection : ConnectionIdentity
  fileOffset : UInt64
  dataOffset : UInt64
  dataLength : UInt32
  auxValue : UInt32
  auxValue2 : UInt64
  deriving DecidableEq

structure CaptureRecord where
  header : CaptureRecordHeader
  payload : Vector UInt8 MAX_CAPTURE_BYTES
  deriving DecidableEq

/-! ## Layout -/

def ConnectionIdentity.members (c : ConnectionIdentity) : List Member :=
  [.bytes c.bootId.toList, .scalar 4 c.tgid.toNat, .scalar 4 c.pid.toNat,
    .scalar 8 c.startTicks.toNat, .scalar 8 c.connectionPtr.toNat, .scalar 8 c.epoch.toNat,
    .scalar 8 c.callSequence.toNat]

def CaptureRecordHeader.members (h : CaptureRecordHeader) : List Member :=
  [.scalar 2 h.abiVersion.toNat, .scalar 2 h.headerLen.toNat, .scalar 1 h.kind.discriminant,
    .scalar 1 h.direction.discriminant, .scalar 2 h.cpu.toNat, .scalar 2 h.pad0.toNat,
    .struct h.connection.members, .scalar 8 h.fileOffset.toNat, .scalar 8 h.dataOffset.toNat,
    .scalar 4 h.dataLength.toNat, .scalar 4 h.auxValue.toNat, .scalar 8 h.auxValue2.toNat]

def CaptureRecord.members (r : CaptureRecord) : List Member :=
  [.struct r.header.members, .bytes r.payload.toList]

/-- `core::mem::size_of::<CaptureRecordHeader>()`. -/
def sizeOfHeader : ℕ := 104

@[simp] theorem structSize_connection (c : ConnectionIdentity) : structSize c.members = 56 := by
  simp [ConnectionIdentity.members, structSize, alignUp]

@[simp] theorem structAlign_connection (c : ConnectionIdentity) :
    structAlign c.members = 8 := by simp [ConnectionIdentity.members]

@[simp] theorem structSize_header (h : CaptureRecordHeader) :
    structSize h.members = sizeOfHeader := by
  rw [structSize]
  simp [CaptureRecordHeader.members, alignUp, sizeOfHeader]

@[simp] theorem structAlign_header (h : CaptureRecordHeader) : structAlign h.members = 8 := by
  simp [CaptureRecordHeader.members]

@[simp] theorem structSize_record (r : CaptureRecord) : structSize r.members = 360 := by
  rw [structSize]
  simp only [CaptureRecord.members, structAlign_cons, structAlign_nil, endFrom_cons, endFrom_nil,
    size_struct, align_struct, structSize_header, structAlign_header, size_bytes, align_bytes,
    Vector.length_toList, alignUp]
  rfl

/-- Where the members of a record lie in its image. -/
structure ImageAt (r : CaptureRecord) (bs : List UInt8) : Prop where
  length : bs.length = 360
  abiVersion : slice bs 0 2 = leBytes 2 r.header.abiVersion.toNat
  headerLen : slice bs 2 2 = leBytes 2 r.header.headerLen.toNat
  kind : slice bs 4 1 = leBytes 1 r.header.kind.discriminant
  direction : slice bs 5 1 = leBytes 1 r.header.direction.discriminant
  cpu : slice bs 6 2 = leBytes 2 r.header.cpu.toNat
  pad0 : slice bs 8 2 = leBytes 2 r.header.pad0.toNat
  bootId : slice bs 16 16 = r.header.connection.bootId.toList
  tgid : slice bs 32 4 = leBytes 4 r.header.connection.tgid.toNat
  pid : slice bs 36 4 = leBytes 4 r.header.connection.pid.toNat
  startTicks : slice bs 40 8 = leBytes 8 r.header.connection.startTicks.toNat
  connectionPtr : slice bs 48 8 = leBytes 8 r.header.connection.connectionPtr.toNat
  epoch : slice bs 56 8 = leBytes 8 r.header.connection.epoch.toNat
  callSequence : slice bs 64 8 = leBytes 8 r.header.connection.callSequence.toNat
  fileOffset : slice bs 72 8 = leBytes 8 r.header.fileOffset.toNat
  dataOffset : slice bs 80 8 = leBytes 8 r.header.dataOffset.toNat
  dataLength : slice bs 88 4 = leBytes 4 r.header.dataLength.toNat
  auxValue : slice bs 92 4 = leBytes 4 r.header.auxValue.toNat
  auxValue2 : slice bs 96 8 = leBytes 8 r.header.auxValue2.toNat
  payload : slice bs 104 256 = r.payload.toList

/-- The connection identity's members lie at consecutive offsets. -/
theorem isImage_connection_iff (c : ConnectionIdentity) (bs : List UInt8) :
    IsImage c.members bs ↔ bs.length = 56 ∧ slice bs 0 16 = c.bootId.toList ∧
      slice bs 16 4 = leBytes 4 c.tgid.toNat ∧ slice bs 20 4 = leBytes 4 c.pid.toNat ∧
      slice bs 24 8 = leBytes 8 c.startTicks.toNat ∧
      slice bs 32 8 = leBytes 8 c.connectionPtr.toNat ∧
      slice bs 40 8 = leBytes 8 c.epoch.toNat ∧ slice bs 48 8 = leBytes 8 c.callSequence.toNat := by
  rw [IsImage, structSize_connection]
  simp [ConnectionIdentity.members, alignUp]

/-- The header's members: `pad0` ends at offset 10, `connection` starts at 16. -/
theorem isImage_header_iff (h : CaptureRecordHeader) (bs : List UInt8) :
    IsImage h.members bs ↔ bs.length = sizeOfHeader ∧
      slice bs 0 2 = leBytes 2 h.abiVersion.toNat ∧ slice bs 2 2 = leBytes 2 h.headerLen.toNat ∧
      slice bs 4 1 = leBytes 1 h.kind.discriminant ∧
      slice bs 5 1 = leBytes 1 h.direction.discriminant ∧
      slice bs 6 2 = leBytes 2 h.cpu.toNat ∧ slice bs 8 2 = leBytes 2 h.pad0.toNat ∧
      IsImage h.connection.members (slice bs 16 56) ∧
      slice bs 72 8 = leBytes 8 h.fileOffset.toNat ∧
      slice bs 80 8 = leBytes 8 h.dataOffset.toNat ∧
      slice bs 88 4 = leBytes 4 h.dataLength.toNat ∧ slice bs 92 4 = leBytes 4 h.auxValue.toNat ∧
      slice bs 96 8 = leBytes 8 h.auxValue2.toNat := by
  rw [IsImage, structSize_header]
  simp [CaptureRecordHeader.members, alignUp]

theorem isImage_record_iff (r : CaptureRecord) (bs : List UInt8) :
    IsImage r.members bs ↔ bs.length = 360 ∧ IsImage r.header.members (slice bs 0 104) ∧
      slice bs 104 256 = r.payload.toList := by
  rw [IsImage, structSize_record]
  simp only [CaptureRecord.members, imageFrom_cons, imageFrom_nil, image_struct, image_bytes,
    size_struct, align_struct, structSize_header, structAlign_header, size_bytes, align_bytes,
    Vector.length_toList, and_true, alignUp]
  exact Iff.rfl

/-- The `repr(C)` rules put the members at these offsets and nothing else constrains
the image: bytes 10 to 15 are padding. -/
theorem isImage_iff_imageAt (r : CaptureRecord) (bs : List UInt8) :
    IsImage r.members bs ↔ ImageAt r bs := by
  rw [isImage_record_iff, isImage_header_iff, isImage_connection_iff]
  simp (disch := norm_num) only [slice_slice, Nat.zero_add, Nat.reduceAdd]
  constructor
  · rintro ⟨hlen, ⟨-, h₁, h₂, h₃, h₄, h₅, h₆, ⟨-, c₁, c₂, c₃, c₄, c₅, c₆, c₇⟩, h₇, h₈, h₉, h₁₀, h₁₁⟩,
      hp⟩
    exact ⟨hlen, h₁, h₂, h₃, h₄, h₅, h₆, c₁, c₂, c₃, c₄, c₅, c₆, c₇, h₇, h₈, h₉, h₁₀, h₁₁, hp⟩
  · rintro ⟨hlen, h₁, h₂, h₃, h₄, h₅, h₆, c₁, c₂, c₃, c₄, c₅, c₆, c₇, h₇, h₈, h₉, h₁₀, h₁₁, hp⟩
    have hheader : (slice bs 0 104).length = sizeOfHeader := length_slice (by omega)
    have hconnection : (slice bs 16 56).length = 56 := length_slice (by omega)
    exact ⟨hlen, ⟨hheader, h₁, h₂, h₃, h₄, h₅, h₆, ⟨hconnection, c₁, c₂, c₃, c₄, c₅, c₆, c₇⟩,
      h₇, h₈, h₉, h₁₀, h₁₁⟩, hp⟩

end Codexwatch.CaptureEbpf
