import Codexwatch.CaptureEbpf.Programs

/-!
# The plaintext probes of the kernel program

The uprobes at the write and read functions of `capture-ebpf/ebpf/src/lib.rs`. A call is
numbered when it is entered, under the bare pointer of its connection; what its return
reports comes from the entry that the call left under its thread.

## Main definitions

* `CaptureMaps` — all maps of the program.
* `plaintextEnter`, `tryPlaintextWriteReturn`, `tryPlaintextReadReturn` — the programs.
-/
namespace Codexwatch.CaptureEbpf

open Relational

def MAX_CONNECTIONS : ℕ := 8192
def MAX_INFLIGHT : ℕ := 8192

inductive Io
  | write | read
  deriving DecidableEq

structure InflightIo where
  connectionPtr : UInt64
  bufPtr : UInt64
  requestedLen : UInt32
  fileOffset : UInt64
  epoch : UInt64
  callSequence : UInt64
  tgid : UInt32
  pid : UInt32
  startTicks : UInt64
  deriving DecidableEq

structure CaptureMaps extends KernelMaps where
  connectionEpochs : Table UInt64 UInt64
  connectionSequences : Table UInt64 UInt64
  inflightWrites : Table Thread InflightIo
  inflightReads : Table Thread InflightIo

/-- What a program takes from the kernel, and whether `EVENTS.output` has room. -/
structure Firing extends Probe where
  output : Bool

/-- A map that is full takes no new key. -/
def insertBounded {κ ν : Type} [DecidableEq κ] (capacity : ℕ) (map : Table κ ν) (key : κ)
    (value : ν) : Table κ ν :=
  if map.rows.length < capacity ∨ (map.get? key).isSome then map.put key value else map

namespace CaptureMaps

def inflight (maps : CaptureMaps) : Io → Table Thread InflightIo
  | .write => maps.inflightWrites
  | .read => maps.inflightReads

def setInflight (maps : CaptureMaps) (io : Io) (inflight : Table Thread InflightIo) :
    CaptureMaps :=
  match io with
  | .write => { maps with inflightWrites := inflight }
  | .read => { maps with inflightReads := inflight }

/-- The epoch of the pointer, and whether it is new. -/
def connectionEpoch (maps : CaptureMaps) (connectionPtr : UInt64) :
    (UInt64 × Bool) × CaptureMaps :=
  match maps.connectionEpochs.get? connectionPtr with
  | some existing => ((existing, false), maps)
  | none =>
      ((1, true), { maps with
        connectionEpochs := insertBounded MAX_CONNECTIONS maps.connectionEpochs connectionPtr 1 })

/-- `u64::saturating_add(1)` -/
def saturatingSucc (n : UInt64) : UInt64 := if n.toNat + 1 < 2 ^ 64 then n + 1 else n

def nextSequence (maps : CaptureMaps) (connectionPtr : UInt64) : UInt64 × CaptureMaps :=
  match maps.connectionSequences.get? connectionPtr with
  | some existing =>
      (saturatingSucc existing, { maps with
        connectionSequences :=
          maps.connectionSequences.put connectionPtr (saturatingSucc existing) })
  | none =>
      (1, { maps with
        connectionSequences :=
          insertBounded MAX_CONNECTIONS maps.connectionSequences connectionPtr 1 })

/-- The identity of a call that is entered, and whether its pointer is new. -/
def enteredIdentity (maps : CaptureMaps) (thread : Thread) (connectionPtr : UInt64)
    (firing : Firing) : (ConnectionIdentity × Bool) × CaptureMaps :=
  let ((epoch, created), maps) := maps.connectionEpoch connectionPtr
  let (sequence, maps) := maps.nextSequence connectionPtr
  ((currentIdentity maps.toKernelMaps thread firing.toProbe connectionPtr epoch sequence, created),
    maps)

end CaptureMaps

/-- The arguments of a call of the traced functions. -/
structure CallArgs where
  connection : UInt64
  buf : UInt64
  len : UInt64

/-- `try_plaintext_write_enter` and `try_plaintext_read_enter`, which differ in the map. -/
def plaintextEnter (io : Io) (maps : CaptureMaps) (thread : Thread) (args : CallArgs)
    (fileOffset : UInt64) (firing : Firing) : Option CaptureRecord × CaptureMaps :=
  let ((identity, created), maps) := maps.enteredIdentity thread args.connection firing
  -- without room for its record the call is not put with those in flight
  if created ∧ firing.output = false then (none, maps)
  else
    (if created then
        some (emitRecord .connectionCreate .none identity fileOffset 0 0 0 [] firing.toProbe)
      else none,
      maps.setInflight io <| insertBounded MAX_INFLIGHT (maps.inflight io) thread
        { connectionPtr := args.connection
          bufPtr := args.buf
          requestedLen := UInt32.ofNat (min args.len.toNat (2 ^ 32 - 1))
          fileOffset
          epoch := identity.epoch
          callSequence := identity.callSequence
          tgid := identity.tgid
          pid := identity.pid
          startTicks := identity.startTicks })

def tryPlaintextWriteEnter := plaintextEnter .write

def tryPlaintextReadEnter := plaintextEnter .read

def connectionIdentityFromInflight (maps : CaptureMaps) (inflight : InflightIo) :
    ConnectionIdentity where
  bootId := maps.bootId
  tgid := inflight.tgid
  pid := inflight.pid
  startTicks := inflight.startTicks
  connectionPtr := inflight.connectionPtr
  epoch := inflight.epoch
  callSequence := inflight.callSequence

/-- The two registers of the result, and what `bpf_probe_read_user_buf` reads. -/
structure CallResult where
  rawTag : UInt64
  rawLen : UInt64
  user : List UInt8

/-- The bytes that a write gives to its record, zeros where they cannot be read. -/
def writtenBytes (inflight : InflightIo) (result : CallResult) : List UInt8 :=
  let actualLen := if result.rawTag = 0 then min result.rawLen.toNat inflight.requestedLen.toNat
    else 0
  (List.range (min actualLen MAX_CAPTURE_BYTES)).map fun i => result.user.getD i 0

/-- A return reports the call that is in flight on its thread. -/
def plaintextReturn (io : Io) (kind : ProbeKind) (direction : ProbeDirection)
    (payload : InflightIo → CallResult → List UInt8) (maps : CaptureMaps) (thread : Thread)
    (result : CallResult) (firing : Firing) : Option CaptureRecord × CaptureMaps :=
  match (maps.inflight io).get? thread with
  | none => (none, maps)
  | some inflight =>
      let identity := connectionIdentityFromInflight maps inflight
      let record := emitRecord kind direction identity inflight.fileOffset 0
        result.rawTag.toUInt32 result.rawLen (payload inflight result) firing.toProbe
      if firing.output then
        (some record, maps.setInflight io
          ((maps.inflight io).deleteWhere fun key _ => key = thread))
      else (none, maps)

def tryPlaintextWriteReturn := plaintextReturn .write .plaintextWrite .write writtenBytes

def tryPlaintextReadReturn := plaintextReturn .read .plaintextRead .read fun _ _ => []

/-! ## The maps after a firing -/

section Bounded
variable {κ ν : Type} [DecidableEq κ] {capacity : ℕ} {map : Table κ ν} {key key' : κ} {value : ν}

theorem insertBounded_of_room (h : map.rows.length < capacity ∨ (map.get? key).isSome) :
    insertBounded capacity map key value = map.put key value := if_pos h

theorem get?_insertBounded_of_ne (h : key' ≠ key) :
    (insertBounded capacity map key value).get? key' = map.get? key' := by
  rw [insertBounded]
  split
  · exact Table.get?_put_of_ne h
  · rfl

/-- A value that is not taken leaves the map without the key. -/
theorem eq_of_get?_insertBounded {found : ν}
    (h : (insertBounded capacity map key value).get? key = some found) : found = value := by
  rw [insertBounded] at h
  split at h
  · rw [Table.get?_put_self] at h
    exact (Option.some.inj h).symm
  · rename_i hfull
    exact absurd (.inr (by rw [h]; rfl)) hfull

end Bounded

/-- The start of a process that has one stays as it is. -/
theorem get?_insertStart {starts : Table UInt32 UInt64} {tgid tgid' : UInt32} {start now : UInt64}
    (h : starts.get? tgid' = some start) :
    (insertStart starts tgid ((starts.get? tgid).getD now)).get? tgid' = some start := by
  rw [insertStart]
  split
  · rw [Table.get?_put]
    split
    · rename_i heq
      rw [← heq, h, Option.getD_some]
    · exact h
  · exact h

namespace CaptureMaps
variable {maps : CaptureMaps} {io io' : Io} {thread : Thread} {ptr : UInt64} {firing : Firing}

@[simp] theorem inflight_setInflight (inflight : Table Thread InflightIo) :
    (maps.setInflight io inflight).inflight io = inflight := by
  cases io <;> rfl

theorem inflight_setInflight_of_ne (h : io' ≠ io) (inflight : Table Thread InflightIo) :
    (maps.setInflight io inflight).inflight io' = maps.inflight io' := by
  cases io <;> cases io' <;> first | rfl | exact absurd rfl h

@[simp] theorem toKernelMaps_setInflight (inflight : Table Thread InflightIo) :
    (maps.setInflight io inflight).toKernelMaps = maps.toKernelMaps := by
  cases io <;> rfl

@[simp] theorem connectionEpochs_setInflight (inflight : Table Thread InflightIo) :
    (maps.setInflight io inflight).connectionEpochs = maps.connectionEpochs := by
  cases io <;> rfl

@[simp] theorem connectionSequences_setInflight (inflight : Table Thread InflightIo) :
    (maps.setInflight io inflight).connectionSequences = maps.connectionSequences := by
  cases io <;> rfl

/-- The first call under a pointer. -/
theorem enteredIdentity_of_none (hepoch : maps.connectionEpochs.get? ptr = none)
    (hsequence : maps.connectionSequences.get? ptr = none)
    (hepochs : maps.connectionEpochs.rows.length < MAX_CONNECTIONS)
    (hsequences : maps.connectionSequences.rows.length < MAX_CONNECTIONS) :
    maps.enteredIdentity thread ptr firing =
      ((currentIdentity maps.toKernelMaps thread firing.toProbe ptr 1 1, true),
        { maps with
          connectionEpochs := maps.connectionEpochs.put ptr 1
          connectionSequences := maps.connectionSequences.put ptr 1 }) := by
  simp only [enteredIdentity, connectionEpoch, hepoch, nextSequence, hsequence,
    insertBounded_of_room (.inl hepochs), insertBounded_of_room (.inl hsequences)]

/-- A later call under the pointer. -/
theorem enteredIdentity_of_some {epoch sequence : UInt64}
    (hepoch : maps.connectionEpochs.get? ptr = some epoch)
    (hsequence : maps.connectionSequences.get? ptr = some sequence) :
    maps.enteredIdentity thread ptr firing =
      ((currentIdentity maps.toKernelMaps thread firing.toProbe ptr epoch
          (saturatingSucc sequence), false),
        { maps with
          connectionSequences := maps.connectionSequences.put ptr (saturatingSucc sequence) }) := by
  simp only [enteredIdentity, connectionEpoch, hepoch, nextSequence, hsequence]

theorem toNat_saturatingSucc {n : UInt64} (h : n.toNat + 1 < 2 ^ 64) :
    (saturatingSucc n).toNat = n.toNat + 1 := by
  rw [saturatingSucc, if_pos h, UInt64.toNat_add]
  exact Nat.mod_eq_of_lt h

end CaptureMaps

end Codexwatch.CaptureEbpf
