import Codexwatch.Client.Lane

/-!
# Which process a segment belongs to

`ProcessFlowIndex` of `capture/src/af_packet.rs`, the sockets of one process, and
`SharedProcessIndex` of `client/src/capture_lane.rs`, those of all observed ones. The
discovery writes the shared index while the lane reads it.

## Main definitions

* `ProcessFlowIndex.directionForSegment` — a segment among the sockets of a process.
* `SharedProcessIndex` — its statements, each under the lock.
-/
namespace Codexwatch.Client

open Protocol Relational

structure ProcessSocketFlow where
  pid : ℕ
  fd : ℤ
  inode : ℕ
  localIp : String
  localPort : ℕ
  remoteIp : String
  remotePort : ℕ
  ipv6 : Bool
  deriving DecidableEq

structure ProcessFlowIndex where
  pid : ℕ
  flows : List ProcessSocketFlow
  deriving DecidableEq

/-- The direction of a segment on one socket. -/
def ProcessSocketFlow.direction? (flow : ProcessSocketFlow) (segment : TcpSegment) :
    Option ProcessFlowDirection :=
  if flow.localIp = segment.sourceIp ∧ flow.localPort = segment.sourcePort ∧
      flow.remoteIp = segment.destinationIp ∧ flow.remotePort = segment.destinationPort then
    some .localToRemote
  else if flow.localIp = segment.destinationIp ∧ flow.localPort = segment.destinationPort ∧
      flow.remoteIp = segment.sourceIp ∧ flow.remotePort = segment.sourcePort then
    some .remoteToLocal
  else none

def ProcessFlowIndex.directionForSegment (index : ProcessFlowIndex) (segment : TcpSegment) :
    Option ProcessFlowDirection :=
  index.flows.findSome? (·.direction? segment)

structure TrackedProcess where
  processInstanceId : Uuid
  clientInstanceId : Uuid
  executableSha256 : String
  codexVersion : Option String
  startedAt : OffsetDateTime
  deriving DecidableEq

structure IndexedProcess where
  processInstanceId : Uuid
  index : ProcessFlowIndex
  tracked : TrackedProcess
  deriving DecidableEq

/-- The map under the lock. The order of its values, which is unspecified, decides only
between processes that share a socket. -/
abbrev SharedProcessIndex := Table ℕ IndexedProcess

namespace SharedProcessIndex

def upsert (shared : SharedProcessIndex) (pid : ℕ) (processInstanceId : Uuid)
    (index : ProcessFlowIndex) (tracked : TrackedProcess) : SharedProcessIndex :=
  Table.put shared pid ⟨processInstanceId, index, tracked⟩

def remove (shared : SharedProcessIndex) (pid : ℕ) : SharedProcessIndex :=
  shared.deleteWhere fun k _ => k = pid

def matchSegment (shared : SharedProcessIndex) (segment : TcpSegment) :
    Option (Uuid × ProcessFlowDirection) :=
  shared.rows.findSome? fun row =>
    (row.2.index.directionForSegment segment).map fun direction =>
      (row.2.processInstanceId, direction)

def process (shared : SharedProcessIndex) (pid : ℕ) : Option TrackedProcess :=
  (shared.get? pid).map IndexedProcess.tracked

end SharedProcessIndex

end Codexwatch.Client
