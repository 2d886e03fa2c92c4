import Codexwatch.Capture.Tcp
import Codexwatch.Client.Lane

/-!
# Flows

`handle_segment` of `client/src/capture_lane.rs` below the projections: a segment goes to
the assembler of its direction, the bytes that it delivers go to `process_bytes`, and a
closing segment finishes the direction. A flow ends when both directions are closed.

The application protocols (`process_bytes`) and the parsing of an IP address are
parameters.

## Main definitions

* `Application` — the state and the step of `process_bytes`.
* `FlowDecoders.push` — one segment.
* `flowWire` — the decoders of a lane.
-/
namespace Codexwatch.Client

open Protocol Capture Relational

structure Endpoint (ι : Type) where
  ip : ι
  port : ℕ
  deriving DecidableEq

structure FlowKey (ι : Type) where
  low : Endpoint ι
  high : Endpoint ι
  deriving DecidableEq

inductive Direction
  | clientToServer | serverToClient
  deriving DecidableEq

/-- `process_bytes`: the exchanges that the bytes complete and the state after them, which is
lost with a decode error. -/
structure Application (σ : Type) where
  start : σ
  processBytes : Tick → σ → Direction → Bytes → List DecodedExchange × Option σ

/-- The part of `FlowState` that segments change. -/
structure FlowDecoders (ι σ : Type) where
  client : Option (Endpoint ι)
  server : Option (Endpoint ι)
  application : σ
  clientAssembler : TcpAssembler
  serverAssembler : TcpAssembler
  clientClosed : Bool
  serverClosed : Bool

def asciiBytes (text : String) : Bytes := text.toList.map fun c => c.toNat.toUInt8

def startsWith (bytes : Bytes) (text : String) : Bool := (asciiBytes text).isPrefixOf bytes

def looksLikeRequest (bytes : Bytes) : Bool :=
  startsWith bytes "GET " || startsWith bytes "POST " || startsWith bytes "PUT " ||
    startsWith bytes "DELETE " || startsWith bytes "PATCH " || startsWith bytes "PRI * HTTP/2.0"

section Endpoints
variable {ι : Type} [LinearOrder ι]

/-- The derived order: by address, then by port. -/
def Endpoint.le (a b : Endpoint ι) : Bool :=
  a.ip < b.ip || (a.ip = b.ip && a.port ≤ b.port)

def FlowKey.new (a b : Endpoint ι) : FlowKey ι := if a.le b then ⟨a, b⟩ else ⟨b, a⟩

variable (parseIp : String → Option ι) (segment : TcpSegment)

def sourceOf : Option (Endpoint ι) := (parseIp segment.sourceIp).map (⟨·, segment.sourcePort⟩)

def destinationOf : Option (Endpoint ι) :=
  (parseIp segment.destinationIp).map (⟨·, segment.destinationPort⟩)

/-- The key of the two endpoints, which have to parse. -/
def flowKeyOf : Option (FlowKey ι) :=
  match sourceOf parseIp segment, destinationOf parseIp segment with
  | some source, some destination => some (.new source destination)
  | _, _ => none

end Endpoints

namespace FlowDecoders

variable {ι σ : Type} [LinearOrder ι] (parseIp : String → Option ι) (app : Application σ)
  (d : FlowDecoders ι σ) (segment : TcpSegment)

/-- A new flow, whose client is the source unless the segment is known to come back. -/
def start (direction : Option ProcessFlowDirection) : FlowDecoders ι σ where
  client := if direction = some .remoteToLocal then destinationOf parseIp segment
    else sourceOf parseIp segment
  server := if direction = some .remoteToLocal then sourceOf parseIp segment
    else destinationOf parseIp segment
  application := app.start
  clientAssembler := .new
  serverAssembler := .new
  clientClosed := false
  serverClosed := false

/-- The direction of a segment, and the endpoints as it shows them. -/
def orient (attributed : Option ProcessFlowDirection) : Direction × FlowDecoders ι σ :=
  let source := sourceOf parseIp segment
  let destination := destinationOf parseIp segment
  match attributed with
  | some .localToRemote => (.clientToServer, { d with client := source, server := destination })
  | some .remoteToLocal => (.serverToClient, { d with client := destination, server := source })
  | none =>
      if source = d.client ∧ destination = d.server then (.clientToServer, d)
      else if source = d.server ∧ destination = d.client then (.serverToClient, d)
      else if looksLikeRequest segment.payload || segment.syn then
        (.clientToServer, { d with client := source, server := destination })
      else (.serverToClient, d)

def assembler : Direction → TcpAssembler
  | .clientToServer => d.clientAssembler
  | .serverToClient => d.serverAssembler

def setAssembler (a : TcpAssembler) : Direction → FlowDecoders ι σ
  | .clientToServer => { d with clientAssembler := a }
  | .serverToClient => { d with serverAssembler := a }

def setClosed : Direction → FlowDecoders ι σ
  | .clientToServer => { d with clientClosed := true }
  | .serverToClient => { d with serverClosed := true }

end FlowDecoders

/-- What is pushed into the assembler; a SYN takes a sequence number. -/
def TcpSegment.toSegment (segment : TcpSegment) : Segment :=
  ⟨wrappingAdd SEQUENCE_SPACE segment.sequence segment.syn.toNat, segment.payload, segment.fin,
    segment.rst⟩

def finishReason : Direction → String
  | .clientToServer => "client_stream_finish_with_gap"
  | .serverToClient => "server_stream_finish_with_gap"

/-- A finished assembler reports a gap. -/
def gapOf (reason : String) (lostBytes : Option ℕ) : AssemblerResult → List FlowItem
  | .gapDetected | .conflictDetected => [.gap reason lostBytes]
  | .pending | .advanced _ => []

namespace FlowDecoders

variable {ι σ : Type} [LinearOrder ι] (parseIp : String → Option ι) (app : Application σ)
  (d : FlowDecoders ι σ) (segment : TcpSegment)

/-- The result of the assembler: delivered bytes are processed, anything else is a gap or
waits. -/
def accept (t : Tick) (direction : Direction) : List FlowItem × Option (FlowDecoders ι σ) :=
  let pushed := (d.assembler direction).pushSegment SEQUENCE_SPACE segment.toSegment
  let d := d.setAssembler pushed.2 direction
  match pushed.1 with
  | .advanced chunk =>
      let processed := app.processBytes t d.application direction chunk.bytes
      (processed.1.map .exchange,
        processed.2.map fun application => { d with application })
  | result => (gapOf "tcp_reassembly_gap" (some segment.payload.length) result, some d)

/-- A closing segment finishes its direction. -/
def close (direction : Direction) : List FlowItem × FlowDecoders ι σ :=
  if segment.fin || segment.rst then
    let finished := (d.assembler direction).finish
    (gapOf (finishReason direction) none finished.1,
      (d.setClosed direction).setAssembler finished.2 direction)
  else ([], d)

def push (t : Tick) (attributed : Option ProcessFlowDirection) :
    List FlowItem × FlowEnd (FlowDecoders ι σ) :=
  let oriented := d.orient parseIp segment attributed
  let accepted := oriented.2.accept app segment t oriented.1
  match accepted.2 with
  | none => (accepted.1, .failed)
  | some d =>
      let closed := d.close segment oriented.1
      (accepted.1 ++ closed.1,
        if closed.2.clientClosed && closed.2.serverClosed then .closed else .ready closed.2)

end FlowDecoders

/-- The decoders of the flows of a lane. -/
def flowWire {ι σ : Type} [LinearOrder ι] (parseIp : String → Option ι) (app : Application σ) :
    Wire (FlowKey ι) (FlowDecoders ι σ) where
  flowKey := flowKeyOf parseIp
  start segment direction := FlowDecoders.start parseIp app segment direction
  push t d segment direction := d.push parseIp app segment t direction

end Codexwatch.Client
