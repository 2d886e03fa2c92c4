import Codexwatch.Capture.Http1
import Codexwatch.Lib.Streaming

/-!
# Server-sent events

`SseDecoder` of `capture/src/sse.rs`: a line at a time, an event at each empty line, and
at the end of the stream what is left.

## Main definitions

* `SseDecoder.push`, `SseDecoder.finish`.
* `parseSseEvents` — the events of a body.
-/
namespace Codexwatch.Capture

open Protocol

structure SseEvent where
  event : Option String
  data : String
  deriving DecidableEq

inductive SseError
  | invalidUtf8
  deriving DecidableEq

structure EventBuilder where
  event : Option String
  dataLines : List String
  deriving DecidableEq

structure SseDecoder where
  buffer : Bytes
  current : EventBuilder
  deriving DecidableEq

/-- `EventBuilder::default()` -/
def EventBuilder.none : EventBuilder := ⟨.none, []⟩

namespace EventBuilder

/-- The event, and the builder that is left. -/
def finish (current : EventBuilder) : List SseEvent × EventBuilder :=
  if current.event = .none ∧ current.dataLines = [] then ([], current)
  else ([⟨current.event, "\n".intercalate current.dataLines⟩], EventBuilder.none)

/-- What `event:` and `data:` lines leave. -/
def field (current : EventBuilder) (line : String) : EventBuilder :=
  match Text.stripPrefix "event:" line with
  | some rest => { current with event := some (Text.trim rest) }
  | .none =>
      match Text.stripPrefix "data:" line with
      | some rest => { current with dataLines := current.dataLines ++ [Text.trimStart rest] }
      | .none => current

/-- One whole line; a comment begins with a colon. -/
def line (current : EventBuilder) (line : String) : List SseEvent × EventBuilder :=
  if line = "" then current.finish
  else if line.toList.head? = some ':' then ([], current)
  else ([], current.field line)

end EventBuilder

namespace SseDecoder

def new : SseDecoder := ⟨[], EventBuilder.none⟩

/-- The bytes of a line without its end. -/
def chomp (line : Bytes) : Bytes :=
  if line.getLast? = some 13 then line.dropLast else line

/-- The body of the loop in `push`. -/
def next (d : SseDecoder) : Except SseError (Option (List SseEvent × SseDecoder)) :=
  match d.buffer.idxOf? 10 with
  | none => .ok none
  | some lineEnd =>
      match fromUtf8 (chomp (d.buffer.take lineEnd)) with
      | none => .error .invalidUtf8
      | some line =>
          let built := d.current.line line
          .ok (some (built.1, ⟨d.buffer.drop (lineEnd + 1), built.2⟩))

def decoder : Streaming.Decoder SseDecoder UInt8 SseEvent SseError where
  append d bytes := { d with buffer := d.buffer ++ bytes }
  pending d := d.buffer.length
  next := next

def push (d : SseDecoder) (bytes : Bytes) : Except SseError (List SseEvent × SseDecoder) :=
  decoder.push d bytes

/-- The last line may have no end, and the last event no empty line. -/
def finish (d : SseDecoder) : Except SseError (List SseEvent) :=
  if d.buffer = [] then .ok d.current.finish.1
  else
    match fromUtf8 d.buffer with
    | none => .error .invalidUtf8
    | some line => .ok (d.current.field line).finish.1

end SseDecoder

def parseSseEvents (bytes : Bytes) : Except SseError (List SseEvent) :=
  (SseDecoder.new.push bytes).bind fun pushed =>
    pushed.2.finish.map fun events => pushed.1 ++ events

example : parseSseEvents (": keepalive\nevent: a\ndata: one\ndata:  two\n\ndata: three".toList.map
    fun c => c.toNat.toUInt8) = .ok [⟨some "a", "one\ntwo"⟩, ⟨none, "three"⟩] := by
  decide +kernel

end Codexwatch.Capture
