import Codexwatch.Capture.Exchange
import Codexwatch.Capture.H2
import Codexwatch.Client.Flow
import Codexwatch.Client.Messages

/-!
# The application protocols of a flow

`process_bytes` of `client/src/capture_lane.rs`. While the protocol is not known, the
bytes of both directions are kept; HTTP/1 messages are taken from these buffers, and the
HTTP/2 and WebSocket decoders are given the bytes of the segment.

The header compression, the paths of URIs and the order in which the streams of a
connection are walked are parameters, beside those of the decoders of messages.

## Main definitions

* `ProtocolState`, `FlowProtocol` — the part of a flow that bytes change.
* `consumeHttp1`, `consumeH2`, `consumeWebsocket` — the protocols.
* `processBytes`, `protocols` — the bytes of a segment.

## Main results

* `OfDecoded.processBytes` — whatever the protocol, what a segment completes was decoded.
-/
namespace Codexwatch.Client

open Protocol Capture Framing Relational

structure ApplicationLibrary (η : Type) extends ExchangeLibrary where
  hpack : Hpack η
  /-- `Uri::path` -/
  uriPath : String → String
  /-- The order in which a map of streams is walked. -/
  streamOrder : List ℕ → List ℕ
  streamOrder_perm : ∀ streams, (streamOrder streams).Perm streams

structure RequestEnvelope where
  raw : Bytes
  observedAtMs : ℤ

structure H2StreamState where
  requestHeaders : List (String × String)
  requestBody : Bytes
  requestEnd : Bool
  responseHeaders : List (String × String)
  responseBody : Bytes
  responseEnd : Bool
  requestAtMs : ℤ

structure WebSocketRequest where
  body : Bytes
  observedAt : ℤ
  responseEvents : List String

structure WebSocketState where
  client : WebSocketDecoder
  server : WebSocketDecoder
  currentRequest : Option WebSocketRequest

inductive ProtocolState (η : Type)
  | unknown
  | http1
  | http2 (decoder : H2Decoder η)
  | webSocket (ws : WebSocketState)

/-- The part of `FlowState` that bytes change. -/
structure FlowProtocol (η : Type) where
  protocol : ProtocolState η
  clientBuffer : Bytes
  serverBuffer : Bytes
  requestQueue : List RequestEnvelope
  h2Streams : Table ℕ H2StreamState

/-- `H2StreamState::default()` -/
def H2StreamState.default : H2StreamState := ⟨[], [], false, [], [], false, 0⟩

/-- `WebSocketState::default()` -/
def WebSocketState.default : WebSocketState := ⟨.new, .new, none⟩

def ProtocolState.isUnknown {η : Type} : ProtocolState η → Bool
  | .unknown => true
  | _ => false

def ProtocolState.isHttp2 {η : Type} : ProtocolState η → Bool
  | .http2 _ => true
  | _ => false

def FlowProtocol.start {η : Type} : FlowProtocol η := ⟨.unknown, [], [], [], .empty⟩

/-- The exchanges that were completed, and the state unless there was an error. -/
abbrev Progress (σ : Type) := List DecodedExchange × Option σ

/-- What follows finds the state and the number of exchanges before it. -/
def Progress.andThen {σ τ : Type} (p : Progress σ) (f : ℕ → σ → Progress τ) : Progress τ :=
  match p.2 with
  | none => (p.1, none)
  | some s => (p.1 ++ (f p.1.length s).1, (f p.1.length s).2)

/-! ## Detection -/

def asciiLowercaseByte (b : UInt8) : UInt8 := if 65 ≤ b && b ≤ 90 then b + 32 else b

def eqIgnoreAsciiCase (a b : Bytes) : Bool := a.map asciiLowercaseByte = b.map asciiLowercaseByte

/-- `windows(n)` -/
def windows (n : ℕ) (bytes : Bytes) : List Bytes :=
  (List.range (bytes.length + 1 - n)).map fun i => (bytes.drop i).take n

def looksLikeHttp1 (bytes : Bytes) : Bool := looksLikeRequest bytes

def looksLikeHttp1Response (bytes : Bytes) : Bool := startsWith bytes "HTTP/1."

def looksLikeWebsocketHandshake (bytes : Bytes) : Bool :=
  (windows 19 bytes).any fun window => eqIgnoreAsciiCase window (asciiBytes "upgrade: websocket")

/-- The header has eighteen bytes, and so no window of nineteen bytes is one. -/
@[simp] theorem looksLikeWebsocketHandshake_eq (bytes : Bytes) :
    looksLikeWebsocketHandshake bytes = false := by
  rw [looksLikeWebsocketHandshake, List.any_eq_false]
  intro window hwindow
  obtain ⟨i, hi, rfl⟩ := List.mem_map.mp hwindow
  have hrange := List.mem_range.mp hi
  rw [eqIgnoreAsciiCase, decide_eq_true_eq]
  intro heq
  have hlength := congrArg List.length heq
  have hheader : (asciiBytes "upgrade: websocket").length = 18 := by decide
  rw [List.length_map, List.length_map, List.length_take, List.length_drop, hheader] at hlength
  omega

/-- `strip.trim_end_matches('/').ends_with("/responses")` -/
def isResponsesPath (path : String) : Bool :=
  "/responses".toList.isSuffixOf ((path.toList.reverse.dropWhile fun c => c = '/').reverse)

def isUpgrade (headers : HeaderMap) : Bool :=
  ((headers.get "upgrade").bind toStr).any fun value => Text.asciiLowercase value = "websocket"

def isWebsocketUpgrade (requestHeaders responseHeaders : HeaderMap) : Bool :=
  isUpgrade requestHeaders && isUpgrade responseHeaders

section Exchanges
variable {η : Type} (library : ApplicationLibrary η)

def isResponsesRequest (request : HttpMessage) : Bool :=
  request.uri.any fun uri => isResponsesPath (library.uriPath uri)

/-! ## HTTP/1 -/

def TERMINAL_TYPES : List String :=
  ["error", "response.completed", "response.failed", "response.incomplete", "response.cancelled"]

def payloadType (text : String) : Option String :=
  (library.parseJson (textBytes text)).toOption.bind fun json => json.getStr "type"

def hasTerminalSseEvent (body : Bytes) : Bool :=
  match parseSseEvents body with
  | .error _ => false
  | .ok events => events.any fun event =>
      (payloadType library event.data).any fun kind => kind ∈ TERMINAL_TYPES

def isEventStream (headers : HeaderMap) : Bool :=
  ((headers.get "content-type").bind toStr).any fun value =>
    "text/event-stream".toList <:+: (Text.asciiLowercase value).toList

/-- A response, or all of the buffer when it has a terminal event. -/
def tryTakeHttp1ResponseOrTerminal (buffer : Bytes) :
    Except HttpParseError (Option (Bytes × Bytes)) :=
  match tryTakeHttp1Message library.toHttpLibrary false buffer with
  | .error e => .error e
  | .ok (some taken) => .ok (some taken)
  | .ok none =>
      if (findHeaderEnd buffer).isNone then .ok none
      else
        match parseHttpResponse library.toHttpLibrary buffer with
        | .error e => .error e
        | .ok response =>
            .ok (if isEventStream response.headers &&
                hasTerminalSseEvent library response.body.decoded then some (buffer, [])
              else none)

def RESPONSE_PREFIX : Bytes := asciiBytes "HTTP/1."

/-- How many bytes at the end may begin a response. -/
def partialPrefix (buffer : Bytes) : ℕ :=
  (((List.range' 1 (min buffer.length RESPONSE_PREFIX.length)).reverse.find? fun length =>
    (RESPONSE_PREFIX.take length).isSuffixOf buffer)).getD 0

/-- Drops what stands before the next response. -/
def alignHttp1Response (buffer : Bytes) : Bytes :=
  if RESPONSE_PREFIX.isPrefixOf buffer || buffer.isEmpty then buffer
  else
    match position RESPONSE_PREFIX buffer with
    | some offset => buffer.drop offset
    | none => buffer.drop (buffer.length - partialPrefix buffer)

theorem partialPrefix_of_prefix {buffer : Bytes} (h : buffer <+: RESPONSE_PREFIX) :
    partialPrefix buffer = buffer.length := by
  have hmin : min buffer.length RESPONSE_PREFIX.length = buffer.length := min_eq_left h.length_le
  rw [partialPrefix, hmin]
  cases hlength : buffer.length with
  | zero => rfl
  | succ n =>
      have htake : RESPONSE_PREFIX.take (1 + 1 * n) = buffer := by
        rw [List.prefix_iff_eq_take.mp h, hlength]
        simp [Nat.add_comm]
      rw [List.range'_concat, List.reverse_append, List.reverse_singleton,
        List.singleton_append, List.find?_cons_of_pos]
      · simp [Nat.add_comm]
      · rw [htake]
        simp

/-- A part of a response is aligned. -/
theorem alignHttp1Response_of_prefix {buffer response : Bytes} (h : buffer <+: response)
    (hresponse : RESPONSE_PREFIX <+: response) : alignHttp1Response buffer = buffer := by
  rw [alignHttp1Response]
  by_cases hstart : RESPONSE_PREFIX <+: buffer
  · rw [if_pos (by simp [List.isPrefixOf_iff_prefix, hstart])]
  · have hpart : buffer <+: RESPONSE_PREFIX :=
      (List.prefix_or_prefix_of_prefix h hresponse).resolve_right hstart
    split
    · rfl
    · have hlt : buffer.length < RESPONSE_PREFIX.length := by
        refine lt_of_le_of_ne hpart.length_le fun hlength => hstart ?_
        rw [hpart.eq_of_length hlength]
      have hnone : position RESPONSE_PREFIX buffer = none := by
        cases hposition : position RESPONSE_PREFIX buffer with
        | none => rfl
        | some offset =>
            have hle := add_length_le_of_position hposition
            omega
      rw [hnone, partialPrefix_of_prefix hpart]
      simp

def exchangeOf (attemptId : Uuid) (requestRaw responseRaw : Bytes)
    (request response : HttpMessage) (requestAtMs : ℤ) : Option DecodedExchange :=
  (decodeExchange library.toExchangeLibrary attemptId requestRaw responseRaw
    requestAtMs).toOption.map fun attempt =>
      { attempt
        requestBody := request.body.decoded
        responseBody := response.body.decoded
        requestHeaders := headersToMap request.headers
        responseHeaders := headersToMap response.headers
        responseStatus := response.status }

/-- What a response means to its request. -/
inductive Answer
  | upgraded
  | skipped
  | exchange (exchange : DecodedExchange)

def answerOf (attemptId : Uuid) (request : RequestEnvelope) (responseRaw : Bytes) :
    Option Answer := do
  let requestMsg ← (parseHttpRequest library.toHttpLibrary request.raw).toOption
  let responseMsg ← (parseHttpResponse library.toHttpLibrary responseRaw).toOption
  if responseMsg.status = some 101 && isWebsocketUpgrade requestMsg.headers responseMsg.headers then
    some .upgraded
  else if !isResponsesRequest library requestMsg then some .skipped
  else
    (exchangeOf library attemptId request.raw responseRaw requestMsg responseMsg
      request.observedAtMs).map .exchange

end Exchanges

section Protocols
variable {η : Type} (library : ApplicationLibrary η) (t : Tick)

/-- The loop over the queue: its requests are answered in order, as far as responses are there. -/
def answerRequests : ℕ → List RequestEnvelope → FlowProtocol η → Progress (FlowProtocol η)
  | _, [], state => ([], some { state with requestQueue := [] })
  | index, request :: queue, state =>
      let buffer := alignHttp1Response state.serverBuffer
      match tryTakeHttp1ResponseOrTerminal library buffer with
      | .error _ => ([], none)
      | .ok none =>
          ([], some { state with serverBuffer := buffer, requestQueue := request :: queue })
      | .ok (some (responseRaw, rest)) =>
          let state := { state with serverBuffer := rest }
          match answerOf library (t.ids (.attempt index)) request responseRaw with
          | none => ([], none)
          | some .upgraded =>
              answerRequests index queue { state with protocol := .webSocket .default }
          | some .skipped => answerRequests index queue state
          | some (.exchange exchange) =>
              let answered := answerRequests (index + 1) queue state
              (exchange :: answered.1, answered.2)

def consumeHttp1 (state : FlowProtocol η) : Progress (FlowProtocol η) :=
  match drain (tryTakeHttp1Message library.toHttpLibrary true) (state.clientBuffer.length + 1)
      state.clientBuffer with
  | .error _ => ([], none)
  | .ok (requests, rest) =>
      answerRequests library t 0 (state.requestQueue ++ requests.map fun raw => ⟨raw, t.nowMs⟩)
        { state with clientBuffer := rest }

/-! ## HTTP/2 -/

/-- `header_value` -/
def headerValue (headers : List (String × String)) (name : String) : Option String :=
  (headers.find? fun header => Text.asciiLowercase header.1 = Text.asciiLowercase name).map
    Prod.snd

/-- The lines of the headers that are no pseudo-headers. -/
def headerLines (headers : List (String × String)) : Bytes :=
  (headers.filter fun header => header.1.toList.head? ≠ some ':').flatMap fun header =>
    textBytes header.1 ++ asciiBytes ": " ++ textBytes header.2 ++ CRLF

def lengthLine (body : Bytes) : Bytes :=
  asciiBytes ("Content-Length: " ++ body.length.repr) ++ CRLF ++ CRLF

def synthesizeH2Request (headers : List (String × String)) (body : Bytes) : Bytes :=
  let method := (headerValue headers ":method").getD "POST"
  let path := (headerValue headers ":path").getD "/v1/responses"
  textBytes method ++ asciiBytes " " ++ textBytes path ++ asciiBytes " HTTP/1.1" ++ CRLF ++
    headerLines headers ++ lengthLine body ++ body

def synthesizeH2Response (headers : List (String × String)) (body : Bytes) : Bytes :=
  let status := (headerValue headers ":status").getD "200"
  asciiBytes "HTTP/1.1 " ++ textBytes status ++ asciiBytes " OK" ++ CRLF ++
    headerLines headers ++ lengthLine body ++ body

/-- What a direction's headers add to a stream. -/
def H2StreamState.addHeaders (stream : H2StreamState) (direction : Direction)
    (block : H2HeaderBlock) : H2StreamState :=
  match direction with
  | .clientToServer => { stream with
      requestHeaders := stream.requestHeaders ++ block.headers
      requestEnd := block.endStream
      requestAtMs := if stream.requestAtMs = 0 then t.nowMs else stream.requestAtMs }
  | .serverToClient => { stream with
      responseHeaders := stream.responseHeaders ++ block.headers
      responseEnd := block.endStream }

def H2StreamState.addData (stream : H2StreamState) (direction : Direction) (payload : Bytes)
    (endStream : Bool) : H2StreamState :=
  match direction with
  | .clientToServer => { stream with
      requestBody := stream.requestBody ++ payload
      requestEnd := stream.requestEnd || endStream
      requestAtMs := if stream.requestAtMs = 0 then t.nowMs else stream.requestAtMs }
  | .serverToClient => { stream with
      responseBody := stream.responseBody ++ payload
      responseEnd := stream.responseEnd || endStream }

def absorb (direction : Direction) (streams : Table ℕ H2StreamState) :
    H2Event → Table ℕ H2StreamState
  | .headers block =>
      let stream := (streams.get? block.streamId).getD .default
      streams.put block.streamId (stream.addHeaders t direction block)
  | .data streamId payload endStream =>
      let stream := (streams.get? streamId).getD .default
      streams.put streamId (stream.addData t direction payload endStream)
  | .priority _ | .rstStream _ _ | .goAway _ _ _ => streams

def H2StreamState.isComplete (stream : H2StreamState) : Bool :=
  stream.requestEnd && stream.responseEnd && !stream.requestHeaders.isEmpty &&
    !stream.responseHeaders.isEmpty

def completeStreams (streams : Table ℕ H2StreamState) : List ℕ :=
  library.streamOrder ((streams.rows.filter fun r => r.2.isComplete).map Prod.fst)

/-- The exchange of a stream, if it is one of `responses`. -/
def streamExchangeOf (attemptId : Uuid) (stream : H2StreamState) :
    Option (Option DecodedExchange) := do
  let requestRaw := synthesizeH2Request stream.requestHeaders stream.requestBody
  let responseRaw := synthesizeH2Response stream.responseHeaders stream.responseBody
  let requestMsg ← (parseHttpRequest library.toHttpLibrary requestRaw).toOption
  let responseMsg ← (parseHttpResponse library.toHttpLibrary responseRaw).toOption
  if !isResponsesRequest library requestMsg then some none
  else
    (exchangeOf library attemptId requestRaw responseRaw requestMsg responseMsg
      stream.requestAtMs).map some

/-- The loop over the complete streams. -/
def takeStreams : ℕ → List ℕ → Table ℕ H2StreamState → Progress (Table ℕ H2StreamState)
  | _, [], streams => ([], some streams)
  | index, streamId :: streamIds, streams =>
      match streams.get? streamId with
      | none => takeStreams index streamIds streams
      | some stream =>
          let streams := streams.deleteWhere fun k _ => k = streamId
          match streamExchangeOf library (t.ids (.attempt index)) stream with
          | none => ([], none)
          | some none => takeStreams index streamIds streams
          | some (some exchange) =>
              let taken := takeStreams (index + 1) streamIds streams
              (exchange :: taken.1, taken.2)

/-- The decoder of a direction. -/
def pushH2 (decoder : H2Decoder η) (direction : Direction) (bytes : Bytes) :
    Except H2DecodeError (List H2Event × H2Decoder η) :=
  match direction with
  | .clientToServer => decoder.pushClient library.hpack bytes
  | .serverToClient => decoder.pushServer library.hpack bytes

def consumeH2 (state : FlowProtocol η) (decoder : H2Decoder η) (direction : Direction)
    (bytes : Bytes) : Progress (FlowProtocol η) :=
  match pushH2 library decoder direction bytes with
  | .error _ => ([], none)
  | .ok (events, decoder) =>
      let streams := events.foldl (absorb t direction) state.h2Streams
      let taken := takeStreams library t 0 (completeStreams library streams) streams
      (taken.1, taken.2.map fun streams =>
        { state with protocol := .http2 decoder, h2Streams := streams })

/-! ## WebSocket -/

def synthesizeWsRequest (body : Bytes) : Bytes :=
  asciiBytes "POST /v1/responses HTTP/1.1" ++ CRLF ++ asciiBytes "Content-Type: application/json" ++
    CRLF ++ lengthLine body ++ body

def synthesizeWsResponse (events : List String) : Bytes :=
  let body := events.flatMap fun event =>
    asciiBytes "event: message\ndata: " ++ textBytes event ++ asciiBytes "\n\n"
  asciiBytes "HTTP/1.1 200 OK" ++ CRLF ++ asciiBytes "Content-Type: text/event-stream" ++ CRLF ++
    lengthLine body ++ body

/-- `error` ends no request here. -/
def isTerminalMessage (text : String) : Bool :=
  (payloadType library text).any fun kind =>
    kind ∈ ["response.completed", "response.failed", "response.incomplete", "response.cancelled"]

def wsExchangeOf (attemptId : Uuid) (request : WebSocketRequest) : Option DecodedExchange := do
  let requestRaw := synthesizeWsRequest request.body
  let responseRaw := synthesizeWsResponse request.responseEvents
  let requestMsg ← (parseHttpRequest library.toHttpLibrary requestRaw).toOption
  let responseMsg ← (parseHttpResponse library.toHttpLibrary responseRaw).toOption
  exchangeOf library attemptId requestRaw responseRaw requestMsg responseMsg request.observedAt

/-- A text message of the server goes to the request that waits for it. -/
def acceptServerText (index : ℕ) (current : Option WebSocketRequest) (payload : Bytes) :
    Progress (Option WebSocketRequest) :=
  match current with
  | none => ([], some none)
  | some request =>
      let text := Text.fromUtf8Lossy payload
      if (Text.trimStart text).toList.head? ≠ some '{' then ([], some (some request))
      else
        let request := { request with responseEvents := request.responseEvents ++ [text] }
        if !isTerminalMessage library text then ([], some (some request))
        else
          match wsExchangeOf library (t.ids (.attempt index)) request with
          | none => ([], none)
          | some exchange => ([exchange], some none)

/-- Messages that are no text are left out. -/
def acceptFrame (direction : Direction) (index : ℕ) (current : Option WebSocketRequest)
    (frame : WebSocketFrame) : Progress (Option WebSocketRequest) :=
  if frame.opcode ≠ 1 then ([], some current)
  else
    match direction with
    | .clientToServer => ([], some (some ⟨frame.payload, t.nowMs, []⟩))
    | .serverToClient => acceptServerText library t index current frame.payload

def acceptFrames (direction : Direction) :
    ℕ → Option WebSocketRequest → List WebSocketFrame → Progress (Option WebSocketRequest)
  | _, current, [] => ([], some current)
  | index, current, frame :: frames =>
      (acceptFrame library t direction index current frame).andThen fun completed current =>
        acceptFrames direction (index + completed) current frames

/-- The decoder of a direction. -/
def pushWs (ws : WebSocketState) (direction : Direction) (bytes : Bytes) :
    Except WebSocketError (List WebSocketFrame × WebSocketState) :=
  match direction with
  | .clientToServer => (ws.client.push bytes).map fun r => (r.1, { ws with client := r.2 })
  | .serverToClient => (ws.server.push bytes).map fun r => (r.1, { ws with server := r.2 })

def consumeWebsocket (state : FlowProtocol η) (ws : WebSocketState) (direction : Direction)
    (bytes : Bytes) : Progress (FlowProtocol η) :=
  match pushWs ws direction bytes with
  | .error _ => ([], none)
  | .ok (frames, ws) =>
      (acceptFrames library t direction 0 ws.currentRequest frames).andThen fun _ current =>
        ([], some { state with protocol := .webSocket { ws with currentRequest := current } })

/-! ## The bytes of a segment -/

/-- Both directions are kept in full while the protocol is not known. -/
def FlowProtocol.buffered {η : Type} (state : FlowProtocol η) (direction : Direction)
    (bytes : Bytes) : FlowProtocol η :=
  match direction with
  | .clientToServer => { state with clientBuffer := state.clientBuffer ++ bytes }
  | .serverToClient => { state with serverBuffer := state.serverBuffer ++ bytes }

section Buffered
variable (state : FlowProtocol η) (direction : Direction) (bytes : Bytes)

@[simp] theorem protocol_buffered :
    (state.buffered direction bytes).protocol = state.protocol := by
  cases direction <;> rfl

@[simp] theorem requestQueue_buffered :
    (state.buffered direction bytes).requestQueue = state.requestQueue := by
  cases direction <;> rfl

@[simp] theorem h2Streams_buffered :
    (state.buffered direction bytes).h2Streams = state.h2Streams := by
  cases direction <;> rfl

end Buffered

/-- The protocol that the buffers show. -/
def detect (state : FlowProtocol η) : ProtocolState η :=
  match state.protocol with
  | .unknown =>
      if startsWith state.clientBuffer "PRI * HTTP/2.0" then .http2 (.new library.hpack)
      else if looksLikeWebsocketHandshake state.clientBuffer || looksLikeHttp1 state.clientBuffer ||
          looksLikeHttp1Response state.serverBuffer then .http1
      else .unknown
  | protocol => protocol

def processBytes (state : FlowProtocol η) (direction : Direction) (bytes : Bytes) :
    Progress (FlowProtocol η) :=
  let state := state.buffered direction bytes
  let protocol := detect library state
  let state := { state with protocol }
  match protocol with
  | .unknown => ([], some state)
  | .http1 => consumeHttp1 library t state
  | .http2 decoder => consumeH2 library t state decoder direction bytes
  | .webSocket ws => consumeWebsocket library t state ws direction bytes

end Protocols

/-- The application protocols of a flow. -/
def protocols {η : Type} (library : ApplicationLibrary η) : Application (FlowProtocol η) where
  start := .start
  processBytes := processBytes library

/-! ## What is completed -/

section Completed
variable {η : Type} {library : ApplicationLibrary η} {P : DecodedExchange → Prop}

/-- `P` holds of every exchange that is decoded. -/
def OfDecoded (library : ApplicationLibrary η) (P : DecodedExchange → Prop) : Prop :=
  ∀ attemptId requestRaw responseRaw request response requestAtMs exchange,
    exchangeOf library attemptId requestRaw responseRaw request response requestAtMs =
      some exchange → P exchange

theorem OfDecoded.answerOf (h : OfDecoded library P) {attemptId : Uuid} {request : RequestEnvelope}
    {responseRaw : Bytes} {exchange : DecodedExchange}
    (hanswer : answerOf library attemptId request responseRaw = some (.exchange exchange)) :
    P exchange := by
  simp only [Client.answerOf, Option.bind_eq_bind, Option.bind_eq_some_iff] at hanswer
  obtain ⟨requestMsg, -, responseMsg, -, hanswer⟩ := hanswer
  split at hanswer
  · cases hanswer
  · split at hanswer
    · cases hanswer
    · obtain ⟨decoded, hdecoded, heq⟩ := Option.map_eq_some_iff.mp hanswer
      cases heq
      exact h _ _ _ _ _ _ _ hdecoded

theorem OfDecoded.answerRequests (h : OfDecoded library P) (t : Tick) (index : ℕ)
    (queue : List RequestEnvelope) (state : FlowProtocol η) :
    ∀ exchange ∈ (answerRequests library t index queue state).1, P exchange := by
  induction queue generalizing index state with
  | nil => simp [Client.answerRequests]
  | cons request queue ih =>
      intro exchange hmem
      rw [Client.answerRequests] at hmem
      dsimp only at hmem
      split at hmem
      · cases hmem
      · cases hmem
      · split at hmem
        · cases hmem
        · exact ih _ _ exchange hmem
        · exact ih _ _ exchange hmem
        · rename_i hanswer
          obtain rfl | hmem := List.mem_cons.mp hmem
          · exact h.answerOf hanswer
          · exact ih _ _ exchange hmem

theorem OfDecoded.takeStreams (h : OfDecoded library P) (t : Tick) (index : ℕ)
    (streamIds : List ℕ) (streams : Table ℕ H2StreamState) :
    ∀ exchange ∈ (takeStreams library t index streamIds streams).1, P exchange := by
  induction streamIds generalizing index streams with
  | nil => simp [Client.takeStreams]
  | cons streamId streamIds ih =>
      intro exchange hmem
      rw [Client.takeStreams] at hmem
      split at hmem
      · exact ih _ _ exchange hmem
      · dsimp only at hmem
        split at hmem
        · cases hmem
        · exact ih _ _ exchange hmem
        · rename_i hexchange
          obtain rfl | hmem := List.mem_cons.mp hmem
          · simp only [streamExchangeOf, Option.bind_eq_bind, Option.bind_eq_some_iff] at hexchange
            obtain ⟨requestMsg, -, responseMsg, -, hexchange⟩ := hexchange
            split at hexchange
            · cases hexchange
            · obtain ⟨decoded, hdecoded, heq⟩ := Option.map_eq_some_iff.mp hexchange
              cases heq
              exact h _ _ _ _ _ _ _ hdecoded
          · exact ih _ _ exchange hmem

theorem Progress.forall_andThen {σ τ : Type} {p : Progress σ} {f : ℕ → σ → Progress τ}
    (hp : ∀ exchange ∈ p.1, P exchange) (hf : ∀ index s, ∀ exchange ∈ (f index s).1, P exchange) :
    ∀ exchange ∈ (p.andThen f).1, P exchange := by
  intro exchange hmem
  rw [andThen] at hmem
  split at hmem
  · exact hp exchange hmem
  · exact (List.mem_append.mp hmem).elim (hp exchange) (hf _ _ exchange)

theorem OfDecoded.acceptServerText (h : OfDecoded library P) (t : Tick) (index : ℕ)
    (request : WebSocketRequest) (payload : Bytes) :
    ∀ exchange ∈ (acceptServerText library t index (some request) payload).1, P exchange := by
  intro exchange hmem
  simp only [Client.acceptServerText] at hmem
  split at hmem
  · cases hmem
  · split at hmem
    · cases hmem
    · split at hmem
      · cases hmem
      · rename_i hexchange
        obtain rfl := List.mem_singleton.mp hmem
        simp only [wsExchangeOf, Option.bind_eq_bind, Option.bind_eq_some_iff] at hexchange
        obtain ⟨requestMsg, -, responseMsg, -, hdecoded⟩ := hexchange
        exact h _ _ _ _ _ _ _ hdecoded

theorem OfDecoded.acceptFrame (h : OfDecoded library P) (t : Tick) (direction : Direction)
    (index : ℕ) (current : Option WebSocketRequest) (frame : WebSocketFrame) :
    ∀ exchange ∈ (acceptFrame library t direction index current frame).1, P exchange := by
  intro exchange hmem
  unfold Client.acceptFrame at hmem
  split at hmem
  · cases hmem
  · match direction, current with
    | .clientToServer, _ => cases hmem
    | .serverToClient, none => cases hmem
    | .serverToClient, some request => exact h.acceptServerText t index request _ exchange hmem

theorem OfDecoded.acceptFrames (h : OfDecoded library P) (t : Tick) (direction : Direction)
    (index : ℕ) (current : Option WebSocketRequest) (frames : List WebSocketFrame) :
    ∀ exchange ∈ (acceptFrames library t direction index current frames).1, P exchange := by
  induction frames generalizing index current with
  | nil => simp [Client.acceptFrames]
  | cons frame frames ih =>
      exact Progress.forall_andThen (h.acceptFrame t direction index current frame)
        fun _ _ => ih _ _

/-- Whatever the protocol, what a segment completes was decoded. -/
theorem OfDecoded.processBytes (h : OfDecoded library P) (t : Tick) (state : FlowProtocol η)
    (direction : Direction) (bytes : Bytes) :
    ∀ exchange ∈ (processBytes library t state direction bytes).1, P exchange := by
  intro exchange hmem
  simp only [Client.processBytes] at hmem
  split at hmem
  · cases hmem
  · rw [consumeHttp1] at hmem
    split at hmem
    · cases hmem
    · exact h.answerRequests t _ _ _ exchange hmem
  · rw [consumeH2] at hmem
    split at hmem
    · cases hmem
    · exact h.takeStreams t _ _ _ exchange hmem
  · rw [consumeWebsocket] at hmem
    split at hmem
    · cases hmem
    · exact Progress.forall_andThen (h.acceptFrames t _ _ _ _) (fun _ _ _ hnil => by cases hnil)
        exchange hmem

/-- Every exchange is of the one provider. -/
theorem ofDecoded_provider (library : ApplicationLibrary η) :
    OfDecoded library fun exchange => exchange.attempt.identity.provider = "codex" := by
  intro attemptId requestRaw responseRaw request response requestAtMs exchange hexchange
  obtain ⟨attempt, hattempt, rfl⟩ := Option.map_eq_some_iff.mp hexchange
  cases hdecoded : decodeExchange library.toExchangeLibrary attemptId requestRaw responseRaw
    requestAtMs with
  | error e =>
      rw [hdecoded] at hattempt
      cases hattempt
  | ok decoded =>
      rw [hdecoded] at hattempt
      cases hattempt
      simp only [decodeExchange, Check.bind_eq_ok, Check.pure_eq_ok] at hdecoded
      obtain ⟨_, -, _, -, _, -, _, -, _, -, rfl⟩ := hdecoded
      rfl

end Completed

/-! ## A small library -/

/-- A library that knows some heads, some documents, and `:method GET` of the static table. -/
def knownLibrary (requests responses : List (Bytes × ParsedHead))
    (documents : List (Bytes × Json)) : ApplicationLibrary Unit where
  parseRequest bytes := (requests.find? fun head => head.1.isPrefixOf bytes).map Prod.snd
  parseResponse bytes := (responses.find? fun head => head.1.isPrefixOf bytes).map Prod.snd
  isMethod _ := true
  isUri _ := true
  headerName name := some (Text.asciiLowercase name)
  isHeaderValue _ := true
  gunzip raw := if raw = [] then .error "unexpected end of file" else .ok raw
  brotli raw := if raw = [] then .error "unexpected end of file" else .ok raw
  unzstd raw := .ok raw
  parseJson bytes := match documents.find? fun document => document.1 = bytes with
    | none => .error "expected value"
    | some document => .ok document.2
  jsonText _ := "{}"
  hpack := {
    new := ()
    decode := fun _ block =>
      if block = [0x82] then .ok ([(asciiBytes ":method", asciiBytes "GET")], ())
      else .error "InvalidHuffmanCode" }
  uriPath uri := uri
  streamOrder := id
  streamOrder_perm := List.Perm.refl

/-- A head as the library reads it: the status line or request line and the headers. -/
def headOf (line : String) (headers : List (String × String)) : Bytes :=
  asciiBytes line ++ CRLF ++ (headers.flatMap fun header =>
    asciiBytes header.1 ++ asciiBytes ": " ++ asciiBytes header.2 ++ CRLF) ++ CRLF

def requestHead (method path : String) (headers : List (String × String)) : Bytes × ParsedHead :=
  let bytes := headOf (method ++ " " ++ path ++ " HTTP/1.1") headers
  (bytes, ⟨bytes.length, some 1, some method, some path, none,
    headers.map fun header => (header.1, asciiBytes header.2)⟩)

def responseHead (code : ℕ) (reason : String) (headers : List (String × String)) :
    Bytes × ParsedHead :=
  let bytes := headOf ("HTTP/1.1 " ++ code.repr ++ " " ++ reason) headers
  (bytes, ⟨bytes.length, some 1, none, none, some code,
    headers.map fun header => (header.1, asciiBytes header.2)⟩)

end Codexwatch.Client
