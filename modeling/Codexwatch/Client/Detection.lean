import Codexwatch.Client.Application
import Codexwatch.Lib.Run

/-!
# Protocol detection

The bytes of a flow pass from the buffers to a decoder in the middle of a run. What the
buffers hold at that moment is not given to the decoder: the HTTP/2 decoder begins with
the segment that completes `PRI * HTTP/2.0`, and a WebSocket decoder with the segment after
the one that completes the upgrade. Where nothing stands in the buffers, the frames of
both directions are those of the whole streams.

## Main definitions

* `Piece`, `receivePiece` — the bytes of a segment, and the flow after them.
* `bytesOf` — the bytes of a direction.
* `h2EventsOver`, `wsFramesOver` — what the decoders put out in a run.
* `AtPreface`, `AtUpgrade` — nothing is lost.
-/
namespace Codexwatch.Client

open Protocol Capture Framing Relational Streaming

/-- The bytes of a segment, at their moment. -/
structure Piece where
  tick : Tick
  direction : Direction
  bytes : Bytes

/-- The bytes of one direction. -/
abbrev bytesOf (direction : Direction) (pieces : List Piece) : Bytes :=
  streamOf Piece.direction Piece.bytes direction pieces

@[simp] theorem bytesOf_nil (direction : Direction) : bytesOf direction [] = [] := rfl

theorem bytesOf_cons (direction : Direction) (piece : Piece) (pieces : List Piece) :
    bytesOf direction (piece :: pieces) =
      (if piece.direction = direction then piece.bytes else []) ++ bytesOf direction pieces :=
  streamOf_cons ..

section Runs
variable {η : Type} (library : ApplicationLibrary η)

/-- A decode error loses the flow, and the next segment begins a new one. -/
def receivePiece (state : FlowProtocol η) (piece : Piece) : FlowProtocol η :=
  (processBytes library piece.tick state piece.direction piece.bytes).2.getD .start

/-- The protocol that the piece finds. -/
def protocolFor (state : FlowProtocol η) (piece : Piece) : ProtocolState η :=
  detect library (state.buffered piece.direction piece.bytes)

/-- The events that `consume_h2` decodes of a piece. -/
def h2Events (state : FlowProtocol η) (piece : Piece) : List H2Event :=
  match protocolFor library state piece with
  | .http2 decoder =>
      match pushH2 library decoder piece.direction piece.bytes with
      | .ok (events, _) => events
      | .error _ => []
  | _ => []

/-- The messages that `consume_websocket` decodes of a piece. -/
def wsFrames (state : FlowProtocol η) (piece : Piece) : List WebSocketFrame :=
  match protocolFor library state piece with
  | .webSocket ws =>
      match pushWs ws piece.direction piece.bytes with
      | .ok (frames, _) => frames
      | .error _ => []
  | _ => []

/-- What `consume_h2` decodes of a direction in a run. -/
abbrev h2EventsOver : Direction → FlowProtocol η → List Piece → List H2Event :=
  gather Piece.direction (receivePiece library) (h2Events library)

/-- What `consume_websocket` decodes of a direction in a run. -/
abbrev wsFramesOver : Direction → FlowProtocol η → List Piece → List WebSocketFrame :=
  gather Piece.direction (receivePiece library) (wsFrames library)

/-- The decoder of a direction, given its whole stream. -/
def wholeH2 (direction : Direction) (stream : Bytes) :
    Except H2DecodeError (List H2Event × DirectionState η) :=
  (DirectionState.default library.hpack).push library.hpack (direction = .clientToServer) stream

def wholeWs (stream : Bytes) : Except WebSocketError (List WebSocketFrame × WebSocketDecoder) :=
  WebSocketDecoder.new.push stream

end Runs

/-! ## HTTP/2 -/

section Http2
variable {η : Type} (library : ApplicationLibrary η)

/-- The streams are those of a connection with prior knowledge. -/
structure SpeaksH2 (pieces : List Piece) : Prop where
  preface : CLIENT_PREFACE <+: bytesOf .clientToServer pieces
  valid : ∀ direction, ∃ r, wholeH2 library direction (bytesOf direction pieces) = .ok r

/-- The exchanges that a piece completes can be decoded. -/
def streamsDecode (state : FlowProtocol η) (piece : Piece) : Bool :=
  match protocolFor library state piece with
  | .http2 decoder =>
      match pushH2 library decoder piece.direction piece.bytes with
      | .ok (events, _) =>
          let streams := events.foldl (absorb piece.tick piece.direction) state.h2Streams
          (takeStreams library piece.tick 0 (completeStreams library streams) streams).2.isSome
      | .error _ => true
  | _ => true

/-- The segment that shows the preface begins it, and what the server sent before is whole
frames that put out nothing. -/
def AtPreface (state : FlowProtocol η) (piece : Piece) : Prop :=
  (protocolFor library state piece).isUnknown = true ∨ state.protocol.isHttp2 = true ∨
    ((protocolFor library state piece).isHttp2 = true ∧ state.clientBuffer = [] ∧
      wholeH2 library .serverToClient state.serverBuffer = .ok ([], .default library.hpack))

/-- The condition of a segment. -/
def H2Spared (state : FlowProtocol η) (piece : Piece) : Prop :=
  AtPreface library state piece ∧ streamsDecode library state piece = true

instance decidableH2Spared [DecidableEq η] (state : FlowProtocol η) (piece : Piece) :
    Decidable (H2Spared library state piece) :=
  inferInstanceAs (Decidable ((_ ∨ _ ∨ (_ ∧ _ ∧ _)) ∧ _))

/-- The decoder of one direction. -/
def h2Of (decoder : H2Decoder η) : Direction → DirectionState η
  | .clientToServer => decoder.client
  | .serverToClient => decoder.server

def h2Units (direction : Direction) : Decoder (DirectionState η) UInt8 H2Event H2DecodeError :=
  DirectionState.units library.hpack (direction = .clientToServer)

variable {library} {state : FlowProtocol η} {decoder : H2Decoder η} {piece : Piece}
  {pieces : List Piece} {direction : Direction}

theorem h2Units_steady (d : Direction) : (h2Units library d).Steady := DirectionState.steady

theorem wholeH2_eq (stream : Bytes) :
    wholeH2 library direction stream =
      (h2Units library direction).push (.default library.hpack) stream :=
  DirectionState.push_eq stream

/-- A piece goes to the decoder of its direction. -/
theorem pushH2_cases {bytes : Bytes} {r : List H2Event × DirectionState η}
    (h : (h2Units library direction).push (h2Of decoder direction) bytes = .ok r) :
    ∃ decoder', pushH2 library decoder direction bytes = .ok (r.1, decoder') ∧
      h2Of decoder' = Function.update (h2Of decoder) direction r.2 := by
  rw [h2Units, ← DirectionState.push_eq] at h
  cases direction with
  | clientToServer =>
      refine ⟨{ decoder with client := r.2 }, ?_, ?_⟩
      · have hpush : decoder.client.push library.hpack true bytes = .ok r := h
        rw [pushH2, H2Decoder.pushClient, hpush]
        rfl
      · ext d
        cases d <;> rfl
  | serverToClient =>
      refine ⟨{ decoder with server := r.2 }, ?_, ?_⟩
      · have hpush : decoder.server.push library.hpack false bytes = .ok r := h
        rw [pushH2, H2Decoder.pushServer, hpush]
        rfl
      · ext d
        cases d <;> rfl

/-- The protocol after a piece of HTTP/2, and its events. -/
theorem receive_http2 (hprotocol : protocolFor library state piece = .http2 decoder)
    {r : List H2Event × H2Decoder η}
    (hpush : pushH2 library decoder piece.direction piece.bytes = .ok r)
    (hdecode : streamsDecode library state piece = true) :
    (receivePiece library state piece).protocol = .http2 r.2 ∧ h2Events library state piece = r.1 := by
  constructor
  · simp only [streamsDecode, hprotocol, hpush] at hdecode
    obtain ⟨streams, hstreams⟩ := Option.isSome_iff_exists.mp hdecode
    rw [protocolFor] at hprotocol
    simp only [receivePiece, processBytes, hprotocol, consumeH2, hpush, h2Streams_buffered, hstreams]
    rfl
  · simp only [h2Events, hprotocol, hpush]

theorem protocolFor_http2 (h : state.protocol = .http2 decoder) :
    protocolFor library state piece = .http2 decoder := by
  rw [protocolFor, detect, protocol_buffered, h]

/-- Once the decoder is there, it is given everything. -/
theorem h2EventsOver_of_http2 (hprotocol : state.protocol = .http2 decoder)
    (hdrained : ∀ d, (h2Units library d).Drained (h2Of decoder d))
    (hdecode : Run.Each (receivePiece library)
      (fun state piece => streamsDecode library state piece = true) state pieces)
    (hvalid : ∀ d, ∃ r, (h2Units library d).push (h2Of decoder d) (bytesOf d pieces) = .ok r)
    (direction : Direction) :
    ((h2Units library direction).push (h2Of decoder direction)
      (bytesOf direction pieces)).map Prod.fst =
        .ok (h2EventsOver library direction state pieces) := by
  refine push_eq_gather h2Units_steady
    (fun state s => ∃ decoder, state.protocol = .http2 decoder ∧ s = h2Of decoder)
    ?_ ⟨decoder, hprotocol, rfl⟩ hdrained hdecode hvalid direction
  intro state s piece pushed htracks hdecode hpushed
  obtain ⟨decoder, hprotocol, rfl⟩ := htracks
  obtain ⟨decoder', hpush, hdecoder⟩ := pushH2_cases hpushed
  obtain ⟨hafter, hevents⟩ := receive_http2 (protocolFor_http2 hprotocol) hpush hdecode
  exact ⟨hevents, decoder', hafter, hdecoder.symm⟩

/-- What is kept of a direction while the protocol is not known. -/
def bufferOf (state : FlowProtocol η) : Direction → Bytes
  | .clientToServer => state.clientBuffer
  | .serverToClient => state.serverBuffer

theorem bufferOf_buffered (state : FlowProtocol η) (direction : Direction) (bytes : Bytes)
    (d : Direction) :
    bufferOf (state.buffered direction bytes) d =
      bufferOf state d ++ if direction = d then bytes else [] := by
  cases direction <;> cases d <;> simp [bufferOf, FlowProtocol.buffered]

theorem startsWith_of_preface {bytes : Bytes} (h : CLIENT_PREFACE <+: bytes) :
    startsWith bytes "PRI * HTTP/2.0" = true := by
  have hline : asciiBytes "PRI * HTTP/2.0" <+: CLIENT_PREFACE := by decide
  exact List.isPrefixOf_iff_prefix.mpr (hline.trans h)

/-- A piece that shows no protocol is kept. -/
theorem receive_unknown (h : protocolFor library state piece = .unknown) :
    receivePiece library state piece =
      { state.buffered piece.direction piece.bytes with protocol := .unknown } := by
  rw [protocolFor] at h
  simp only [receivePiece, processBytes, h]
  rfl

theorem protocol_of_detect_unknown (h : detect library state = .unknown) :
    state.protocol = .unknown ∧ startsWith state.clientBuffer "PRI * HTTP/2.0" = false := by
  rw [detect] at h
  cases hprotocol : state.protocol with
  | unknown =>
      rw [hprotocol] at h
      dsimp only at h
      split at h
      · cases h
      · rename_i hstart
        exact ⟨rfl, by simpa using hstart⟩
  | http1 => simp [hprotocol] at h
  | http2 decoder => simp [hprotocol] at h
  | webSocket ws => simp [hprotocol] at h

/-- A detected decoder is a new one. -/
theorem eq_new_of_detect (hunknown : state.protocol = .unknown)
    (h : detect library state = .http2 decoder) : decoder = .new library.hpack := by
  rw [detect, hunknown] at h
  dsimp only at h
  split at h
  · cases h
    rfl
  · split at h <;> cases h

theorem h2EventsOver_of_unknown (hunknown : state.protocol = .unknown)
    (hstart : startsWith state.clientBuffer "PRI * HTTP/2.0" = false)
    (hspared : Run.Each (receivePiece library) (H2Spared library) state pieces)
    (hpreface : CLIENT_PREFACE <+: state.clientBuffer ++ bytesOf .clientToServer pieces)
    (hvalid : ∀ d, ∃ r, wholeH2 library d (bufferOf state d ++ bytesOf d pieces) = .ok r)
    (direction : Direction) :
    (wholeH2 library direction (bufferOf state direction ++ bytesOf direction pieces)).map
      Prod.fst = .ok (h2EventsOver library direction state pieces) := by
  induction pieces generalizing state with
  | nil =>
      rw [bytesOf_nil, List.append_nil] at hpreface
      cases hstart.symm.trans (startsWith_of_preface hpreface)
  | cons piece pieces ih =>
      cases hprotocol : protocolFor library state piece with
      | unknown =>
          have hafter := receive_unknown hprotocol
          have hdetect := protocol_of_detect_unknown hprotocol
          have hbuffer : ∀ d, bufferOf (receivePiece library state piece) d ++ bytesOf d pieces =
              bufferOf state d ++ bytesOf d (piece :: pieces) := by
            intro d
            have hkept : bufferOf (receivePiece library state piece) d =
                bufferOf (state.buffered piece.direction piece.bytes) d := by
              rw [hafter]
              cases d <;> rfl
            rw [hkept, bufferOf_buffered, bytesOf_cons, List.append_assoc]
          have hnone : h2Events library state piece = [] := by simp only [h2Events, hprotocol]
          have hrest := ih (by rw [hafter]) (by rw [hafter]; exact hdetect.2) hspared.2
            (by
              have hclient := hbuffer .clientToServer
              rw [bufferOf, bufferOf] at hclient
              rwa [hclient])
            (by simpa only [hbuffer] using hvalid)
          rw [hbuffer] at hrest
          rw [hrest, h2EventsOver, gather_cons, hnone, ite_self, List.nil_append]
      | http1 =>
          have hat := hspared.1.1
          simp [AtPreface, hprotocol, hunknown, ProtocolState.isUnknown,
            ProtocolState.isHttp2] at hat
      | webSocket ws =>
          have hat := hspared.1.1
          simp [AtPreface, hprotocol, hunknown, ProtocolState.isUnknown,
            ProtocolState.isHttp2] at hat
      | http2 decoder =>
          have hat := hspared.1.1
          rw [AtPreface, hprotocol, hunknown] at hat
          rcases hat with hat | hat | ⟨-, hclient, hserver⟩
          · cases hat
          · cases hat
          · obtain rfl := eq_new_of_detect
              (by rw [protocol_buffered]; exact hunknown) hprotocol
            let found : FlowProtocol η :=
              { state with protocol := .http2 (.new library.hpack) }
            have hfound : protocolFor library found piece = .http2 (.new library.hpack) :=
              protocolFor_http2 rfl
            have hreceive : receivePiece library found piece = receivePiece library state piece := by
              rw [protocolFor] at hfound hprotocol
              simp only [receivePiece, processBytes, hfound, hprotocol]
              rw [FlowProtocol.buffered.eq_def, FlowProtocol.buffered.eq_def]
              cases piece.direction <;> rfl
            have hevents : h2EventsOver library direction found (piece :: pieces) =
                h2EventsOver library direction state (piece :: pieces) := by
              rw [h2EventsOver, gather_cons, gather_cons, hreceive]
              simp only [h2Events, hfound, hprotocol]
            have hdecode : streamsDecode library found piece = true := by
              have hspared' := hspared.1.2
              simp only [streamsDecode, hprotocol] at hspared'
              simpa only [streamsDecode, hfound] using hspared'
            have hwhole : ∀ d, wholeH2 library d (bufferOf state d ++ bytesOf d (piece :: pieces)) =
                (h2Units library d).push (h2Of (.new library.hpack) d)
                  (bytesOf d (piece :: pieces)) := by
              intro d
              have hnew : h2Of (H2Decoder.new library.hpack) d = .default library.hpack := by
                cases d <;> rfl
              rw [wholeH2_eq, hnew]
              cases d with
              | clientToServer => rw [bufferOf, hclient, List.nil_append]
              | serverToClient =>
                  rw [wholeH2_eq] at hserver
                  rw [bufferOf, Decoder.push_append (h2Units_steady _), hserver]
                  dsimp only [Except.bind]
                  cases (h2Units library .serverToClient).push (.default library.hpack)
                    (bytesOf .serverToClient (piece :: pieces)) <;> rfl
            have hdrained : ∀ d, (h2Units library d).Drained (h2Of (.new library.hpack) d) := by
              intro d
              cases d <;> exact DirectionState.drained_default
            have hrest : Run.Each (receivePiece library)
                (fun state piece => streamsDecode library state piece = true) found
                (piece :: pieces) := by
              refine ⟨hdecode, ?_⟩
              rw [hreceive]
              exact hspared.2.mono fun s e h => h.2
            have hover := h2EventsOver_of_http2 rfl hdrained hrest
              (by simpa only [hwhole] using hvalid) direction
            rw [hwhole, hover, hevents]

end Http2

/-! ## WebSocket -/

section WebSocket
variable {η : Type} (library : ApplicationLibrary η)

/-- The response is a header block that accepts the upgrade. -/
structure Upgrades (request : RequestEnvelope) (response : Bytes) : Prop where
  headEnd : findHeaderEnd response = some response.length
  start : RESPONSE_PREFIX <+: response
  parsed : ∃ requestMsg responseMsg,
    parseHttpRequest library.toHttpLibrary request.raw = .ok requestMsg ∧
    parseHttpResponse library.toHttpLibrary response = .ok responseMsg ∧
    responseMsg.status = some 101 ∧
    isWebsocketUpgrade requestMsg.headers responseMsg.headers = true ∧
    isChunkedHeaders responseMsg.headers = false ∧ contentLength responseMsg.headers = 0

/-- The client has asked for the upgrade, and of the answer this is missing. -/
structure Upgrading (state : FlowProtocol η) (request : RequestEnvelope) (missing : Bytes) :
    Prop where
  protocol : state.protocol = .http1
  queue : state.requestQueue = [request]
  client : state.clientBuffer = []
  nonempty : missing ≠ []
  answer : Upgrades library request (state.serverBuffer ++ missing)

/-- The client is silent while something of the answer is missing. -/
def ClientWaits : Bytes → List Piece → Prop
  | _, [] => True
  | missing, ⟨_, .clientToServer, bytes⟩ :: pieces =>
      (missing = [] ∨ bytes = []) ∧ ClientWaits missing pieces
  | missing, ⟨_, .serverToClient, bytes⟩ :: pieces =>
      ClientWaits (missing.drop bytes.length) pieces

instance decidableClientWaits : ∀ missing pieces, Decidable (ClientWaits missing pieces)
  | _, [] => inferInstanceAs (Decidable True)
  | missing, ⟨_, .clientToServer, bytes⟩ :: pieces =>
      have := decidableClientWaits missing pieces
      inferInstanceAs (Decidable ((missing = [] ∨ bytes = []) ∧ ClientWaits missing pieces))
  | missing, ⟨_, .serverToClient, bytes⟩ :: pieces =>
      decidableClientWaits (missing.drop bytes.length) pieces

/-- A segment ends with the answer. -/
def AtUpgrade (missing : Bytes) (pieces : List Piece) : Prop :=
  ∃ done, done <+: pieces ∧ bytesOf .serverToClient done = missing

/-- The exchanges that a piece completes can be decoded. -/
def framesDecode (state : FlowProtocol η) (piece : Piece) : Bool :=
  match protocolFor library state piece with
  | .webSocket ws =>
      match pushWs ws piece.direction piece.bytes with
      | .ok (frames, ws) =>
          (acceptFrames library piece.tick piece.direction 0 ws.currentRequest frames).2.isSome
      | .error _ => true
  | _ => true

/-- The decoder of one direction. -/
def wsOf (ws : WebSocketState) : Direction → WebSocketDecoder
  | .clientToServer => ws.client
  | .serverToClient => ws.server

variable {library} {state : FlowProtocol η} {ws : WebSocketState} {piece : Piece}
  {pieces : List Piece} {direction : Direction} {request : RequestEnvelope}
  {response missing : Bytes}

/-- A piece goes to the decoder of its direction. -/
theorem pushWs_cases {bytes : Bytes} {r : List WebSocketFrame × WebSocketDecoder}
    (h : WebSocketDecoder.decoder.push (wsOf ws direction) bytes = .ok r) :
    ∃ ws', pushWs ws direction bytes = .ok (r.1, ws') ∧
      wsOf ws' = Function.update (wsOf ws) direction r.2 := by
  cases direction with
  | clientToServer =>
      refine ⟨{ ws with client := r.2 }, ?_, ?_⟩
      · have hpush : ws.client.push bytes = .ok r := h
        rw [pushWs, hpush]
        rfl
      · ext d
        cases d <;> rfl
  | serverToClient =>
      refine ⟨{ ws with server := r.2 }, ?_, ?_⟩
      · have hpush : ws.server.push bytes = .ok r := h
        rw [pushWs, hpush]
        rfl
      · ext d
        cases d <;> rfl

/-- The protocol after a piece of WebSocket, and its messages. -/
theorem receive_webSocket (hprotocol : protocolFor library state piece = .webSocket ws)
    {r : List WebSocketFrame × WebSocketState}
    (hpush : pushWs ws piece.direction piece.bytes = .ok r)
    (hdecode : framesDecode library state piece = true) :
    (∃ ws', (receivePiece library state piece).protocol = .webSocket ws' ∧ wsOf ws' = wsOf r.2) ∧
      wsFrames library state piece = r.1 := by
  constructor
  · simp only [framesDecode, hprotocol, hpush] at hdecode
    obtain ⟨current, hcurrent⟩ := Option.isSome_iff_exists.mp hdecode
    rw [protocolFor] at hprotocol
    simp only [receivePiece, processBytes, hprotocol, consumeWebsocket, hpush, Progress.andThen,
      hcurrent]
    refine ⟨_, rfl, ?_⟩
    ext d
    cases d <;> rfl
  · simp only [wsFrames, hprotocol, hpush]

theorem protocolFor_webSocket (h : state.protocol = .webSocket ws) :
    protocolFor library state piece = .webSocket ws := by
  rw [protocolFor, detect, protocol_buffered, h]

/-- Once the decoders are there, they are given everything. -/
theorem wsFramesOver_of_webSocket (hprotocol : state.protocol = .webSocket ws)
    (hdrained : ∀ d, WebSocketDecoder.decoder.Drained (wsOf ws d))
    (hdecode : Run.Each (receivePiece library)
      (fun state piece => framesDecode library state piece = true) state pieces)
    (hvalid : ∀ d, ∃ r, WebSocketDecoder.decoder.push (wsOf ws d) (bytesOf d pieces) = .ok r)
    (direction : Direction) :
    (WebSocketDecoder.decoder.push (wsOf ws direction) (bytesOf direction pieces)).map Prod.fst =
      .ok (wsFramesOver library direction state pieces) := by
  refine push_eq_gather (fun _ => WebSocketDecoder.steady)
    (fun state s => ∃ ws, state.protocol = .webSocket ws ∧ s = wsOf ws)
    ?_ ⟨ws, hprotocol, rfl⟩ hdrained hdecode hvalid direction
  intro state s piece pushed htracks hdecode hpushed
  obtain ⟨ws, hprotocol, rfl⟩ := htracks
  obtain ⟨ws', hpush, hws⟩ := pushWs_cases hpushed
  obtain ⟨⟨ws'', hafter, hsame⟩, hframes⟩ :=
    receive_webSocket (protocolFor_webSocket hprotocol) hpush hdecode
  exact ⟨hframes, ws'', hafter, by rw [hsame, hws]⟩

/-! ### The upgrade -/

theorem tryTake_answer (h : Upgrades library request response) (rest : Bytes) :
    tryTakeHttp1ResponseOrTerminal library (response ++ rest) = .ok (some (response, rest)) := by
  obtain ⟨requestMsg, responseMsg, -, hparsed, -, -, hchunked, hlength⟩ := h.parsed
  have hmessage : parseMessage library.toHttpLibrary false response = .ok responseMsg := hparsed
  have htake := tryTake_parsed h.headEnd hmessage rest
  rw [hchunked, hlength] at htake
  rw [tryTakeHttp1ResponseOrTerminal, htake]
  simp

theorem tryTake_answer_part (h : Upgrades library request response) {part : Bytes}
    (hpart : part <+: response) (hne : part ≠ response) :
    tryTakeHttp1ResponseOrTerminal library part = .ok none := by
  have hnone := findHeaderEnd_eq_none h.headEnd hpart hne
  rw [tryTakeHttp1ResponseOrTerminal, tryTakeHttp1Message, hnone]
  rfl

theorem answerOf_upgrade (h : Upgrades library request response) (attemptId : Uuid) :
    answerOf library attemptId request response = some .upgraded := by
  obtain ⟨requestMsg, responseMsg, hrequest, hresponse, hstatus, hupgrade, -, -⟩ := h.parsed
  rw [answerOf, hrequest, hresponse]
  simp [Except.toOption, hstatus, hupgrade]

theorem processBytes_http1 {t : Tick} {bytes : Bytes} (h : state.protocol = .http1) :
    processBytes library t state direction bytes =
      consumeHttp1 library t (state.buffered direction bytes) := by
  have hfound : (state.buffered direction bytes).protocol = .http1 := by
    rw [protocol_buffered, h]
  have hdetect : detect library (state.buffered direction bytes) = .http1 := by
    rw [detect, hfound]
  have hsame : { state.buffered direction bytes with protocol := .http1 } =
      state.buffered direction bytes := by
    rw [← hfound]
  simp only [processBytes, hdetect, hsame]

/-- While nothing comes from the client, the queue is answered. -/
theorem consumeHttp1_idle {t : Tick} (h : state.clientBuffer = []) :
    consumeHttp1 library t state = answerRequests library t 0 state.requestQueue state := by
  have hdrain : drain (tryTakeHttp1Message library.toHttpLibrary true) (([] : Bytes).length + 1)
      [] = .ok ([], []) := rfl
  have hsame : { state with clientBuffer := [] } = state := by rw [← h]
  rw [consumeHttp1, h, hdrain]
  simp only [List.map_nil, List.append_nil, hsame]

/-- The buffers and the queue as they wait for the answer. -/
theorem receive_upgrading (h : Upgrading library state request missing)
    (hclient : piece.direction = .clientToServer → piece.bytes = []) :
    receivePiece library state piece =
      (answerRequests library piece.tick 0 [request]
        (state.buffered piece.direction piece.bytes)).2.getD .start := by
  have hbuffer : (state.buffered piece.direction piece.bytes).clientBuffer = [] := by
    have hkept := bufferOf_buffered state piece.direction piece.bytes .clientToServer
    rw [bufferOf, bufferOf, h.client, List.nil_append] at hkept
    rw [hkept]
    split
    · rename_i hdirection
      exact hclient hdirection
    · rfl
  rw [receivePiece, processBytes_http1 h.protocol, consumeHttp1_idle hbuffer, requestQueue_buffered,
    h.queue]

/-- A part of the answer is kept. -/
theorem receive_part (h : Upgrading library state request missing)
    (hclient : piece.direction = .clientToServer → piece.bytes = []) {missing' : Bytes}
    (hmissing : missing =
      (if piece.direction = .serverToClient then piece.bytes else []) ++ missing')
    (hne : missing' ≠ []) :
    Upgrading library (receivePiece library state piece) request missing' := by
  have hbuffer := bufferOf_buffered state piece.direction piece.bytes .serverToClient
  rw [bufferOf, bufferOf] at hbuffer
  have hresponse : (state.buffered piece.direction piece.bytes).serverBuffer ++ missing' =
      state.serverBuffer ++ missing := by
    rw [hbuffer, hmissing, List.append_assoc]
  have hanswer : Upgrades library request
      ((state.buffered piece.direction piece.bytes).serverBuffer ++ missing') := by
    rw [hresponse]
    exact h.answer
  have hpart : (state.buffered piece.direction piece.bytes).serverBuffer <+:
      (state.buffered piece.direction piece.bytes).serverBuffer ++ missing' :=
    List.prefix_append ..
  have halign := alignHttp1Response_of_prefix hpart hanswer.start
  have htake := tryTake_answer_part hanswer hpart (by simpa using hne)
  have hreceive := receive_upgrading h hclient
  rw [answerRequests] at hreceive
  simp only [halign, htake, Option.getD_some] at hreceive
  rw [hreceive]
  refine ⟨?_, rfl, ?_, hne, hanswer⟩
  · exact (protocol_buffered ..).trans h.protocol
  · have hkept := bufferOf_buffered state piece.direction piece.bytes .clientToServer
    rw [bufferOf, bufferOf, h.client, List.nil_append] at hkept
    refine hkept.trans ?_
    split
    · rename_i hdirection
      exact hclient hdirection
    · rfl

/-- The segment that ends with the answer leaves new decoders. -/
theorem receive_answer (h : Upgrading library state request missing)
    (hdirection : piece.direction = .serverToClient) (hmissing : missing = piece.bytes) :
    (receivePiece library state piece).protocol = .webSocket .default := by
  have hclient : piece.direction = .clientToServer → piece.bytes = [] := by
    intro hcontra
    cases hdirection.symm.trans hcontra
  subst hmissing
  have hbuffer := bufferOf_buffered state piece.direction piece.bytes .serverToClient
  rw [bufferOf, bufferOf, if_pos hdirection] at hbuffer
  have halign := alignHttp1Response_of_prefix List.prefix_rfl h.answer.start
  have htake := tryTake_answer h.answer []
  rw [List.append_nil] at htake
  have hreceive := receive_upgrading h hclient
  rw [answerRequests, hbuffer] at hreceive
  simp only [halign, htake, answerOf_upgrade h.answer, answerRequests, Option.getD_some]
    at hreceive
  rw [hreceive]

/-- What each direction carries after the upgrade. -/
def afterUpgrade (pieces : List Piece) (server : Bytes) : Direction → Bytes
  | .clientToServer => bytesOf .clientToServer pieces
  | .serverToClient => server

theorem ClientWaits.cons (hwaits : ClientWaits missing (piece :: pieces)) {missing' : Bytes}
    (hmissing : missing =
      (if piece.direction = .serverToClient then piece.bytes else []) ++ missing') :
    ClientWaits missing' pieces := by
  obtain ⟨tick, direction, bytes⟩ := piece
  cases direction with
  | clientToServer =>
      have hsame : missing = missing' := hmissing
      exact hsame ▸ hwaits.2
  | serverToClient =>
      have hsplit : missing = bytes ++ missing' := hmissing
      rw [hsplit, ClientWaits, List.drop_left] at hwaits
      exact hwaits

/-- The client is silent until the answer is there. -/
theorem ClientWaits.nil_of_head (hwaits : ClientWaits missing (piece :: pieces))
    (hne : missing ≠ []) (hdirection : piece.direction = .clientToServer) : piece.bytes = [] := by
  obtain ⟨tick, direction, bytes⟩ := piece
  cases hdirection
  exact hwaits.1.resolve_left hne

theorem wsFramesOver_of_upgrading {server : Bytes}
    (h : Upgrading library state request missing) (hwaits : ClientWaits missing pieces)
    (hat : AtUpgrade missing pieces) (hserver : bytesOf .serverToClient pieces = missing ++ server)
    (hdecode : Run.Each (receivePiece library)
      (fun state piece => framesDecode library state piece = true) state pieces)
    (hvalid : ∀ d, ∃ r, wholeWs (afterUpgrade pieces server d) = .ok r) (direction : Direction) :
    (wholeWs (afterUpgrade pieces server direction)).map Prod.fst =
      .ok (wsFramesOver library direction state pieces) := by
  induction pieces generalizing state missing with
  | nil =>
      obtain ⟨done, hdone, hbytes⟩ := hat
      rw [List.prefix_nil.mp hdone, bytesOf_nil] at hbytes
      exact absurd hbytes.symm h.nonempty
  | cons piece pieces ih =>
      have hclient := hwaits.nil_of_head h.nonempty
      have hnone : wsFrames library state piece = [] := by
        have hprotocol : protocolFor library state piece = .http1 := by
          rw [protocolFor, detect, protocol_buffered, h.protocol]
        simp only [wsFrames, hprotocol]
      have hover : wsFramesOver library direction state (piece :: pieces) =
          wsFramesOver library direction (receivePiece library state piece) pieces := by
        rw [wsFramesOver, gather_cons, hnone, ite_self, List.nil_append]
      have hafter : ∀ d, afterUpgrade (piece :: pieces) server d =
          afterUpgrade pieces server d := by
        intro d
        cases d with
        | serverToClient => rfl
        | clientToServer =>
            rw [afterUpgrade, afterUpgrade, bytesOf_cons]
            by_cases hdirection : piece.direction = .clientToServer
            · rw [if_pos hdirection, hclient hdirection, List.nil_append]
            · rw [if_neg hdirection, List.nil_append]
      obtain ⟨done, hdone, hbytes⟩ := hat
      cases done with
      | nil => exact absurd hbytes.symm h.nonempty
      | cons first done =>
          obtain ⟨rfl, hlater⟩ := List.cons_prefix_cons.mp hdone
          rw [bytesOf_cons] at hbytes
          by_cases hrest : bytesOf .serverToClient done = []
          · -- the answer is whole: from here the decoders are given everything
            rw [hrest, List.append_nil] at hbytes
            have hdirection : first.direction = .serverToClient := by
              by_contra hother
              rw [if_neg hother] at hbytes
              exact h.nonempty hbytes.symm
            rw [if_pos hdirection] at hbytes
            have hprotocol := receive_answer h hdirection hbytes.symm
            have hnew : ∀ d, wsOf .default d = WebSocketDecoder.new := by
              intro d
              cases d <;> rfl
            have hstreams : ∀ d, afterUpgrade pieces server d = bytesOf d pieces := by
              intro d
              cases d with
              | clientToServer => rfl
              | serverToClient =>
                  rw [bytesOf_cons, if_pos hdirection, hbytes] at hserver
                  exact (List.append_cancel_left hserver).symm
            have hframes := wsFramesOver_of_webSocket hprotocol
              (fun d => by rw [hnew]; rfl) hdecode.2
              (fun d => by
                rw [hnew, ← hstreams, ← hafter]
                exact hvalid d) direction
            rw [hover, hafter, hstreams, ← hframes, hnew]
            rfl
          · have hpart := receive_part h hclient hbytes.symm hrest
            have hserver' : bytesOf .serverToClient pieces =
                bytesOf .serverToClient done ++ server := by
              rw [bytesOf_cons, ← hbytes, List.append_assoc] at hserver
              exact List.append_cancel_left hserver
            have hframes := ih hpart (hwaits.cons hbytes.symm) ⟨done, hlater, rfl⟩ hserver'
              hdecode.2 (by simpa only [hafter] using hvalid)
            rw [hover, hafter, hframes]

end WebSocket

/-! ## Small connections -/

def upgradeRequest : Bytes × ParsedHead := requestHead "GET" "/v1/responses" [("Upgrade", "websocket")]

def upgradeResponse : Bytes × ParsedHead :=
  responseHead 101 "Switching Protocols" [("Upgrade", "websocket")]

def upgradeLibrary : ApplicationLibrary Unit :=
  knownLibrary [upgradeRequest] [upgradeResponse] []

/-- HEADERS of stream one, with `:method GET`. -/
def headersFrame : Bytes := [0, 0, 1, 1, 5, 0, 0, 0, 1, 0x82]

/-- An empty SETTINGS frame. -/
def settingsFrame : Bytes := [0, 0, 0, 4, 0, 0, 0, 0, 0]

/-- A text message that is not masked. -/
def textFrame : Bytes := [0x81, 2, 104, 105]

def clientPiece (bytes : Bytes) : Piece := ⟨(momentAt 0).toTick, .clientToServer, bytes⟩

def serverPiece (bytes : Bytes) : Piece := ⟨(momentAt 0).toTick, .serverToClient, bytes⟩

def slowPreface : List Piece :=
  [serverPiece settingsFrame, clientPiece (CLIENT_PREFACE ++ headersFrame.take 4),
    serverPiece settingsFrame, clientPiece (headersFrame.drop 4)]

def splitPreface : List Piece :=
  [clientPiece (CLIENT_PREFACE.take 3), clientPiece (CLIENT_PREFACE.drop 3 ++ headersFrame)]

def slowUpgrade : List Piece :=
  [serverPiece (upgradeResponse.1.take 9), serverPiece (upgradeResponse.1.drop 9),
    serverPiece (textFrame.take 3), clientPiece textFrame, serverPiece (textFrame.drop 3)]

def fullUpgrade : List Piece := [serverPiece (upgradeResponse.1 ++ textFrame)]

theorem upgrading_small :
    Upgrading upgradeLibrary (Run.run (receivePiece upgradeLibrary) .start [clientPiece upgradeRequest.1])
      ⟨upgradeRequest.1, (momentAt 0).nowMs⟩ upgradeResponse.1 where
  protocol := rfl
  queue := rfl
  client := rfl
  nonempty := by decide +kernel
  answer := {
    headEnd := by decide +kernel
    start := by decide +kernel
    parsed := ⟨⟨.http11, some "GET", some "/v1/responses", none,
        [("upgrade", asciiBytes "websocket")], ⟨[], [], true⟩⟩,
      ⟨.http11, none, none, some 101, [("upgrade", asciiBytes "websocket")], ⟨[], [], true⟩⟩,
      by decide +kernel, by decide +kernel, rfl, by decide +kernel, by decide +kernel,
      by decide +kernel⟩ }

/-! ## Both protocols -/

section Main
variable {η : Type} (library : ApplicationLibrary η)

/-- The events of each direction are those of its whole stream. -/
def H2Kept (pieces : List Piece) : Prop :=
  ∀ direction, (wholeH2 library direction (bytesOf direction pieces)).map Prod.fst =
    .ok (h2EventsOver library direction .start pieces)

/-- From the request for an upgrade on, the client waits for what is missing of the answer, and
the streams after it are those of WebSocket. -/
structure SpeaksWebSocket (state : FlowProtocol η) (request : RequestEnvelope) (missing : Bytes)
    (pieces : List Piece) (server : Bytes) : Prop where
  upgrading : Upgrading library state request missing
  waits : ClientWaits missing pieces
  answered : bytesOf .serverToClient pieces = missing ++ server
  valid : ∀ direction, ∃ r, wholeWs (afterUpgrade pieces server direction) = .ok r

/-- The messages of each direction are those of its whole stream after the upgrade. -/
def WsKept (state : FlowProtocol η) (pieces : List Piece) (server : Bytes) : Prop :=
  ∀ direction, (wholeWs (afterUpgrade pieces server direction)).map Prod.fst =
    .ok (wsFramesOver library direction state pieces)

/-- Where every segment meets the condition, detection loses nothing. -/
theorem frames_of_detection :
    (∀ pieces, SpeaksH2 library pieces →
      Run.Each (receivePiece library) (H2Spared library) .start pieces → H2Kept library pieces) ∧
    ∀ before request missing pieces server,
      SpeaksWebSocket library (Run.run (receivePiece library) .start before) request missing pieces
        server →
      AtUpgrade missing pieces →
      Run.Each (receivePiece library) (fun state piece => framesDecode library state piece = true)
        (Run.run (receivePiece library) .start before) pieces →
      WsKept library (Run.run (receivePiece library) .start before) pieces server := by
  constructor
  · intro pieces hspeaks hspared direction
    have hevents := h2EventsOver_of_unknown rfl rfl hspared hspeaks.preface
      (fun d => by
        obtain ⟨r, hr⟩ := hspeaks.valid d
        refine ⟨r, ?_⟩
        cases d <;> exact hr) direction
    cases direction <;> exact hevents
  · intro before request missing pieces server hspeaks hat hdecode direction
    exact wsFramesOver_of_upgrading hspeaks.upgrading hspeaks.waits hat hspeaks.answered hdecode
      hspeaks.valid direction

end Main

theorem exists_ok_of_isSome {ε α : Type} {x : Except ε α} (h : x.toOption.isSome = true) :
    ∃ r, x = .ok r := by
  cases x with
  | error e => cases h
  | ok r => exact ⟨r, rfl⟩

/-- A server that is first, frames in two segments, and an answer in two. -/
theorem frames_of_detection_small :
    H2Kept upgradeLibrary slowPreface ∧
    WsKept upgradeLibrary (Run.run (receivePiece upgradeLibrary) .start [clientPiece upgradeRequest.1])
      slowUpgrade textFrame := by
  constructor
  · refine (frames_of_detection upgradeLibrary).1 slowPreface ⟨by decide +kernel, ?_⟩
      (by decide +kernel)
    intro direction
    cases direction <;> exact exists_ok_of_isSome (by decide +kernel)
  · refine (frames_of_detection upgradeLibrary).2 [clientPiece upgradeRequest.1] _ _ slowUpgrade
      textFrame ⟨upgrading_small, by decide +kernel, by decide +kernel, ?_⟩
      ⟨slowUpgrade.take 2, List.take_prefix .., by decide +kernel⟩ (by decide +kernel)
    intro direction
    cases direction <;> exact exists_ok_of_isSome (by decide +kernel)

/-- A preface in two segments loses the connection, and a message in the segment of the answer is
lost. -/
theorem not_frames_of_detection :
    (¬ ∀ pieces, SpeaksH2 upgradeLibrary pieces → H2Kept upgradeLibrary pieces) ∧
    ¬ ∀ before request missing pieces server,
      SpeaksWebSocket upgradeLibrary (Run.run (receivePiece upgradeLibrary) .start before) request
        missing pieces server →
      WsKept upgradeLibrary (Run.run (receivePiece upgradeLibrary) .start before) pieces server := by
  constructor
  · intro h
    have hkept := h splitPreface ⟨by decide +kernel, fun direction => by
      cases direction <;> exact exists_ok_of_isSome (by decide +kernel)⟩ .clientToServer
    revert hkept
    decide +kernel
  · intro h
    have hkept := h [clientPiece upgradeRequest.1] _ _ fullUpgrade textFrame
      ⟨upgrading_small, by decide +kernel, by decide +kernel, fun direction => by
        cases direction <;> exact exists_ok_of_isSome (by decide +kernel)⟩ .serverToClient
    revert hkept
    decide +kernel

end Codexwatch.Client
