import Codexwatch.Client.Pairing

/-!
# Interim responses

Before the final response a server may send interim ones, with a status from 100 to 199.
`consume_http1` of `client/src/capture_lane.rs` takes each of them for the answer to the request
that waits, and `consume_h2` puts the headers of all blocks of a stream into one list, of which
`header_value` finds the first `:status`.

## Main definitions

* `Http1Call`, `Http1Traffic` — the requests of an HTTP/1.1 connection, with all responses.
* `StreamCall`, `StreamTraffic` — the request of an HTTP/2 stream, with all responses.
* `Http1Undisturbed`, `StreamUndisturbed` — the exchanges are those of the final responses.

## Main results

* `undisturbed_iff`.
-/
namespace Codexwatch.Client

open Protocol Capture Framing Relational Streaming

/-! ## HTTP/1.1 -/

/-- A request, and what the server sends for it. -/
structure Http1Call where
  request : Bytes
  interim : List Bytes
  final : Bytes

def Http1Call.responses (call : Http1Call) : List Bytes := call.interim ++ [call.final]

def Http1Call.own (call : Http1Call) : Bytes × Bytes := (call.request, call.final)

/-- The status of the response is from 100 to 199. -/
def IsInterim (library : HttpLibrary) (raw : Bytes) : Prop :=
  ∃ parsed, parseHttpResponse library raw = .ok parsed ∧
    ∃ code, parsed.status = some code ∧ 100 ≤ code ∧ code < 200

section Http1
variable {η : Type} (library : ApplicationLibrary η) (calls : List Http1Call) (pieces : List Piece)

/-- The pieces are a whole connection. Every message is found, no part of a response is taken
for a whole one, and every request decodes with its final response. -/
structure Http1Traffic : Prop where
  requests : ∀ call ∈ calls,
    Recognizes (tryTakeHttp1Message library.toHttpLibrary true) call.request
  responses : ∀ call ∈ calls, ∀ raw ∈ call.responses, Framed library raw
  interim : ∀ call ∈ calls, ∀ raw ∈ call.interim, IsInterim library.toHttpLibrary raw
  final : ∀ call ∈ calls, ¬ IsInterim library.toHttpLibrary call.final
  decodes : ∀ call ∈ calls, decodesPair library call.own = true
  client : bytesOf .clientToServer pieces = (calls.map Http1Call.request).flatten
  server : bytesOf .serverToClient pieces = (calls.flatMap Http1Call.responses).flatten
  preface : startsWith (bytesOf .clientToServer pieces) "PRI * HTTP/2.0" = false
  parts : ∀ n ≤ pieces.length, tryTakeHttp1ResponseOrTerminal library
    (wholes (calls.flatMap Http1Call.responses)
      (bytesOf .serverToClient (pieces.take n))).2 = .ok none

/-- Every request has its own final response, and the exchanges are those of these pairs. -/
def Http1Undisturbed : Prop :=
  http1Pairs library .start pieces = calls.map Http1Call.own ∧
    (outputs library .start pieces).flatten.map DecodedExchange.content =
      (calls.map Http1Call.own).filterMap (exchangeOfPair library)

variable {library calls pieces}

/-- The first interim response has the place of the final one. -/
theorem interim_eq_nil_of_through (hne : ∀ call ∈ calls, ∀ raw ∈ call.interim, raw ≠ call.final)
    (hdecodes : ∀ call ∈ calls, decodesPair library call.own = true) {later : List (Bytes × Bytes)}
    (h : through (decodesPair library)
      ((calls.map Http1Call.request).zip (calls.flatMap Http1Call.responses)) ++ later =
        calls.map Http1Call.own) : ∀ call ∈ calls, call.interim = [] := by
  induction calls with
  | nil => simp
  | cons call calls ih =>
      rw [List.forall_mem_cons] at hne hdecodes ⊢
      cases hinterim : call.interim with
      | nil =>
          have hown : decodesPair library (call.request, call.final) = true := hdecodes.1
          rw [List.flatMap_cons, Http1Call.responses, hinterim, List.nil_append,
            List.singleton_append, List.map_cons, List.zip_cons_cons, through, if_pos hown,
            List.cons_append, List.map_cons, List.cons.injEq] at h
          exact ⟨rfl, ih hne.2 hdecodes.2 h.2⟩
      | cons raw interim =>
          rw [List.flatMap_cons, Http1Call.responses, hinterim, List.cons_append, List.cons_append,
            List.map_cons, List.zip_cons_cons, through, List.cons_append, List.map_cons,
            List.cons.injEq] at h
          have hmem : raw ∈ call.interim := by
            rw [hinterim]
            exact List.mem_cons_self
          exact absurd (congrArg Prod.snd h.1) (hne.1 raw hmem)

theorem http1Undisturbed_iff (h : Http1Traffic library calls pieces) :
    Http1Undisturbed library calls pieces ↔ ∀ call ∈ calls, call.interim = [] := by
  have hasking : Asking library .start pieces (calls.map Http1Call.request) :=
    ⟨List.forall_mem_map.mpr h.requests, h.client⟩
  have hanswering : Answering library .start pieces (calls.flatMap Http1Call.responses) := by
    refine ⟨fun raw hraw => ?_, h.server, fun done hdone => ?_⟩
    · rcases List.mem_flatMap.mp hraw with ⟨call, hcall, hmem⟩
      exact h.responses call hcall raw hmem
    · rw [List.prefix_iff_eq_take.mp hdone]
      exact h.parts done.length hdone.length_le
  have hpreface := h.preface
  rw [h.client] at hpreface
  rcases pairs_of_unknown rfl rfl rfl hasking hanswering hpreface with ⟨later, hpairs, hall⟩
  constructor
  · rintro ⟨hundisturbed, -⟩
    refine interim_eq_nil_of_through ?_ h.decodes (hpairs.symm.trans hundisturbed)
    intro call hcall raw hraw heq
    exact h.final call hcall (heq ▸ h.interim call hcall raw hraw)
  · intro hnone
    have hfinals : calls.flatMap Http1Call.responses = calls.map Http1Call.final := by
      rw [List.map_eq_flatMap]
      refine List.flatMap_congr fun call hcall => ?_
      rw [Http1Call.responses, hnone call hcall, List.nil_append]
    have hown : (calls.map Http1Call.request).zip (calls.flatMap Http1Call.responses) =
        calls.map Http1Call.own := by
      rw [hfinals, List.zip_map']
      rfl
    rw [hown] at hpairs hall
    have hdecodes : ∀ pair ∈ calls.map Http1Call.own, decodesPair library pair = true :=
      List.forall_mem_map.mpr h.decodes
    rcases hall hdecodes with ⟨rfl, houtputs⟩
    rw [through_of_all hdecodes, List.append_nil] at hpairs
    exact ⟨hpairs, houtputs⟩

end Http1

/-! ## What a direction of a stream says -/

/-- The headers, the body, and whether it has ended. -/
structure Said where
  headers : List (String × String)
  body : Bytes
  ended : Bool

/-- The stream of the frames that `consume_h2` reads. -/
def messageStream? : H2Event → Option ℕ
  | .headers block => some block.streamId
  | .data streamId _ _ => some streamId
  | .priority _ | .rstStream _ _ | .goAway _ _ _ => none

def endsStream : H2Event → Bool
  | .headers block => block.endStream
  | .data _ _ endStream => endStream
  | .priority _ | .rstStream _ _ | .goAway _ _ _ => false

/-- What a frame adds: the END_STREAM of a block of headers is the last word. -/
def Said.add (said : Said) : H2Event → Said
  | .headers block => ⟨said.headers ++ block.headers, said.body, block.endStream⟩
  | .data _ payload endStream => ⟨said.headers, said.body ++ payload, said.ended || endStream⟩
  | .priority _ | .rstStream _ _ | .goAway _ _ _ => said

def saidBy (events : List H2Event) : Said := events.foldl Said.add ⟨[], [], false⟩

def H2StreamState.said (stream : H2StreamState) : Direction → Said
  | .clientToServer => ⟨stream.requestHeaders, stream.requestBody, stream.requestEnd⟩
  | .serverToClient => ⟨stream.responseHeaders, stream.responseBody, stream.responseEnd⟩

/-- The stream of two messages, at no time. -/
def streamOfSaid (request response : Said) : H2StreamState where
  requestHeaders := request.headers
  requestBody := request.body
  requestEnd := request.ended
  responseHeaders := response.headers
  responseBody := response.body
  responseEnd := response.ended
  requestAtMs := 0

/-- What is known of a stream; one that is not in the table has said nothing. -/
def saidOn (streams : Table ℕ H2StreamState) (s : ℕ) (direction : Direction) : Said :=
  ((streams.get? s).getD .default).said direction

section Said
variable {t : Tick} {streams : Table ℕ H2StreamState} {s : ℕ} {event : H2Event}
  {events : List H2Event}

theorem said_addHeaders (stream : H2StreamState) (d d' : Direction) (block : H2HeaderBlock) :
    (stream.addHeaders t d block).said d' =
      if d = d' then (stream.said d').add (.headers block) else stream.said d' := by
  cases d <;> cases d' <;> rfl

theorem said_addData (stream : H2StreamState) (d d' : Direction) (streamId : ℕ) (payload : Bytes)
    (endStream : Bool) :
    (stream.addData t d payload endStream).said d' =
      if d = d' then (stream.said d').add (.data streamId payload endStream)
      else stream.said d' := by
  cases d <;> cases d' <;> rfl

theorem saidOn_absorb (d d' : Direction) :
    saidOn (absorb t d streams event) s d' =
      if messageStream? event = some s ∧ d = d' then (saidOn streams s d').add event
      else saidOn streams s d' := by
  cases event with
  | headers block =>
      by_cases hs : block.streamId = s
      · subst hs
        simp [saidOn, absorb, messageStream?, said_addHeaders]
      · simp [saidOn, absorb, messageStream?, hs, Table.get?_put_of_ne fun h => hs h.symm]
  | data streamId payload endStream =>
      by_cases hs : streamId = s
      · subst hs
        simp [saidOn, absorb, messageStream?, said_addData _ _ _ streamId]
      · simp [saidOn, absorb, messageStream?, hs, Table.get?_put_of_ne fun h => hs h.symm]
  | priority priority => simp [absorb, messageStream?]
  | rstStream streamId error => simp [absorb, messageStream?]
  | goAway lastStreamId error debug => simp [absorb, messageStream?]

/-- The frames of a piece, of which those of the stream count. -/
theorem saidOn_foldl_absorb (d d' : Direction) :
    saidOn (events.foldl (absorb t d) streams) s d' =
      ((if d = d' then events else []).filter fun event => messageStream? event = some s).foldl
        Said.add (saidOn streams s d') := by
  induction events generalizing streams with
  | nil => simp
  | cons event events ih =>
      rw [List.foldl_cons, ih, saidOn_absorb]
      by_cases hd : d = d'
      · by_cases hs : messageStream? event = some s <;> simp [hd, hs]
      · simp [hd]

end Said

/-- What is known of a stream, at no time. -/
def streamIn (streams : Table ℕ H2StreamState) (s : ℕ) : H2StreamState :=
  streamOfSaid (saidOn streams s .clientToServer) (saidOn streams s .serverToClient)

section StreamIn
variable {η : Type} {library : ApplicationLibrary η} {streams : Table ℕ H2StreamState} {s : ℕ}
  {stream : H2StreamState}

theorem isComplete_streamIn (h : streams.get? s = some stream) :
    (streamIn streams s).isComplete = stream.isComplete := by
  rw [streamIn, saidOn, saidOn, h]
  rfl

theorem exists_of_isComplete (h : (streamIn streams s).isComplete = true) :
    ∃ stream, streams.get? s = some stream ∧ stream.isComplete = true := by
  cases hget : streams.get? s with
  | none =>
      rw [streamIn, saidOn, saidOn, hget] at h
      cases h
  | some stream =>
      rw [isComplete_streamIn hget] at h
      exact ⟨stream, rfl, h⟩

/-- The exchange does not depend on the time of the stream. -/
theorem content_answer (h : streams.get? s = some stream) :
    (stream.answer library).map (Option.map DecodedExchange.content) =
      (streamIn streams s).answer library := by
  have hstream : streamIn streams s = { stream with requestAtMs := 0 } := by
    rw [streamIn, saidOn, saidOn, h]
    rfl
  rw [hstream, H2StreamState.answer, H2StreamState.answer, streamExchangeOf, streamExchangeOf]
  rcases (parseHttpRequest library.toHttpLibrary
    (synthesizeH2Request stream.requestHeaders stream.requestBody)).toOption with _ | requestMsg
  · rfl
  · rcases (parseHttpResponse library.toHttpLibrary
      (synthesizeH2Response stream.responseHeaders stream.responseBody)).toOption with
      _ | responseMsg
    · rfl
    · simp only [Option.bind_eq_bind, Option.bind_some]
      split
      · rfl
      · rw [← content_exchangeOf (.v7 0) _ _ _ _ stream.requestAtMs, Option.map_map,
          Option.map_map]
        rfl

end StreamIn

/-! ## One stream of a run -/

section Pieces
variable {η : Type} (library : ApplicationLibrary η) (s : ℕ)

/-- The frames of the stream, in a run. -/
def messageEvents (direction : Direction) (state : FlowProtocol η) (pieces : List Piece) :
    List H2Event :=
  (h2EventsOver library direction state pieces).filter fun event => messageStream? event = some s

/-- The stream as these frames leave it, unless it is taken. -/
def streamAfter (state : FlowProtocol η) (pieces : List Piece) : H2StreamState :=
  streamOfSaid
    ((messageEvents library s .clientToServer state pieces).foldl Said.add
      (saidOn state.h2Streams s .clientToServer))
    ((messageEvents library s .serverToClient state pieces).foldl Said.add
      (saidOn state.h2Streams s .serverToClient))

/-- The streams as the frames of a piece leave them. -/
def absorbed (state : FlowProtocol η) (piece : Piece) : Table ℕ H2StreamState :=
  (h2Events library state piece).foldl (absorb piece.tick piece.direction) state.h2Streams

/-- HTTP/2 decodes the piece, or no protocol is known yet. -/
def DecodedPiece (state : FlowProtocol η) (piece : Piece) : Prop :=
  (protocolFor library state piece).isUnknown = true ∨ (eventsOf? library state piece).isSome = true

variable {library s} {state : FlowProtocol η} {piece : Piece} {pieces : List Piece}

/-- The frames of a piece, and of the pieces after it. -/
theorem messageEvents_cons (direction : Direction) :
    messageEvents library s direction state (piece :: pieces) =
      messageEvents library s direction state [piece] ++
        messageEvents library s direction (receivePiece library state piece) pieces := by
  simp only [messageEvents, gather_cons, List.filter_append]
  simp [gather]

theorem saidOn_absorbed (d : Direction) :
    saidOn (absorbed library state piece) s d =
      (messageEvents library s d state [piece]).foldl Said.add (saidOn state.h2Streams s d) := by
  rw [absorbed, saidOn_foldl_absorb]
  simp only [messageEvents, gather_cons, gather, List.append_nil]

theorem streamAfter_singleton :
    streamAfter library s state [piece] = streamIn (absorbed library state piece) s := by
  rw [streamAfter, streamIn, saidOn_absorbed, saidOn_absorbed]

theorem streamAfter_cons
    (h : ∀ d, saidOn (receivePiece library state piece).h2Streams s d =
      saidOn (absorbed library state piece) s d) :
    streamAfter library s state (piece :: pieces) =
      streamAfter library s (receivePiece library state piece) pieces := by
  rw [streamAfter, streamAfter, messageEvents_cons .clientToServer,
    messageEvents_cons .serverToClient, List.foldl_append, List.foldl_append, h, h,
    saidOn_absorbed, saidOn_absorbed]

/-- The loop over the streams of a piece, or a piece that is kept. -/
theorem receive_of_decodedPiece (h : DecodedPiece library state piece) :
    deliveredStreams library state piece = [] ∧ absorbed library state piece = state.h2Streams ∧
        (receivePiece library state piece).h2Streams = state.h2Streams ∨
      deliveredStreams library state piece =
          (if (loopOf library piece (absorbed library state piece)).2.isSome then
            taggedStreams library piece.tick 0
              (completeStreams library (absorbed library state piece))
              (absorbed library state piece) else []) ∧
        (receivePiece library state piece).h2Streams =
          (loopOf library piece (absorbed library state piece)).2.getD .empty := by
  rcases h with hunknown | hsome
  · have hprotocol := eq_unknown_of_isUnknown hunknown
    rcases delivered_unknown hprotocol with ⟨-, hdelivered, hstreams⟩
    refine .inl ⟨hdelivered, ?_, hstreams⟩
    simp [absorbed, h2Events, hprotocol]
  · rcases Option.isSome_iff_exists.mp hsome with ⟨events, hevents⟩
    rcases exists_push_of_eventsOf? hevents with ⟨decoder, next, hprotocol, hpush⟩
    have habsorbed : absorbed library state piece =
        events.foldl (absorb piece.tick piece.direction) state.h2Streams := by
      simp only [absorbed, h2Events, hprotocol, hpush]
    rw [habsorbed]
    exact .inr (delivered_of_ok hprotocol hpush rfl).2

/-- While the stream is not complete, its piece leaves it in the table. -/
theorem receive_of_open (hdecoded : DecodedPiece library state piece)
    (hothers : OthersDecode library s state piece)
    (hopen : (streamAfter library s state [piece]).isComplete = false) :
    ((deliveredStreams library state piece).filter fun r => r.1 = s) = [] ∧
      ∀ d, saidOn (receivePiece library state piece).h2Streams s d =
        saidOn (absorbed library state piece) s d := by
  rcases receive_of_decodedPiece hdecoded with ⟨hdelivered, hkept, hleft⟩ | ⟨hdelivered, hleft⟩
  · rw [hdelivered, hkept, hleft]
    exact ⟨rfl, fun d => rfl⟩
  · rw [streamAfter_singleton] at hopen
    have hnot : s ∉ completeStreams library (absorbed library state piece) := by
      intro hmem
      rcases mem_completeStreams.mp hmem with ⟨stream, hget, hcomplete⟩
      rw [isComplete_streamIn hget, hcomplete] at hopen
      cases hopen
    have hend : (loopOf library piece (absorbed library state piece)).2.isSome = true := by
      rw [loopOf_isSome]
      intro k stream hget hcomplete
      refine hothers k ?_ stream hget hcomplete
      rintro rfl
      exact hnot (mem_completeStreams.mpr ⟨stream, hget, hcomplete⟩)
    refine ⟨?_, fun d => ?_⟩
    · rw [hdelivered, if_pos hend, List.filter_eq_nil_iff]
      intro r hr
      rw [decide_eq_true_iff]
      rintro rfl
      exact hnot (mem_of_mem_taggedStreams hr)
    · rcases Option.isSome_iff_exists.mp hend with ⟨left, hsome⟩
      rw [hleft, hsome, Option.getD_some, saidOn, get?_takeStreams hsome, if_neg hnot]
      rfl

/-- The piece that completes the stream puts out its exchange. -/
theorem delivered_of_complete (hdecoded : DecodedPiece library state piece)
    (hothers : OthersDecode library s state piece)
    (hbefore : (streamIn state.h2Streams s).isComplete = false)
    (hcomplete : (streamAfter library s state [piece]).isComplete = true) :
    (((deliveredStreams library state piece).filter fun r => r.1 = s).map
        fun r => r.2.anonymous.content) =
      ((streamAfter library s state [piece]).answer library).join.toList := by
  rw [streamAfter_singleton] at hcomplete ⊢
  rcases receive_of_decodedPiece hdecoded with ⟨-, hkept, -⟩ | ⟨hdelivered, -⟩
  · rw [hkept, hbefore] at hcomplete
    cases hcomplete
  · rcases exists_of_isComplete hcomplete with ⟨stream, hget, his⟩
    have hmem : s ∈ completeStreams library (absorbed library state piece) :=
      mem_completeStreams.mpr ⟨stream, hget, his⟩
    rw [hdelivered, ← content_answer hget]
    by_cases hend : (loopOf library piece (absorbed library state piece)).2.isSome = true
    · have hexchanges := congrArg (List.map DecodedExchange.content) (exchanges_takeStreams hend s)
      rw [if_pos hmem, hget, Option.bind_some, List.map_map] at hexchanges
      rw [if_pos hend]
      refine hexchanges.trans ?_
      rcases stream.answer library with _ | _ | exchange <;> rfl
    · have hfails : stream.answer library = none := by
        rw [loopOf_isSome] at hend
        simp only [not_forall, exists_prop] at hend
        rcases hend with ⟨k, other, hother, hcomplete, hnot⟩
        have hk : k = s := by
          by_contra hne
          exact hnot (hothers k hne other hother hcomplete)
        rw [hk, hget] at hother
        cases hother
        simpa [H2StreamState.decodes] using hnot
      rw [if_neg hend, hfails]
      rfl

/-- A run puts out the exchange of the stream, where its last piece completes it. -/
theorem streamOutputs_of_complete
    (hdecoded : Run.Each (receivePiece library) (DecodedPiece library) state pieces)
    (hothers : Run.Each (receivePiece library) (OthersDecode library s) state pieces)
    (hopen : ∀ n < pieces.length, (streamAfter library s state (pieces.take n)).isComplete = false)
    (hcomplete : (streamAfter library s state pieces).isComplete = true) (hne : pieces ≠ []) :
    (streamOutputs library s state pieces).flatten.map DecodedExchange.content =
      ((streamAfter library s state pieces).answer library).join.toList := by
  induction pieces generalizing state with
  | nil => exact absurd rfl hne
  | cons piece pieces ih =>
      rw [Run.each_cons] at hdecoded hothers
      rw [streamOutputs, List.flatten_cons, List.map_append]
      cases pieces with
      | nil =>
          have hbefore := hopen 0 (Nat.zero_lt_one)
          rw [← delivered_of_complete hdecoded.1 hothers.1 hbefore hcomplete, List.map_map]
          exact List.append_nil _
      | cons piece' pieces =>
          rcases receive_of_open hdecoded.1 hothers.1 (hopen 1 (by simp)) with ⟨hnone, hsaid⟩
          rw [hnone, List.map_nil, List.map_nil, List.nil_append, streamAfter_cons hsaid]
          refine ih hdecoded.2 hothers.2 ?_ ?_ (List.cons_ne_nil piece' pieces)
          · intro n hn
            rw [← streamAfter_cons hsaid]
            exact hopen (n + 1) (Nat.succ_lt_succ hn)
          · rwa [← streamAfter_cons hsaid]

/-- What a stream has said until now is the beginning of what it says. -/
theorem messageEvents_take (direction : Direction) (n : ℕ) :
    messageEvents library s direction state (pieces.take n) <+:
      messageEvents library s direction state pieces := by
  induction pieces generalizing state n with
  | nil => rw [List.take_nil]
  | cons piece pieces ih =>
      cases n with
      | zero => exact List.nil_prefix
      | succ n =>
          have hfirst := @messageEvents_cons _ library s state piece (pieces.take n) direction
          have hall := @messageEvents_cons _ library s state piece pieces direction
          rw [List.take_succ_cons, hfirst, hall, List.prefix_append_right_inj]
          exact ih n

end Pieces

/-! ## HTTP/2 -/

/-- A request on a stream, and the frames of its responses. -/
structure StreamCall where
  request : List H2Event
  interim : List H2HeaderBlock
  final : List H2Event

def StreamCall.responses (call : StreamCall) : List H2Event :=
  call.interim.map .headers ++ call.final

/-- The stream as if no interim response had been sent. -/
def StreamCall.own (call : StreamCall) : H2StreamState :=
  streamOfSaid (saidBy call.request) (saidBy call.final)

/-- The last frame, and only it, ends the direction. -/
def EndsWithLast (events : List H2Event) : Prop :=
  ∃ front last, events = front ++ [last] ∧ (∀ event ∈ front, endsStream event = false) ∧
    endsStream last = true

/-- `:status` of a list of headers. -/
def HasStatus (headers : List (String × String)) (code : ℕ) : Prop :=
  headerValue headers ":status" = some code.repr

/-- `httparse` reads the code in the status line that `synthesize_h2_response` writes. -/
def ReadsStatus (library : HttpLibrary) (code : ℕ) : Prop :=
  ∀ rest head, library.parseResponse (asciiBytes "HTTP/1.1 " ++ textBytes code.repr ++
    asciiBytes " OK" ++ CRLF ++ rest) = some head → head.code = some code

section Http2
variable {η : Type} (library : ApplicationLibrary η) (s : ℕ) (call : StreamCall)
  (pieces : List Piece)

/-- The request is a Responses call: there is an exchange to project. -/
def StreamCall.isResponsesCall : Bool :=
  match parseHttpRequest library.toHttpLibrary
      (synthesizeH2Request (saidBy call.request).headers (saidBy call.request).body) with
  | .error _ => false
  | .ok request => isResponsesRequest library request

/-- The pieces are a connection up to the last frame of the stream. Everything decodes, and the
final response has a status from 200 on. -/
structure StreamTraffic : Prop where
  decoded : Run.Each (receivePiece library) (DecodedPiece library) .start pieces
  others : Run.Each (receivePiece library) (OthersDecode library s) .start pieces
  request : messageEvents library s .clientToServer .start pieces = call.request
  responses : messageEvents library s .serverToClient .start pieces = call.responses
  last : ∀ n < pieces.length,
    messageEvents library s .clientToServer .start (pieces.take n) ≠ call.request ∨
      messageEvents library s .serverToClient .start (pieces.take n) ≠ call.responses
  requestEnds : EndsWithLast call.request
  responsesEnd : EndsWithLast call.responses
  headers : (saidBy call.request).headers ≠ []
  interim : ∀ block ∈ call.interim, ∃ code, HasStatus block.headers code ∧
    ReadsStatus library.toHttpLibrary code ∧ 100 ≤ code ∧ code < 200 ∧ code ≠ 101
  final : ∃ code, HasStatus (saidBy call.final).headers code ∧
    ReadsStatus library.toHttpLibrary code ∧ 200 ≤ code ∧ code < 1000
  decodes : call.own.decodes library = true

/-- The exchange of the stream is that of its own final response. -/
def StreamUndisturbed : Prop :=
  (streamOutputs library s .start pieces).flatten.map DecodedExchange.content =
    (call.own.answer library).join.toList

variable {library s call pieces}

theorem ended_foldl {events : List H2Event} {said : Said} (hsaid : said.ended = false)
    (h : ∀ event ∈ events, endsStream event = false) :
    (events.foldl Said.add said).ended = false := by
  induction events generalizing said with
  | nil => exact hsaid
  | cons event events ih =>
      rw [List.forall_mem_cons] at h
      refine ih ?_ h.2
      cases event with
      | headers block => exact h.1
      | data streamId payload endStream =>
          obtain rfl : endStream = false := h.1
          rw [Said.add, hsaid]
          rfl
      | priority priority => exact hsaid
      | rstStream streamId error => exact hsaid
      | goAway lastStreamId error debug => exact hsaid

theorem EndsWithLast.ended {events : List H2Event} (h : EndsWithLast events) :
    (saidBy events).ended = true := by
  rcases h with ⟨front, last, rfl, -, hlast⟩
  rw [saidBy, List.foldl_append, List.foldl_cons, List.foldl_nil]
  cases last with
  | headers block => exact hlast
  | data streamId payload endStream =>
      obtain rfl : endStream = true := hlast
      exact Bool.or_true _
  | priority priority => cases hlast
  | rstStream streamId error => cases hlast
  | goAway lastStreamId error debug => cases hlast

theorem EndsWithLast.not_ended {events part : List H2Event} (h : EndsWithLast events)
    (hpart : part <+: events) (hne : part ≠ events) : (saidBy part).ended = false := by
  rcases h with ⟨front, last, rfl, hfront, -⟩
  refine ended_foldl rfl fun event hevent => hfront event ?_
  exact ((List.prefix_concat_iff.mp hpart).resolve_left hne).subset hevent

/-- The frames add to what was said before them. -/
theorem foldl_add (events : List H2Event) (said : Said) :
    (events.foldl Said.add said).headers = said.headers ++ (saidBy events).headers ∧
      (events.foldl Said.add said).body = said.body ++ (saidBy events).body := by
  induction events generalizing said with
  | nil => simp [saidBy]
  | cons event events ih =>
      have hfirst := ih (Said.add ⟨[], [], false⟩ event)
      have hall := ih (said.add event)
      rw [saidBy, List.foldl_cons, List.foldl_cons, hfirst.1, hfirst.2, hall.1, hall.2]
      cases event <;> simp [Said.add]

/-- The responses of the stream in one list. -/
theorem saidBy_responses (call : StreamCall) :
    (saidBy call.responses).headers =
        call.interim.flatMap H2HeaderBlock.headers ++ (saidBy call.final).headers ∧
      (saidBy call.responses).body = (saidBy call.final).body := by
  rw [StreamCall.responses]
  induction call.interim with
  | nil => exact ⟨rfl, rfl⟩
  | cons block interim ih =>
      have hfirst := foldl_add (interim.map H2Event.headers ++ call.final)
        (Said.add ⟨[], [], false⟩ (.headers block))
      rw [List.map_cons, List.cons_append, saidBy, List.foldl_cons, hfirst.1, hfirst.2, ih.1, ih.2]
      simp [Said.add]

theorem StreamTraffic.headers_final (h : StreamTraffic library s call pieces) :
    (saidBy call.final).headers ≠ [] := by
  rcases h.final with ⟨code, hstatus, -⟩
  intro hnil
  rw [HasStatus, hnil] at hstatus
  cases hstatus

/-- What the run puts out: the stream with the headers of all responses. -/
theorem streamOutputs_of_traffic (h : StreamTraffic library s call pieces) :
    (streamOutputs library s .start pieces).flatten.map DecodedExchange.content =
      ((streamOfSaid (saidBy call.request)
        (saidBy call.responses)).answer library).join.toList := by
  have hafter (part : List Piece) : streamAfter library s .start part =
      streamOfSaid (saidBy (messageEvents library s .clientToServer .start part))
        (saidBy (messageEvents library s .serverToClient .start part)) := rfl
  have hwhole := hafter pieces
  rw [h.request, h.responses] at hwhole
  rw [← hwhole]
  refine streamOutputs_of_complete h.decoded h.others ?_ ?_ ?_
  · intro n hn
    rw [hafter]
    rcases h.last n hn with hrequest | hresponses
    · have hpart := @messageEvents_take _ library s .start pieces .clientToServer n
      rw [h.request] at hpart
      simp [H2StreamState.isComplete, streamOfSaid, h.requestEnds.not_ended hpart hrequest]
    · have hpart := @messageEvents_take _ library s .start pieces .serverToClient n
      rw [h.responses] at hpart
      simp [H2StreamState.isComplete, streamOfSaid, h.responsesEnd.not_ended hpart hresponses]
  · rw [hwhole]
    simp [H2StreamState.isComplete, streamOfSaid, h.requestEnds.ended, h.responsesEnd.ended,
      h.headers, (saidBy_responses call).1, h.headers_final]
  · rintro rfl
    rcases h.requestEnds with ⟨front, last, hrequest, -, -⟩
    have hnil := h.request
    rw [hrequest] at hnil
    exact List.append_ne_nil_of_right_ne_nil front (List.cons_ne_nil last []) hnil.symm

/-- The status is the code of the status line. -/
theorem status_of_parse {headers : List (String × String)} {body : Bytes} {code : ℕ}
    (hreads : ReadsStatus library.toHttpLibrary code) (hstatus : HasStatus headers code)
    (hlow : 100 ≤ code) (hhigh : code < 1000) {message : HttpMessage}
    (h : parseHttpResponse library.toHttpLibrary (synthesizeH2Response headers body) =
      .ok message) : message.status = some code := by
  rw [parseHttpResponse] at h
  rcases Check.bind_eq_ok.mp h with ⟨head, hhead, hmessage⟩
  have hmessageStatus : message.status = head.status := by
    rw [Head.message] at hmessage
    cases hbody : decodeBody library.toHttpLibrary head.headers
      ((synthesizeH2Response headers body).drop head.headerLen) with
    | error e =>
        rw [hbody] at hmessage
        cases hmessage
    | ok body =>
        rw [hbody] at hmessage
        cases hmessage
        rfl
  rw [hmessageStatus]
  rw [parseResponseHead] at hhead
  cases hparsed : library.parseResponse (synthesizeH2Response headers body) with
  | none =>
      rw [hparsed] at hhead
      cases hhead
  | some parsed =>
      have hcode : parsed.code = some code := by
        refine hreads (headerLines headers ++ lengthLine body ++ body) parsed ?_
        rw [← hparsed, synthesizeH2Response, hstatus]
        simp
      rw [hparsed] at hhead
      simp only [Option.elim_some, Check.bind_eq_ok] at hhead
      rcases hhead with ⟨_, hsame, version, -, found, hfound, hhead⟩
      obtain rfl := Except.ok.inj hsame
      rw [hcode] at hfound
      obtain rfl := Except.ok.inj hfound
      rw [if_pos ⟨hlow, hhigh⟩] at hhead
      rcases Check.bind_eq_ok.mp hhead with ⟨map, -, hpure⟩
      cases hpure
      rfl

/-- What a stream is to be: one that no exchange is projected of, or a Responses call. -/
theorem answer_cases {stream : H2StreamState} {answer : Option DecodedExchange}
    (h : stream.answer library = some answer) :
    ∃ requestMsg responseMsg,
      parseHttpRequest library.toHttpLibrary
        (synthesizeH2Request stream.requestHeaders stream.requestBody) = .ok requestMsg ∧
      parseHttpResponse library.toHttpLibrary
        (synthesizeH2Response stream.responseHeaders stream.responseBody) = .ok responseMsg ∧
      (isResponsesRequest library requestMsg = false ∧ answer = none ∨
        isResponsesRequest library requestMsg = true ∧
          ∃ exchange, answer = some exchange ∧ exchange.responseStatus = responseMsg.status) := by
  rw [H2StreamState.answer, streamExchangeOf] at h
  cases hrequest : parseHttpRequest library.toHttpLibrary
      (synthesizeH2Request stream.requestHeaders stream.requestBody) with
  | error e => simp [hrequest, Except.toOption] at h
  | ok requestMsg =>
      cases hresponse : parseHttpResponse library.toHttpLibrary
          (synthesizeH2Response stream.responseHeaders stream.responseBody) with
      | error e => simp [hrequest, hresponse, Except.toOption] at h
      | ok responseMsg =>
          refine ⟨requestMsg, responseMsg, rfl, rfl, ?_⟩
          simp only [hrequest, hresponse, Except.toOption, Option.bind_eq_bind,
            Option.bind_some] at h
          cases hcall : isResponsesRequest library requestMsg with
          | false => exact .inl ⟨rfl, by simpa [hcall] using h.symm⟩
          | true =>
              rw [hcall] at h
              rcases Option.map_eq_some_iff.mp h with ⟨exchange, hexchange, rfl⟩
              rw [exchangeOf] at hexchange
              rcases Option.map_eq_some_iff.mp hexchange with ⟨attempt, -, rfl⟩
              exact .inr ⟨rfl, _, rfl, rfl⟩

/-- The status of an exchange of HTTP/2 is the first of the headers. -/
theorem responseStatus_of_answer {stream : H2StreamState} {code : ℕ}
    (hreads : ReadsStatus library.toHttpLibrary code)
    (hstatus : HasStatus stream.responseHeaders code)
    (hlow : 100 ≤ code) (hhigh : code < 1000) {exchange : DecodedExchange}
    (h : stream.answer library = some (some exchange)) : exchange.responseStatus = some code := by
  rcases answer_cases h with ⟨requestMsg, responseMsg, -, hresponse, ⟨-, hnone⟩ |
    ⟨-, own, hown, hownStatus⟩⟩
  · cases hnone
  · cases hown
    rw [hownStatus, status_of_parse hreads hstatus hlow hhigh hresponse]

theorem HasStatus.append {headers : List (String × String)} {code : ℕ} (h : HasStatus headers code)
    (more : List (String × String)) : HasStatus (headers ++ more) code := by
  rw [HasStatus, headerValue, Option.map_eq_some_iff] at h ⊢
  rcases h with ⟨header, hfind, hcode⟩
  exact ⟨header, by rw [List.find?_append, hfind]; rfl, hcode⟩

/-- Without a Responses call there is nothing to project. -/
theorem join_answer_of_not (h : call.isResponsesCall library = false) (response : Said) :
    ((streamOfSaid (saidBy call.request) response).answer library).join = none := by
  cases hanswer : (streamOfSaid (saidBy call.request) response).answer library with
  | none => rfl
  | some answer =>
      rcases answer_cases hanswer with ⟨requestMsg, responseMsg, hrequest, -, ⟨-, rfl⟩ |
        ⟨hcall, -⟩⟩
      · rfl
      · rw [StreamCall.isResponsesCall] at h
        simp only [streamOfSaid] at hrequest
        rw [hrequest] at h
        cases hcall.symm.trans h

theorem exists_of_isResponsesCall (h : call.isResponsesCall library = true)
    (hdecodes : call.own.decodes library = true) :
    ∃ exchange, call.own.answer library = some (some exchange) := by
  rcases Option.isSome_iff_exists.mp hdecodes with ⟨answer, hanswer⟩
  rcases answer_cases hanswer with ⟨requestMsg, responseMsg, hrequest, -, ⟨hcall, -⟩ |
    ⟨-, exchange, rfl, -⟩⟩
  · rw [StreamCall.isResponsesCall] at h
    simp only [StreamCall.own, streamOfSaid] at hrequest
    rw [hrequest] at h
    cases hcall.symm.trans h
  · exact ⟨exchange, hanswer⟩

theorem streamUndisturbed_iff (h : StreamTraffic library s call pieces) :
    StreamUndisturbed library s call pieces ↔
      call.interim = [] ∨ call.isResponsesCall library = false := by
  rw [StreamUndisturbed, streamOutputs_of_traffic h]
  constructor
  · intro hsame
    rw [or_iff_not_imp_right, Bool.not_eq_false]
    intro hcall
    rcases exists_of_isResponsesCall hcall h.decodes with ⟨exchange, hown⟩
    have hmixed : (streamOfSaid (saidBy call.request) (saidBy call.responses)).answer library =
        some (some exchange) := by
      rw [hown] at hsame
      revert hsame
      rcases (streamOfSaid (saidBy call.request) (saidBy call.responses)).answer library with
        _ | _ | mixed <;> simp
    cases hinterim : call.interim with
    | nil => rfl
    | cons block interim =>
        rcases h.interim block (by rw [hinterim]; exact List.mem_cons_self) with
          ⟨code, hstatus, hreads, hlow, hhigh, -⟩
        rcases h.final with ⟨final, hfinal, hfinalReads, hfinalLow, hfinalHigh⟩
        have hfirst : HasStatus (saidBy call.responses).headers code := by
          rw [(saidBy_responses call).1, hinterim, List.flatMap_cons, List.append_assoc]
          exact hstatus.append _
        have hcode := responseStatus_of_answer hreads hfirst hlow (by omega) hmixed
        have hfinalCode := responseStatus_of_answer hfinalReads hfinal (by omega) hfinalHigh hown
        have heq := Option.some.inj (hcode.symm.trans hfinalCode)
        omega
  · rintro (hnone | hcall)
    · rw [StreamCall.own, StreamCall.responses, hnone, List.map_nil, List.nil_append]
    · rw [StreamCall.own, join_answer_of_not hcall, join_answer_of_not hcall]

end Http2

/-! ## Small connections -/

/-- A response without a body is found whole. -/
theorem framed_of_head {η : Type} {library : ApplicationLibrary η} {raw : Bytes}
    {parsed : HttpMessage} (hstart : RESPONSE_PREFIX <+: raw)
    (hend : findHeaderEnd raw = some raw.length)
    (hparsed : parseHttpResponse library.toHttpLibrary raw = .ok parsed)
    (hchunked : isChunkedHeaders parsed.headers = false)
    (hlength : contentLength parsed.headers = 0)
    (hstatus : parsed.status ≠ some 101) : Framed library raw where
  start := hstart
  whole rest := by
    have hmessage : parseMessage library.toHttpLibrary false raw = .ok parsed := hparsed
    rw [tryTake_parsed hend hmessage, hchunked, hlength]
    simp
  plain other hother := by
    cases hparsed.symm.trans hother
    exact hstatus

def continueHead : Bytes × ParsedHead := responseHead 100 "Continue" []

def hintsHead : Bytes × ParsedHead := responseHead 103 "OK" [("Content-Length", "0")]

def okHead : Bytes × ParsedHead := responseHead 200 "OK" [("Content-Length", "0")]

/-- `:status 103`, a literal field. -/
def hintsBlock : Bytes := [0x08, 3] ++ asciiBytes "103"

def interimLibrary : ApplicationLibrary Unit :=
  { callLibrary with
    parseResponse := (knownLibrary [] [continueHead, hintsHead, okHead] []).parseResponse
    hpack := {
      new := ()
      decode := fun state block =>
        if block = hintsBlock then .ok ([(asciiBytes ":status", asciiBytes "103")], ())
        else callLibrary.hpack.decode state block } }

/-- A Responses call with an empty object, answered at once or after an interim response. -/
def httpCall (interim : List Bytes) : Http1Call where
  request := (callHead "2").1 ++ asciiBytes "\x7b\x7d"
  interim := interim
  final := okHead.1

def httpPieces (call : Http1Call) : List Piece :=
  [clientPiece call.request, serverPiece call.responses.flatten]

/-- The request as a message. -/
def requestMessage : Http1Message where
  head := (callHead "2").1
  start := .request "POST" "/v1/responses"
  fields := [("x-codex-turn-metadata", asciiBytes turnMetadata),
    ("Content-Length", asciiBytes "2")]
  body := .contentLength (asciiBytes "\x7b\x7d")

theorem recognizes_requestMessage :
    Recognizes (tryTakeHttp1Message interimLibrary.toHttpLibrary true) requestMessage.bytes := by
  have hparses : Parses interimLibrary.toHttpLibrary requestMessage :=
    ⟨by decide, ⟨rfl, rfl⟩, fun _ _ => ⟨Option.some_ne_none _, rfl⟩⟩
  refine recognizes_of_legible ⟨by decide +kernel, ⟨rfl, rfl⟩, ?_, ?_⟩
    ⟨hparses, ⟨[], by decide +kernel⟩, ?_⟩
  · intro field _ lower hlower
    exact (Option.some.inj hlower).symm
  · exact ⟨by decide +kernel, asciiBytes "2", "2", by decide +kernel, by decide +kernel,
      by decide +kernel⟩
  · intro body hbody
    cases hbody

def continueMessage : HttpMessage := ⟨.http11, none, none, some 100, [], ⟨[], [], true⟩⟩

def okMessage : HttpMessage :=
  ⟨.http11, none, none, some 200, [("content-length", asciiBytes "0")], ⟨[], [], true⟩⟩

/-- Both heads are read whole, and a status line of a known head has its code. -/
theorem heads_checked :
    (∀ sent ∈ [(continueHead, continueMessage), (okHead, okMessage)],
      RESPONSE_PREFIX <+: sent.1.1 ∧ findHeaderEnd sent.1.1 = some sent.1.1.length ∧
        parseHttpResponse interimLibrary.toHttpLibrary sent.1.1 = .ok sent.2 ∧
        isChunkedHeaders sent.2.headers = false ∧ contentLength sent.2.headers = 0 ∧
        sent.2.status ≠ some 101) ∧
      ∀ code ∈ [103, 200], ∀ known ∈ [continueHead, hintsHead, okHead],
        (asciiBytes "HTTP/1.1 " ++ textBytes code.repr ++ asciiBytes " OK" ++ CRLF).length ≤
            known.1.length ∧
          (asciiBytes "HTTP/1.1 " ++ textBytes code.repr ++ asciiBytes " OK" ++ CRLF <+: known.1 →
            known.2.code = some code) := by
  decide +kernel

theorem framed_of_mem (sent : (Bytes × ParsedHead) × HttpMessage)
    (h : sent ∈ [(continueHead, continueMessage), (okHead, okMessage)]) :
    Framed interimLibrary sent.1.1 := by
  obtain ⟨hstart, hend, hparsed, hchunked, hlength, hstatus⟩ := heads_checked.1 sent h
  exact framed_of_head hstart hend hparsed hchunked hlength hstatus

theorem parse_continueHead :
    parseHttpResponse interimLibrary.toHttpLibrary continueHead.1 = .ok continueMessage :=
  (heads_checked.1 (continueHead, continueMessage) (by simp)).2.2.1

theorem parse_okHead :
    parseHttpResponse interimLibrary.toHttpLibrary okHead.1 = .ok okMessage :=
  (heads_checked.1 (okHead, okMessage) (by simp)).2.2.1

theorem isInterim_continueHead : IsInterim interimLibrary.toHttpLibrary continueHead.1 :=
  ⟨_, parse_continueHead, 100, rfl, le_rfl, by omega⟩

theorem not_isInterim_okHead : ¬ IsInterim interimLibrary.toHttpLibrary okHead.1 := by
  rintro ⟨parsed, hparsed, code, hcode, -, hlt⟩
  cases parse_okHead.symm.trans hparsed
  cases hcode
  omega

/-- A connection with one call. -/
theorem http1Traffic_small {interim : List Bytes} (h : interim = [] ∨ interim = [continueHead.1]) :
    Http1Traffic interimLibrary [httpCall interim] (httpPieces (httpCall interim)) := by
  have hbytes : bytesOf .clientToServer (httpPieces (httpCall interim)) =
        ([httpCall interim].map Http1Call.request).flatten ∧
      bytesOf .serverToClient (httpPieces (httpCall interim)) =
        ([httpCall interim].flatMap Http1Call.responses).flatten ∧
      startsWith (bytesOf .clientToServer (httpPieces (httpCall interim))) "PRI * HTTP/2.0" =
        false ∧
      ∀ n ≤ (httpPieces (httpCall interim)).length,
        (wholes ([httpCall interim].flatMap Http1Call.responses)
          (bytesOf .serverToClient ((httpPieces (httpCall interim)).take n))).2 = [] := by
    rcases h with rfl | rfl <;> decide +kernel
  have hdecodes : decodesPair interimLibrary (httpCall []).own = true := by decide +kernel
  have hinterim : ∀ raw ∈ interim, raw = continueHead.1 := by
    rcases h with rfl | rfl
    · exact List.forall_mem_nil _
    · exact List.forall_mem_singleton.mpr rfl
  exact {
    requests := List.forall_mem_singleton.mpr recognizes_requestMessage
    responses := by
      rw [List.forall_mem_singleton, Http1Call.responses, List.forall_mem_append,
        List.forall_mem_singleton]
      refine ⟨fun raw hraw => ?_, framed_of_mem (okHead, okMessage) (by simp)⟩
      rw [hinterim raw hraw]
      exact framed_of_mem (continueHead, continueMessage) (by simp)
    interim := by
      rw [List.forall_mem_singleton]
      intro raw hraw
      rw [hinterim raw hraw]
      exact isInterim_continueHead
    final := List.forall_mem_singleton.mpr not_isInterim_okHead
    decodes := List.forall_mem_singleton.mpr hdecodes
    client := hbytes.1
    server := hbytes.2.1
    preface := hbytes.2.2.1
    parts := fun n hn => by
      rw [hbytes.2.2.2 n hn]
      rfl }

/-- A Responses call on stream one. -/
def streamCall (interim : List H2HeaderBlock) : StreamCall where
  request := [
    .headers ⟨1, [(":method", "POST"), (":path", "/v1/responses"),
      ("x-codex-turn-metadata", turnMetadata)], false, none⟩,
    .data 1 (asciiBytes "\x7b\x7d") true]
  interim := interim
  final := [.headers ⟨1, [(":status", "200")], true, none⟩]

def hintsHeaders : H2HeaderBlock := ⟨1, [(":status", "103")], false, none⟩

def streamPieces (interim : Bytes) : List Piece :=
  [clientPiece (CLIENT_PREFACE ++ callFrames 1), serverPiece (interim ++ okFrame 1)]

def hintsFrame : Bytes := frameOf 1 4 1 hintsBlock

/-- The line is a prefix of the head that is found, which has its code. -/
theorem readsStatus_interimLibrary {code : ℕ} (h : code = 103 ∨ code = 200) :
    ReadsStatus interimLibrary.toHttpLibrary code := by
  intro rest head hparse
  rcases Option.map_eq_some_iff.mp hparse with ⟨known, hfind, rfl⟩
  have hmem := List.mem_of_find?_eq_some hfind
  have hfound := List.find?_some hfind
  have hknown := heads_checked.2 code (by simpa using h) known hmem
  refine hknown.2 ?_
  exact List.prefix_of_prefix_length_le (List.prefix_append ..)
    (List.isPrefixOf_iff_prefix.mp hfound) hknown.1

instance decidableDecodedPiece {η : Type} (library : ApplicationLibrary η) (state : FlowProtocol η)
    (piece : Piece) : Decidable (DecodedPiece library state piece) :=
  inferInstanceAs (Decidable (_ ∨ _))

instance decidableHasStatus (headers : List (String × String)) (code : ℕ) :
    Decidable (HasStatus headers code) := inferInstanceAs (Decidable (_ = _))

/-- Both connections are run as the traffic of a stream wants it. -/
theorem streams_checked : (∀ sent ∈ [([], []), ([hintsHeaders], hintsFrame)],
    Run.Each (receivePiece interimLibrary) (DecodedPiece interimLibrary) .start
        (streamPieces sent.2) ∧
      Run.Each (receivePiece interimLibrary) (OthersDecode interimLibrary 1) .start
        (streamPieces sent.2) ∧
      messageEvents interimLibrary 1 .clientToServer .start (streamPieces sent.2) =
        (streamCall sent.1).request ∧
      messageEvents interimLibrary 1 .serverToClient .start (streamPieces sent.2) =
        (streamCall sent.1).responses ∧
      (∀ n < (streamPieces sent.2).length,
        messageEvents interimLibrary 1 .serverToClient .start ((streamPieces sent.2).take n) ≠
          (streamCall sent.1).responses) ∧
      (streamCall sent.1).own.decodes interimLibrary = true) ∧
    (streamCall [hintsHeaders]).isResponsesCall interimLibrary = true := by
  decide +kernel

theorem streamTraffic_of_mem (sent : List H2HeaderBlock × Bytes)
    (hmem : sent ∈ [([], []), ([hintsHeaders], hintsFrame)])
    (hends : EndsWithLast (streamCall sent.1).responses)
    (hinterim : ∀ block ∈ sent.1, block = hintsHeaders) :
    StreamTraffic interimLibrary 1 (streamCall sent.1) (streamPieces sent.2) := by
  obtain ⟨hdecoded, hothers, hrequest, hresponses, hlast, hdecodes⟩ :=
    streams_checked.1 sent hmem
  exact {
    decoded := hdecoded
    others := hothers
    request := hrequest
    responses := hresponses
    last := fun n hn => .inr (hlast n hn)
    requestEnds := ⟨[.headers ⟨1, [(":method", "POST"), (":path", "/v1/responses"),
      ("x-codex-turn-metadata", turnMetadata)], false, none⟩], _, rfl, by simp [endsStream], rfl⟩
    responsesEnd := hends
    headers := by simp [streamCall, saidBy, Said.add]
    interim := fun block hblock => by
      rw [hinterim block hblock]
      exact ⟨103, by decide, readsStatus_interimLibrary (.inl rfl), by omega, by omega, by omega⟩
    final := ⟨200, rfl, readsStatus_interimLibrary (.inr rfl), by omega, by omega⟩
    decodes := hdecodes }

theorem streamTraffic_none : StreamTraffic interimLibrary 1 (streamCall []) (streamPieces []) :=
  streamTraffic_of_mem ([], []) (by simp) ⟨[], _, rfl, List.forall_mem_nil _, rfl⟩
    (List.forall_mem_nil _)

theorem streamTraffic_hints :
    StreamTraffic interimLibrary 1 (streamCall [hintsHeaders]) (streamPieces hintsFrame) :=
  streamTraffic_of_mem ([hintsHeaders], hintsFrame) (by simp)
    ⟨[.headers hintsHeaders], _, rfl, by decide, rfl⟩ (List.forall_mem_singleton.mpr rfl)

/-! ## Both protocols -/

/-- The exchanges are those of the final responses where no interim response is sent, and on a
stream also where there is none to project. -/
theorem undisturbed_iff {η : Type} (library : ApplicationLibrary η) :
    (∀ calls pieces, Http1Traffic library calls pieces →
      (Http1Undisturbed library calls pieces ↔ ∀ call ∈ calls, call.interim = [])) ∧
    ∀ s call pieces, StreamTraffic library s call pieces →
      (StreamUndisturbed library s call pieces ↔
        call.interim = [] ∨ call.isResponsesCall library = false) :=
  ⟨fun _ _ h => http1Undisturbed_iff h, fun _ _ _ h => streamUndisturbed_iff h⟩

/-- A call without an interim response, and after one. -/
theorem undisturbed_small :
    Http1Undisturbed interimLibrary [httpCall []] (httpPieces (httpCall [])) ∧
      ¬ Http1Undisturbed interimLibrary [httpCall [continueHead.1]]
        (httpPieces (httpCall [continueHead.1])) ∧
      StreamUndisturbed interimLibrary 1 (streamCall []) (streamPieces []) ∧
      ¬ StreamUndisturbed interimLibrary 1 (streamCall [hintsHeaders])
        (streamPieces hintsFrame) := by
  refine ⟨?_, ?_, ?_, ?_⟩
  · refine ((undisturbed_iff interimLibrary).1 _ _ (http1Traffic_small (.inl rfl))).mpr ?_
    simp [httpCall]
  · intro h
    have hnone := ((undisturbed_iff interimLibrary).1 _ _ (http1Traffic_small (.inr rfl))).mp h
    simp [httpCall] at hnone
  · exact ((undisturbed_iff interimLibrary).2 1 _ _ streamTraffic_none).mpr (.inl rfl)
  · intro h
    rcases ((undisturbed_iff interimLibrary).2 1 _ _ streamTraffic_hints).mp h with hnone | hcall
    · cases hnone
    · cases streams_checked.2.symm.trans hcall

/-- A `100 Continue` is taken for the answer, and a 103 on a stream for the status. -/
theorem not_undisturbed_continue :
    ¬ ((∀ calls pieces, Http1Traffic interimLibrary calls pieces →
        Http1Undisturbed interimLibrary calls pieces) ∨
      ∀ s call pieces, StreamTraffic interimLibrary s call pieces →
        StreamUndisturbed interimLibrary s call pieces) := by
  rintro (h | h)
  · have htraffic := http1Traffic_small (.inr rfl)
    have hnone := (http1Undisturbed_iff htraffic).mp (h _ _ htraffic)
    simp [httpCall] at hnone
  · rcases (streamUndisturbed_iff streamTraffic_hints).mp (h _ _ _ streamTraffic_hints) with
      hnone | hcall
    · cases hnone
    · cases streams_checked.2.symm.trans hcall

end Codexwatch.Client
