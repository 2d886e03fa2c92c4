import Codexwatch.Capture.SseLines
import Codexwatch.Client.Attempt
import Codexwatch.Client.Multiplexing

/-!
# A Responses call over WebSocket and over HTTP

`consume_websocket` writes a call and its answer as an HTTP exchange: the request message as
a body, the messages of the server as an event stream. A call over HTTP with the same
body and the same events gives the same attempt where nothing is lost in this: the answer
ends with its first message of four types, and of a message only the first line is read.

## Main definitions

* `Conversation` — one request, and the messages of the server.
* `HttpCall` — the same call over HTTP.
* `Rendered` — the messages that are written as they were meant.
* `SameResult` — what is projected of two exchanges.

## Main results

* `transports_agree_iff`.
-/
namespace Codexwatch.Client

open Protocol Capture Relational

/-! ## Values of headers -/

theorem toStr_asciiBytes {text : String} (h : ∀ c ∈ text.toList, 32 ≤ c.toNat ∧ c.toNat < 127) :
    toStr (asciiBytes text) = some text := by
  have hbyte : ∀ c ∈ text.toList, (c.toNat.toUInt8).toNat = c.toNat := by
    intro c hc
    have hlt := (h c hc).2
    simp
    omega
  have hall : (asciiBytes text).all (fun b => (32 ≤ b && b < 127) || b = 9) = true := by
    rw [asciiBytes, List.all_map, List.all_eq_true]
    intro c hc
    have hrange := h c hc
    simp only [Function.comp_apply, Bool.or_eq_true, Bool.and_eq_true, decide_eq_true_eq,
      UInt8.le_iff_toNat_le, UInt8.lt_iff_toNat_lt, hbyte c hc]
    exact .inl hrange
  have hchars : (asciiBytes text).map (fun b => Char.ofNat b.toNat) = text.toList := by
    rw [asciiBytes, List.map_map]
    conv_rhs => rw [← List.map_id text.toList]
    apply List.map_congr_left
    intro c hc
    rw [Function.comp_apply, hbyte c hc, Char.ofNat_toNat]
    rfl
  rw [toStr, if_pos hall, hchars, String.ofList_toList]

/-! ## The exchange that the messages are written as -/

deriving instance DecidableEq for ParsedHead

/-- The event stream of the messages. -/
def wsBody (events : List String) : Bytes :=
  events.flatMap fun event =>
    asciiBytes "event: message\ndata: " ++ textBytes event ++ asciiBytes "\n\n"

def wsRequestHead (length : ℕ) : Bytes :=
  asciiBytes "POST /v1/responses HTTP/1.1" ++ CRLF ++ asciiBytes "Content-Type: application/json" ++
    CRLF ++ asciiBytes ("Content-Length: " ++ length.repr) ++ CRLF ++ CRLF

def wsResponseHead (length : ℕ) : Bytes :=
  asciiBytes "HTTP/1.1 200 OK" ++ CRLF ++ asciiBytes "Content-Type: text/event-stream" ++ CRLF ++
    asciiBytes ("Content-Length: " ++ length.repr) ++ CRLF ++ CRLF

theorem synthesizeWsRequest_eq (body : Bytes) :
    synthesizeWsRequest body = wsRequestHead body.length ++ body := by
  simp [synthesizeWsRequest, wsRequestHead, lengthLine]

theorem synthesizeWsResponse_eq (events : List String) :
    synthesizeWsResponse events = wsResponseHead (wsBody events).length ++ wsBody events := by
  simp only [synthesizeWsResponse, wsResponseHead, lengthLine, wsBody, List.append_assoc]

/-- The library reads the heads that are written here; lengths are `usize`. -/
structure ReadsHeads (library : HttpLibrary) (body : Bytes) (texts : List String) : Prop where
  request : library.parseRequest (synthesizeWsRequest body) =
    some ⟨(wsRequestHead body.length).length, some 1, some "POST", some "/v1/responses", none,
      [("Content-Type", asciiBytes "application/json"),
        ("Content-Length", asciiBytes body.length.repr)]⟩
  response : ∀ events, events <+: texts → library.parseResponse (synthesizeWsResponse events) =
    some ⟨(wsResponseHead (wsBody events).length).length, some 1, none, none, some 200,
      [("Content-Type", asciiBytes "text/event-stream"),
        ("Content-Length", asciiBytes (wsBody events).length.repr)]⟩
  method : library.isMethod "POST" = true
  uri : library.isUri "/v1/responses" = true
  contentType : library.headerName "Content-Type" = some "content-type"
  contentLength : library.headerName "Content-Length" = some "content-length"
  values : ∀ text, (∀ c ∈ text.toList, 32 ≤ c.toNat ∧ c.toNat < 127) →
    library.isHeaderValue (asciiBytes text) = true
  requestFits : body.length < 2 ^ 64
  responseFits : ∀ events, events <+: texts → (wsBody events).length < 2 ^ 64

/-- The two headers of a synthesized message. -/
def wsHeaders (contentType : String) (length : ℕ) : HeaderMap :=
  [("content-type", asciiBytes contentType), ("content-length", asciiBytes length.repr)]

section Heads
variable {library : HttpLibrary} {body : Bytes} {texts events : List String}

theorem printable_repr (n : ℕ) : ∀ c ∈ n.repr.toList, 32 ≤ c.toNat ∧ c.toNat < 127 := by
  intro c hc
  have hrange : 48 ≤ c.toNat ∧ c.toNat ≤ 57 := Char.isDigit_iff_toNat.mp (isDigit_of_mem_repr hc)
  omega

/-- A body that `Content-Length` delimits is read whole. -/
theorem decodeBody_of_length {headers : HeaderMap} {value : Bytes}
    (hchunked : isChunked headers = false) (hlength : headers.get "content-length" = some value)
    (htake : takeLength value body = .ok (body, true))
    (hdecoded : decodeContentEncoding library headers body = .ok body) :
    decodeBody library headers body = .ok ⟨body, body, true⟩ := by
  rw [decodeBody, hchunked, hlength]
  simp only [Bool.false_eq_true, if_false, htake, bind, Except.bind, hdecoded]
  rfl

theorem decodeBody_wsHeaders (contentType : String) (h : body.length < 2 ^ 64) :
    decodeBody library (wsHeaders contentType body.length) body = .ok ⟨body, body, true⟩ := by
  have hchunked : isChunked (wsHeaders contentType body.length) = false := by
    simp [isChunked, wsHeaders, HeaderMap.get, List.lookup_cons]
  have hlength : (wsHeaders contentType body.length).get "content-length" =
      some (asciiBytes body.length.repr) := by
    simp [wsHeaders, HeaderMap.get, List.lookup_cons]
  have hencoding : contentEncoding (wsHeaders contentType body.length) = "" := by
    have hnone : (wsHeaders contentType body.length).get "content-encoding" = none := by
      simp [wsHeaders, HeaderMap.get, List.lookup_cons]
    rw [contentEncoding, hnone]
    decide +kernel
  have htake : takeLength (asciiBytes body.length.repr) body = .ok (body, true) := by
    rw [takeLength, toStr_asciiBytes (printable_repr _)]
    simp [fromStrRadix_repr h]
  have hdecoded : decodeContentEncoding library (wsHeaders contentType body.length) body =
      .ok body := by
    simp [decodeContentEncoding, hencoding]
  exact decodeBody_of_length hchunked hlength htake hdecoded

theorem toHeaderMap_ws (h : ReadsHeads library body texts) (contentType : String)
    (hprintable : contentType.toList.all (fun c => 32 ≤ c.toNat ∧ c.toNat < 127) = true)
    (length : ℕ) :
    toHeaderMap library [("Content-Type", asciiBytes contentType),
        ("Content-Length", asciiBytes length.repr)] = .ok (wsHeaders contentType length) := by
  have hprintable : ∀ c ∈ contentType.toList, 32 ≤ c.toNat ∧ c.toNat < 127 := by
    simpa using hprintable
  simp only [toHeaderMap, h.contentType, h.contentLength, h.values _ hprintable,
    h.values _ (printable_repr length)]
  rfl

theorem parse_synthesizeWsRequest (h : ReadsHeads library body texts) :
    parseHttpRequest library (synthesizeWsRequest body) =
      .ok ⟨.http11, some "POST", some "/v1/responses", none,
        wsHeaders "application/json" body.length, ⟨body, body, true⟩⟩ := by
  have hhead : parseRequestHead library (synthesizeWsRequest body) =
      .ok ⟨(wsRequestHead body.length).length, .http11, some "POST", some "/v1/responses", none,
        wsHeaders "application/json" body.length⟩ := by
    have hheaders := toHeaderMap_ws h "application/json" (by decide) body.length
    rw [parseRequestHead, h.request]
    simp only [Option.elim, bind, Except.bind, parseVersion, h.method, h.uri, if_true, hheaders]
    rfl
  rw [parseHttpRequest, hhead]
  simp only [Except.bind, Head.message, synthesizeWsRequest_eq, List.drop_left,
    decodeBody_wsHeaders _ h.requestFits]
  rfl

theorem parse_synthesizeWsResponse (h : ReadsHeads library body texts)
    (hevents : events <+: texts) :
    parseHttpResponse library (synthesizeWsResponse events) =
      .ok ⟨.http11, none, none, some 200, wsHeaders "text/event-stream" (wsBody events).length,
        ⟨wsBody events, wsBody events, true⟩⟩ := by
  have hhead : parseResponseHead library (synthesizeWsResponse events) =
      .ok ⟨(wsResponseHead (wsBody events).length).length, .http11, none, none, some 200,
        wsHeaders "text/event-stream" (wsBody events).length⟩ := by
    have hheaders := toHeaderMap_ws h "text/event-stream" (by decide)
      (wsBody events).length
    rw [parseResponseHead, h.response events hevents]
    simp only [Option.elim, bind, Except.bind, parseVersion, hheaders]
    rfl
  rw [parseHttpResponse, hhead]
  simp only [Except.bind, Head.message, synthesizeWsResponse_eq, List.drop_left,
    decodeBody_wsHeaders _ (h.responseFits events hevents)]
  rfl

end Heads

/-! ## The attempt of a call -/

/-- What `serde_json` says of a text that is an object: it begins with a brace, of its beginnings
only those with the whole object can be read, and a line of it begins with a token. -/
structure ReadsObject (library : ExchangeLibrary) (text : String) : Prop where
  object : ∃ members, library.parseJson (textBytes text) = .ok (.object members)
  brace : (Text.trimStart text).toList.head? = some '{'
  beginnings : ∀ start json, start.toList <+: (Text.trimStart text).toList →
    library.parseJson (textBytes start) = .ok json → library.parseJson (textBytes text) = .ok json
  tokens : NoFields text

/-- What a call over HTTP is decoded from: the body of the request has the metadata, and the
answer is an event stream of the same objects. -/
structure HttpCall (library : ExchangeLibrary) (body : Bytes) (texts : List String)
    (requestRaw responseRaw : Bytes) (request response : HttpMessage) : Prop where
  requestParsed : parseHttpRequest library.toHttpLibrary requestRaw = .ok request
  responseParsed : parseHttpResponse library.toHttpLibrary responseRaw = .ok response
  body : request.body.decoded = body
  requestComplete : request.body.complete = true
  responseComplete : response.body.complete = true
  metadata : request.headers.get METADATA_HEADER = none
  success : response.status.any isSuccess = true
  events : ∃ events, parseSseEvents response.body.decoded = .ok events ∧
    events.map (fun event => library.parseJson (textBytes event.data)) =
      texts.map fun text => library.parseJson (textBytes text)

section Attempts
variable {library : ExchangeLibrary} {id : Uuid} {requestRaw responseRaw : Bytes}
  {request response : HttpMessage} {atMs : ℤ} {events : List SseEvent} {payloads : List Json}

theorem parsePayloads_eq_ok :
    parsePayloads library events = .ok payloads ↔
      events.map (fun event => library.parseJson (textBytes event.data)) = payloads.map .ok := by
  induction events generalizing payloads with
  | nil =>
      rw [parsePayloads, List.map_nil, Except.ok.injEq, eq_comm, eq_comm (a := [])]
      exact List.map_eq_nil_iff.symm
  | cons event events ih =>
      rw [parsePayloads, List.map_cons]
      cases hjson : library.parseJson (textBytes event.data) with
      | error e => cases payloads <;> simp
      | ok json =>
          cases payloads with
          | nil => cases parsePayloads library events <;> simp [Except.map]
          | cons payload payloads =>
              rw [List.map_cons, List.cons.injEq, ← ih]
              cases parsePayloads library events with
              | error e => simp [Except.map]
              | ok rest => simp [Except.map]

/-- Without a header the metadata are those of the body. -/
theorem extractTurnMetadata_of_none {headers : HeaderMap} (h : headers.get METADATA_HEADER = none)
    (json : Json) :
    extractTurnMetadata library headers json = extractTurnMetadata library [] json := by
  rw [extractTurnMetadata, extractTurnMetadata, h]
  rfl

/-- A call with metadata in its body and a stream of events for an answer. -/
theorem decodeExchange_stream
    (hrequest : parseHttpRequest library.toHttpLibrary requestRaw = .ok request)
    (hresponse : parseHttpResponse library.toHttpLibrary responseRaw = .ok response)
    (hheader : request.headers.get METADATA_HEADER = none)
    (hsuccess : response.status.any isSuccess = true)
    (hevents : parseSseEvents response.body.decoded = .ok events) {attempt : DecodedAttempt} :
    decodeExchange library id requestRaw responseRaw atMs = .ok attempt ↔
      ∃ json metadata payloads, library.parseJson request.body.decoded = .ok json ∧
        extractTurnMetadata library [] json = .ok metadata ∧
        parsePayloads library events = .ok payloads ∧
        attempt = decodeHttpExchange id metadata json request.body.complete
          response.body.complete (.stream payloads) atMs := by
  have hresponseOf : responseOf library response.status response.body.decoded =
      (parsePayloads library events).map .stream := by
    rcases (Option.any_eq_true _ _).mp hsuccess with ⟨status, hstatus, hisSuccess⟩
    rw [responseOf, hstatus, if_neg (by simp [hisSuccess]), hevents]
    rfl
  rw [decodeExchange, hrequest, hresponse]
  simp only [Except.mapError, bind, Except.bind]
  cases hjson : library.parseJson request.body.decoded with
  | error e => simp
  | ok json =>
      simp only [extractTurnMetadata_of_none hheader, hresponseOf]
      cases hmetadata : extractTurnMetadata library [] json with
      | error e => simp [hmetadata]
      | ok metadata =>
          cases hpayloads : parsePayloads library events with
          | error e => simp [Except.map]
          | ok payloads =>
              simp [Except.map, hmetadata, pure, Except.pure, eq_comm]

end Attempts

/-! ## The messages of the server -/

section Messages
variable {η : Type} (library : ApplicationLibrary η)

/-- The messages up to the first one that ends the answer. -/
def untilTerminal : List String → Option (List String)
  | [] => none
  | text :: texts =>
      if isTerminalMessage library text then some [text]
      else (untilTerminal texts).map fun texts => text :: texts

/-- The last message is no `error`, no earlier one ends the answer, and the first line of each is
JSON as it stands behind `data:`. -/
structure Rendered (texts : List String) : Prop where
  last : ∀ text ∈ texts.getLast?, payloadType library text ≠ some "error"
  earlier : ∀ text ∈ texts.dropLast, isTerminalMessage library text = false
  lines : ∀ text ∈ texts,
    ∃ json, library.parseJson (textBytes (messageEvent text).data) = .ok json

/-- What is projected of two exchanges is the same, but for the identifier of the attempt. -/
structure SameResult (exchange exchange' : DecodedExchange) : Prop where
  identity : exchange.attempt.identity = exchange'.attempt.identity
  model : exchange.attempt.model = exchange'.attempt.model
  events : exchange.anonymous.attempt.decodedEvents = exchange'.anonymous.attempt.decodedEvents
  projection : mapAttemptProjection exchange.attempt = mapAttemptProjection exchange'.attempt

variable {library} {texts upto : List String}

theorem untilTerminal_append (texts texts' : List String) :
    untilTerminal library (texts ++ texts') =
      (untilTerminal library texts).or
        ((untilTerminal library texts').map fun rest => texts ++ rest) := by
  induction texts with
  | nil => simp [untilTerminal]
  | cons text texts ih =>
      rw [List.cons_append, untilTerminal, untilTerminal, ih]
      split
      · rfl
      · cases untilTerminal library texts <;> simp [Function.comp_def]

theorem exists_of_untilTerminal (h : untilTerminal library texts = some upto) :
    upto <+: texts ∧ ∃ before last, upto = before ++ [last] ∧
      isTerminalMessage library last = true ∧
      ∀ text ∈ before, isTerminalMessage library text = false := by
  induction texts generalizing upto with
  | nil => cases h
  | cons text texts ih =>
      rw [untilTerminal] at h
      by_cases hterminal : isTerminalMessage library text = true
      · rw [if_pos hterminal] at h
        cases h
        exact ⟨⟨texts, rfl⟩, [], text, rfl, hterminal, by simp⟩
      · rw [if_neg hterminal] at h
        rcases Option.map_eq_some_iff.mp h with ⟨rest, hrest, rfl⟩
        rcases ih hrest with ⟨hstart, before, last, rfl, hlast, hbefore⟩
        refine ⟨(List.prefix_cons_inj text).mpr hstart, text :: before, last, rfl, hlast, ?_⟩
        rw [List.forall_mem_cons]
        exact ⟨by simpa using hterminal, hbefore⟩

theorem untilTerminal_self {before : List String} {last : String}
    (hlast : isTerminalMessage library last = true)
    (hbefore : ∀ text ∈ before, isTerminalMessage library text = false) :
    untilTerminal library (before ++ [last]) = some (before ++ [last]) := by
  induction before with
  | nil => simp [untilTerminal, hlast]
  | cons text before ih =>
      rw [List.forall_mem_cons] at hbefore
      rw [List.cons_append, untilTerminal, if_neg (by simp [hbefore.1]), ih hbefore.2]
      rfl

/-- The whole object is read where anything is. -/
theorem parseJson_data {library : ExchangeLibrary} {text : String} (h : ReadsObject library text)
    {json : Json} (hdata : library.parseJson (textBytes (messageEvent text).data) = .ok json) :
    library.parseJson (textBytes text) = .ok json :=
  h.beginnings _ json (prefix_data_messageEvent text) hdata

end Messages

/-! ## The exchange of the messages -/

section Exchange
variable {η : Type} {library : ApplicationLibrary η} {body : Bytes} {texts events : List String}
  {requestRaw responseRaw : Bytes} {request response : HttpMessage} {id id' : Uuid} {atMs atMs' : ℤ}

variable (library id id') in
theorem wsExchangeOf_identified (call : WebSocketRequest) :
    (wsExchangeOf library id call).map (DecodedExchange.identified id') =
      wsExchangeOf library id' call := by
  rw [wsExchangeOf, wsExchangeOf]
  simp only [Option.bind_eq_bind, Option.map_bind]
  congr 1
  funext request
  rw [Function.comp_apply, Option.map_bind]
  congr 1
  funext response
  exact exchangeOf_identified id id' _ _ _ _ _

theorem wsBody_eq (events : List String) :
    wsBody events = events.flatMap fun text =>
      textBytes "event: message\ndata: " ++ textBytes text ++ textBytes "\n\n" := by
  have hhead : asciiBytes "event: message\ndata: " = textBytes "event: message\ndata: " := by
    decide +kernel
  have hfeeds : asciiBytes "\n\n" = textBytes "\n\n" := by decide +kernel
  rw [wsBody, hhead, hfeeds]

variable (id atMs) in
/-- The exchange that the messages are written as, where it can be decoded. -/
theorem exists_wsExchangeOf_iff (hheads : ReadsHeads library.toHttpLibrary body texts)
    (hobjects : ∀ text ∈ texts, ReadsObject library.toExchangeLibrary text)
    (hevents : events <+: texts) {attempt : DecodedAttempt} :
    (∃ exchange, wsExchangeOf library id ⟨body, atMs, events⟩ = some exchange ∧
        exchange.attempt = attempt) ↔
      ∃ json metadata payloads, library.parseJson body = .ok json ∧
        extractTurnMetadata library.toExchangeLibrary [] json = .ok metadata ∧
        parsePayloads library.toExchangeLibrary (events.map messageEvent) = .ok payloads ∧
        attempt = decodeHttpExchange id metadata json true true (.stream payloads) atMs := by
  have hrequest := parse_synthesizeWsRequest hheads
  have hresponse := parse_synthesizeWsResponse hheads hevents
  have hsse : parseSseEvents (wsBody events) = .ok (events.map messageEvent) := by
    rw [wsBody_eq]
    exact parseSseEvents_messages fun text htext =>
      (hobjects text (hevents.subset htext)).tokens
  have hdecode : decodeExchange library.toExchangeLibrary id (synthesizeWsRequest body)
      (synthesizeWsResponse events) atMs = .ok attempt ↔ _ :=
    decodeExchange_stream hrequest hresponse rfl rfl hsse
  rw [← hdecode, wsExchangeOf]
  simp only [hrequest, hresponse, Except.toOption, Option.bind_eq_bind, Option.bind_some,
    exchangeOf]
  cases decodeExchange library.toExchangeLibrary id (synthesizeWsRequest body)
      (synthesizeWsResponse events) atMs with
  | error e => simp
  | ok decoded => simp

theorem mapAttemptProjection_identified (id : Uuid) (attempt : DecodedAttempt) :
    mapAttemptProjection (attempt.identified id) = mapAttemptProjection attempt := by
  have hscan : scan (attempt.decodedEvents.map (DecodedEvent.identified id)) =
      scan attempt.decodedEvents := by
    rw [scan, scan, List.foldl_map]
    congr 1
    funext s event
    cases event <;> rfl
  have hevents : (attempt.identified id).decodedEvents =
      attempt.decodedEvents.map (DecodedEvent.identified id) := rfl
  rw [mapAttemptProjection, mapAttemptProjection, hevents, hscan]
  rfl

/-- The same attempt at another time, under another identifier. -/
theorem sameResult_of_attempts {exchange exchange' : DecodedExchange}
    {metadata : DecodedTurnMetadata} {json : Json} {answer : Response}
    (h : exchange.attempt = decodeHttpExchange id metadata json true true answer atMs)
    (h' : exchange'.attempt = decodeHttpExchange id' metadata json true true answer atMs') :
    SameResult exchange exchange' := by
  have hidentified : exchange.anonymous.attempt.decodedEvents =
      exchange'.anonymous.attempt.decodedEvents := by
    rw [DecodedExchange.anonymous, DecodedExchange.anonymous, DecodedExchange.identified,
      DecodedExchange.identified, h, h']
    simp only [identified_decodeHttpExchange]
    rfl
  refine ⟨by rw [h, h']; rfl, by rw [h, h']; rfl, hidentified, ?_⟩
  have hprojection := mapAttemptProjection_identified id'
    (decodeHttpExchange id metadata json true true answer atMs)
  rw [identified_decodeHttpExchange] at hprojection
  rw [h, h', ← hprojection]
  rfl

/-- A message that ends an answer over HTTP has an event. -/
theorem mapResponsesEvent_ne_nil {json : Json} {kind : String}
    (htype : json.getStr "type" = some kind) (hkind : kind ∈ TERMINAL_TYPES) :
    mapResponsesEvent id json ≠ [] := by
  rw [mapResponsesEvent, htype]
  simp only [TERMINAL_TYPES, List.mem_cons, List.not_mem_nil, or_false] at hkind
  rcases hkind with rfl | rfl | rfl | rfl | rfl <;> simp

theorem parsePayloads_map {texts : List String} {payloads : List Json}
    (h : ∀ text ∈ texts, ReadsObject library.toExchangeLibrary text)
    (htexts : texts.map (fun text => library.parseJson (textBytes text)) = payloads.map .ok)
    (hlines : ∀ text ∈ texts,
      ∃ json, library.parseJson (textBytes (messageEvent text).data) = .ok json) :
    parsePayloads library.toExchangeLibrary (texts.map messageEvent) = .ok payloads := by
  rw [parsePayloads_eq_ok, List.map_map, ← htexts]
  apply List.map_congr_left
  intro text htext
  rcases hlines text htext with ⟨json, hjson⟩
  rw [Function.comp_apply, hjson, parseJson_data (h text htext) hjson]

/-- The lines of the messages can be read where their events can. -/
theorem lines_of_parsePayloads {texts : List String} {payloads : List Json}
    (h : parsePayloads library.toExchangeLibrary (texts.map messageEvent) = .ok payloads) :
    ∀ text ∈ texts, ∃ json, library.parseJson (textBytes (messageEvent text).data) = .ok json := by
  rw [parsePayloads_eq_ok, List.map_map] at h
  intro text htext
  have hmem := List.mem_map_of_mem (f := (fun event : SseEvent =>
    library.parseJson (textBytes event.data)) ∘ messageEvent) htext
  rw [h, List.mem_map] at hmem
  rcases hmem with ⟨json, -, hjson⟩
  exact ⟨json, hjson.symm⟩

theorem untilTerminal_of_rendered {before : List String} {last : String}
    (htexts : texts = before ++ [last])
    (hlast : (payloadType library last).any (fun kind => kind ∈ TERMINAL_TYPES) = true)
    (h : Rendered library texts) : untilTerminal library texts = some texts := by
  subst htexts
  rcases (Option.any_eq_true _ _).mp hlast with ⟨kind, hkind, hmem⟩
  have hne : kind ≠ "error" := fun heq => h.last last (by simp) (by rw [hkind, heq])
  have hterminal : isTerminalMessage library last = true := by
    rw [isTerminalMessage, hkind]
    simp only [TERMINAL_TYPES, List.mem_cons, List.not_mem_nil, or_false, decide_eq_true_eq] at hmem
    simpa [hne] using hmem
  exact untilTerminal_self hterminal (by simpa using h.earlier)

theorem rendered_of_untilTerminal (h : untilTerminal library texts = some texts)
    (hlines : ∀ text ∈ texts,
      ∃ json, library.parseJson (textBytes (messageEvent text).data) = .ok json) :
    Rendered library texts := by
  rcases exists_of_untilTerminal h with ⟨-, before, last, rfl, hlast, hbefore⟩
  refine ⟨?_, by simpa using hbefore, hlines⟩
  intro text htext herror
  obtain rfl : last = text := by simpa using htext
  rw [isTerminalMessage, herror] at hlast
  simp at hlast

/-- The last message has an event over HTTP, so that no part of the messages has as many. -/
theorem eq_of_events_eq {upto before : List String} {last : String} {payloads payloads' : List Json}
    (htexts : texts = before ++ [last])
    (hlast : (payloadType library last).any (fun kind => kind ∈ TERMINAL_TYPES) = true)
    (hupto : upto <+: texts)
    (hpayloads : texts.map (fun text => library.parseJson (textBytes text)) = payloads.map .ok)
    (hpayloads' : upto.map (fun text => library.parseJson (textBytes text)) = payloads'.map .ok)
    (hevents : payloads'.flatMap (mapResponsesEvent id) = payloads.flatMap (mapResponsesEvent id)) :
    upto = texts := by
  rcases hupto with ⟨rest, hrest⟩
  rw [← hrest, List.map_append] at hpayloads
  rcases List.map_eq_append_iff.mp hpayloads.symm with ⟨first, second, rfl, hfirst, hsecond⟩
  obtain rfl : first = payloads' := by
    rw [hpayloads'] at hfirst
    exact List.map_injective_iff.mpr (fun a b h => Except.ok.inj h) hfirst
  rw [List.flatMap_append, List.self_eq_append_right, List.flatMap_eq_nil_iff] at hevents
  cases hreverse : rest.reverse with
  | nil =>
      rw [List.reverse_eq_nil_iff] at hreverse
      rw [← hrest, hreverse, List.append_nil]
  | cons text others =>
      have hend : rest = others.reverse ++ [text] := by
        rw [← List.reverse_reverse rest, hreverse, List.reverse_cons]
      obtain rfl : text = last := by
        rw [htexts, hend, ← List.append_assoc] at hrest
        exact (List.append_singleton_inj.mp hrest).2
      have hmem : library.parseJson (textBytes text) ∈
          rest.map fun text => library.parseJson (textBytes text) :=
        List.mem_map_of_mem (f := fun text => library.parseJson (textBytes text)) (by simp [hend])
      rw [← hsecond, List.mem_map] at hmem
      rcases hmem with ⟨json, hmem, hjson⟩
      rcases (Option.any_eq_true _ _).mp hlast with ⟨kind, hkind, hterminal⟩
      rw [payloadType, ← hjson] at hkind
      exact absurd (hevents json hmem) (mapResponsesEvent_ne_nil hkind (by simpa using hterminal))

theorem decodedEvents_anonymous {exchange : DecodedExchange} {metadata : DecodedTurnMetadata}
    {json : Json} {payloads : List Json} {complete complete' : Bool}
    (h : exchange.attempt =
      decodeHttpExchange id metadata json complete complete' (.stream payloads) atMs) :
    exchange.anonymous.attempt.decodedEvents =
      [.taskObserved (json.getStr "model"), .attemptStarted (.v7 0) (json.getStr "model")] ++
        payloads.flatMap (mapResponsesEvent (.v7 0)) := by
  rw [DecodedExchange.anonymous, DecodedExchange.identified, h, identified_decodeHttpExchange]
  rfl

variable (id' atMs') in
/-- The messages give the exchange of the call exactly where they are written as they were
meant. -/
theorem sameResult_iff_rendered {http : DecodedExchange} {before : List String} {last : String}
    (hheads : ReadsHeads library.toHttpLibrary body texts)
    (hobjects : ∀ text ∈ texts, ReadsObject library.toExchangeLibrary text)
    (htexts : texts = before ++ [last])
    (hlast : (payloadType library last).any (fun kind => kind ∈ TERMINAL_TYPES) = true)
    (hcall : HttpCall library.toExchangeLibrary body texts requestRaw responseRaw request response)
    (hhttp : exchangeOf library id requestRaw responseRaw request response atMs = some http) :
    (∃ exchange, (untilTerminal library texts).bind (fun upto =>
        wsExchangeOf library id' ⟨body, atMs', upto⟩) = some exchange ∧ SameResult exchange http) ↔
      Rendered library texts := by
  rcases hcall.events with ⟨stream, hstream, hsame⟩
  have hdecoded : decodeExchange library.toExchangeLibrary id requestRaw responseRaw atMs =
      .ok http.attempt := by
    rw [exchangeOf] at hhttp
    rcases Option.map_eq_some_iff.mp hhttp with ⟨attempt, hattempt, rfl⟩
    cases hdecode : decodeExchange library.toExchangeLibrary id requestRaw responseRaw atMs with
    | error e => simp [hdecode, Except.toOption] at hattempt
    | ok decoded =>
        rw [hdecode] at hattempt
        cases hattempt
        rfl
  rw [decodeExchange_stream hcall.requestParsed hcall.responseParsed hcall.metadata hcall.success
    hstream, hcall.body, hcall.requestComplete, hcall.responseComplete] at hdecoded
  rcases hdecoded with ⟨json, metadata, payloads, hjson, hmetadata, hpayloads, hattempt⟩
  rw [parsePayloads_eq_ok, hsame] at hpayloads
  constructor
  · intro h
    rcases h with ⟨exchange, hexchange, hresult⟩
    rcases Option.bind_eq_some_iff.mp hexchange with ⟨upto, hupto, hws⟩
    have hstart := (exists_of_untilTerminal hupto).1
    rcases (exists_wsExchangeOf_iff id' atMs' hheads hobjects hstart).mp ⟨exchange, hws, rfl⟩ with
      ⟨json', metadata', payloads', -, -, hpayloads', hattempt'⟩
    have hlines := lines_of_parsePayloads hpayloads'
    have hread : upto.map (fun text => library.parseJson (textBytes text)) = payloads'.map .ok := by
      rw [parsePayloads_eq_ok, List.map_map] at hpayloads'
      rw [← hpayloads']
      apply List.map_congr_left
      intro text htext
      rcases hlines text htext with ⟨value, hvalue⟩
      rw [Function.comp_apply, hvalue,
        parseJson_data (hobjects text (hstart.subset htext)) hvalue]
    have hevents := hresult.events
    rw [decodedEvents_anonymous hattempt', decodedEvents_anonymous hattempt] at hevents
    have hsameEvents := (List.append_inj hevents rfl).2
    obtain rfl := eq_of_events_eq htexts hlast hstart hpayloads hread hsameEvents
    exact rendered_of_untilTerminal hupto hlines
  · intro h
    have hupto := untilTerminal_of_rendered htexts hlast h
    have hread := parsePayloads_map hobjects hpayloads h.lines
    rcases (exists_wsExchangeOf_iff id' atMs' hheads hobjects List.prefix_rfl).mpr
      ⟨json, metadata, payloads, hjson, hmetadata, hread, rfl⟩ with ⟨exchange, hexchange, hattempt'⟩
    refine ⟨exchange, ?_, sameResult_of_attempts hattempt' hattempt⟩
    rw [hupto]
    exact hexchange

end Exchange

/-! ## The pieces of a conversation -/

def textPayloads (frames : List WebSocketFrame) : List Bytes :=
  (frames.filter fun frame => frame.opcode = 1).map WebSocketFrame.payload

/-- The text messages of the pieces, and the decoders after them. -/
def wsMessages : WebSocketState → List Piece → Option (List (Direction × Bytes) × WebSocketState)
  | ws, [] => some ([], ws)
  | ws, piece :: pieces =>
      match pushWs ws piece.direction piece.bytes with
      | .error _ => none
      | .ok (frames, ws) => (wsMessages ws pieces).map fun r =>
          ((textPayloads frames).map (fun payload => (piece.direction, payload)) ++ r.1, r.2)

/-- The request in one text message, and then the messages of the server. -/
structure Conversation {η : Type} (state : FlowProtocol η) (asking answering : List Piece)
    (body : Bytes) (texts : List String) : Prop where
  messages : ∃ ws asked answered, state.protocol = .webSocket ws ∧
    wsMessages ws asking = some ([(.clientToServer, body)], asked) ∧
    wsMessages asked answering =
      some (texts.map fun text => (.serverToClient, textBytes text), answered)
  server : ∀ piece ∈ answering, piece.direction = .serverToClient

/-- The flow has these decoders, and this request waits. -/
def Waits {η : Type} (state : FlowProtocol η) (ws : WebSocketState)
    (current : Option WebSocketRequest) : Prop :=
  state.protocol = .webSocket { ws with currentRequest := current }

section Frames
variable {η : Type} {library : ApplicationLibrary η} {t : Tick} {index : ℕ}
  {current : Option WebSocketRequest} {frames : List WebSocketFrame}

theorem acceptFrames_client :
    acceptFrames library t .clientToServer index current frames =
      ([], some
        (((textPayloads frames).getLast?.map fun body => ⟨body, t.nowMs, []⟩).or current)) := by
  induction frames generalizing index current with
  | nil => rfl
  | cons frame frames ih =>
      rw [acceptFrames, acceptFrame]
      by_cases htext : frame.opcode = 1
      · have hpayloads : textPayloads (frame :: frames) = frame.payload :: textPayloads frames := by
          simp [textPayloads, htext]
        rw [if_neg (by simpa using htext), hpayloads]
        simp only [Progress.andThen, ih, List.nil_append, List.getLast?_cons]
        cases (textPayloads frames).getLast? <;> rfl
      · have hpayloads : textPayloads (frame :: frames) = textPayloads frames := by
          simp [textPayloads, htext]
        rw [if_pos (by simpa using htext), hpayloads]
        simp only [Progress.andThen, ih, List.nil_append]

theorem acceptFrames_none :
    acceptFrames library t .serverToClient index none frames = ([], some none) := by
  induction frames generalizing index with
  | nil => rfl
  | cons frame frames ih =>
      have hframe : acceptFrame library t .serverToClient index none frame = ([], some none) := by
        rw [acceptFrame]
        split <;> rfl
      rw [acceptFrames, hframe]
      simp only [Progress.andThen, ih, List.nil_append]

variable (library t index) in
/-- What the messages of one piece are to the request that waits. -/
theorem acceptFrames_server (texts : List String) (call : WebSocketRequest)
    (hpayloads : textPayloads frames = texts.map textBytes)
    (hbrace : ∀ text ∈ texts, (Text.trimStart text).toList.head? = some '{') :
    acceptFrames library t .serverToClient index (some call) frames =
      match untilTerminal library texts with
      | none => ([], some (some { call with responseEvents := call.responseEvents ++ texts }))
      | some upto =>
          match wsExchangeOf library (t.ids (.attempt index))
              { call with responseEvents := call.responseEvents ++ upto } with
          | none => ([], none)
          | some exchange => ([exchange], some none) := by
  induction frames generalizing index call texts with
  | nil =>
      obtain rfl : texts = [] := by simpa [textPayloads, eq_comm] using hpayloads
      simp [acceptFrames, untilTerminal]
  | cons frame frames ih =>
      rw [acceptFrames, acceptFrame]
      by_cases htext : frame.opcode = 1
      · have hcons : textPayloads (frame :: frames) = frame.payload :: textPayloads frames := by
          simp [textPayloads, htext]
        rw [hcons] at hpayloads
        cases texts with
        | nil => simp at hpayloads
        | cons text texts =>
            rw [List.map_cons, List.cons.injEq] at hpayloads
            rw [List.forall_mem_cons] at hbrace
            rw [if_neg (by simpa using htext)]
            simp only [acceptServerText, hpayloads.1, fromUtf8Lossy_textBytes, hbrace.1, ne_eq,
              not_true_eq_false, if_false, untilTerminal]
            by_cases hterminal : isTerminalMessage library text = true
            · simp only [hterminal, Bool.not_true, Bool.false_eq_true, if_false, if_true]
              cases wsExchangeOf library (t.ids (.attempt index))
                  { call with responseEvents := call.responseEvents ++ [text] } with
              | none => rfl
              | some exchange => simp [Progress.andThen, acceptFrames_none]
            · have hfalse : isTerminalMessage library text = false := by simpa using hterminal
              simp only [hfalse, Bool.not_false, if_true, Bool.false_eq_true, if_false,
                Progress.andThen, List.length_nil, Nat.add_zero, List.nil_append,
                ih _ _ _ hpayloads.2 hbrace.2]
              cases untilTerminal library texts <;> simp
      · have hsame : textPayloads (frame :: frames) = textPayloads frames := by
          simp [textPayloads, htext]
        rw [hsame] at hpayloads
        rw [if_pos (by simpa using htext)]
        simp only [Progress.andThen, List.length_nil, Nat.add_zero, List.nil_append,
          ih _ _ _ hpayloads hbrace]

end Frames

section Pieces
variable {η : Type} {library : ApplicationLibrary η} {state : FlowProtocol η} {piece : Piece}
  {pieces : List Piece} {ws ws' : WebSocketState} {current : Option WebSocketRequest}
  {frames : List WebSocketFrame}

variable (current) in
/-- The decoders do not ask for the request that waits. -/
theorem pushWs_current {direction : Direction} {bytes : Bytes}
    (h : pushWs ws direction bytes = .ok (frames, ws')) :
    pushWs { ws with currentRequest := current } direction bytes =
      .ok (frames, { ws' with currentRequest := current }) := by
  cases direction with
  | clientToServer =>
      simp only [pushWs] at h ⊢
      cases hpush : ws.client.push bytes with
      | error e => simp [hpush, Except.map] at h
      | ok r =>
          rw [hpush] at h
          cases h
          rfl
  | serverToClient =>
      simp only [pushWs] at h ⊢
      cases hpush : ws.server.push bytes with
      | error e => simp [hpush, Except.map] at h
      | ok r =>
          rw [hpush] at h
          cases h
          rfl

variable (library) in
/-- One piece of a WebSocket flow. -/
theorem Waits.receive (h : Waits state ws current)
    (hpush : pushWs ws piece.direction piece.bytes = .ok (frames, ws')) :
    delivered library state piece =
        (if (acceptFrames library piece.tick piece.direction 0 current frames).2.isSome then
          (acceptFrames library piece.tick piece.direction 0 current frames).1 else []) ∧
      (∀ current', (acceptFrames library piece.tick piece.direction 0 current frames).2 =
        some current' → Waits (receivePiece library state piece) ws' current') ∧
      ((acceptFrames library piece.tick piece.direction 0 current frames).2 = none →
        receivePiece library state piece = .start) := by
  have hprotocol : detect library (state.buffered piece.direction piece.bytes) =
      .webSocket { ws with currentRequest := current } := protocolFor_webSocket h
  have hpushed := pushWs_current current hpush
  refine ⟨?_, ?_, ?_⟩
  · simp only [delivered, processBytes, hprotocol, consumeWebsocket, hpushed, Progress.andThen]
    cases (acceptFrames library piece.tick piece.direction 0 current frames).2 <;> simp
  · intro current' hcurrent
    simp only [receivePiece, processBytes, hprotocol, consumeWebsocket, hpushed, Progress.andThen,
      hcurrent]
    rfl
  · intro hfails
    simp only [receivePiece, processBytes, hprotocol, consumeWebsocket, hpushed, Progress.andThen,
      hfails]
    rfl

theorem wsMessages_cons {messages : List (Direction × Bytes)}
    (h : wsMessages ws (piece :: pieces) = some (messages, ws')) :
    ∃ frames next rest, pushWs ws piece.direction piece.bytes = .ok (frames, next) ∧
      wsMessages next pieces = some (rest, ws') ∧
      messages = (textPayloads frames).map (fun payload => (piece.direction, payload)) ++ rest := by
  rw [wsMessages] at h
  cases hpush : pushWs ws piece.direction piece.bytes with
  | error e => simp [hpush] at h
  | ok pushed =>
      simp only [hpush] at h
      rcases Option.map_eq_some_iff.mp h with ⟨r, hr, heq⟩
      cases heq
      exact ⟨pushed.1, pushed.2, r.1, rfl, hr, rfl⟩

theorem acceptFrames_noText {t : Tick} {index : ℕ} (h : textPayloads frames = []) :
    acceptFrames library t .serverToClient index current frames = ([], some current) := by
  cases current with
  | none => exact acceptFrames_none
  | some call =>
      rw [acceptFrames_server library t index [] call h (by simp)]
      simp [untilTerminal]

variable (library) in
/-- Messages of the client are requests, of which the last one waits. -/
theorem Waits.ask {messages : List (Direction × Bytes)} (h : Waits state ws current)
    (hmessages : wsMessages ws pieces = some (messages, ws'))
    (hclient : ∀ message ∈ messages, message.1 = .clientToServer) :
    (outputs library state pieces).flatten = [] ∧
      ∃ atMs, Waits (Run.run (receivePiece library) state pieces) ws'
        ((messages.getLast?.map fun message => ⟨message.2, atMs, []⟩).or current) := by
  induction pieces generalizing state ws current messages with
  | nil =>
      rw [wsMessages, Option.some.injEq, Prod.mk.injEq] at hmessages
      rcases hmessages with ⟨rfl, rfl⟩
      exact ⟨rfl, 0, h⟩
  | cons piece pieces ih =>
      rcases wsMessages_cons hmessages with ⟨frames, next, rest, hpush, hrest, rfl⟩
      have hpayloads : ∀ payload ∈ textPayloads frames, piece.direction = .clientToServer :=
        fun payload hpayload => hclient (piece.direction, payload)
          (List.mem_append_left _ (List.mem_map_of_mem hpayload))
      have haccept : acceptFrames library piece.tick piece.direction 0 current frames =
          ([], some (((textPayloads frames).getLast?.map fun body =>
            ⟨body, piece.tick.nowMs, []⟩).or current)) := by
        cases hdirection : piece.direction with
        | clientToServer => exact acceptFrames_client
        | serverToClient =>
            have hnone : textPayloads frames = [] := by
              rw [List.eq_nil_iff_forall_not_mem]
              intro payload hpayload
              cases hdirection.symm.trans (hpayloads payload hpayload)
            rw [acceptFrames_noText hnone, hnone]
            rfl
      rcases h.receive library hpush with ⟨hdelivered, hafter, -⟩
      rcases ih (hafter _ (by rw [haccept])) hrest
        (fun message hmessage => hclient message (List.mem_append_right _ hmessage)) with
        ⟨houtputs, atMs, hwaits⟩
      refine ⟨?_, ?_⟩
      · rw [Client.outputs, List.flatten_cons, houtputs, hdelivered, haccept]
        rfl
      · rw [Run.run_cons]
        cases hlast : rest.getLast? with
        | none =>
            rw [List.getLast?_eq_none_iff] at hlast
            subst hlast
            refine ⟨piece.tick.nowMs, ?_⟩
            rw [List.append_nil, List.getLast?_map, Option.map_map]
            exact hwaits
        | some message =>
            refine ⟨atMs, ?_⟩
            rw [hlast] at hwaits
            rw [List.getLast?_append, hlast]
            exact hwaits

/-- A flow that has seen nothing of the client. -/
structure Unasked (state : FlowProtocol η) : Prop where
  protocol : state.protocol = .unknown ∨ state.protocol = .http1
  client : state.clientBuffer = []
  queue : state.requestQueue = []

theorem unasked_start : Unasked (.start : FlowProtocol η) := ⟨.inl rfl, rfl, rfl⟩

theorem consumeHttp1_unasked (library : ApplicationLibrary η) (t : Tick) (state : FlowProtocol η)
    (hclient : state.clientBuffer = []) (hqueue : state.requestQueue = []) :
    consumeHttp1 library t state = ([], some { state with requestQueue := [] }) := by
  rw [consumeHttp1_idle hclient, hqueue]
  rfl

variable (library) in
theorem Unasked.receive (h : Unasked state) (hserver : piece.direction = .serverToClient) :
    delivered library state piece = [] ∧ Unasked (receivePiece library state piece) := by
  have hclient : (state.buffered piece.direction piece.bytes).clientBuffer = [] := by
    rw [hserver]
    exact h.client
  have hqueue : (state.buffered piece.direction piece.bytes).requestQueue = [] := by
    rw [requestQueue_buffered, h.queue]
  have hdetect : detect library (state.buffered piece.direction piece.bytes) = .unknown ∨
      detect library (state.buffered piece.direction piece.bytes) = .http1 := by
    rw [detect, protocol_buffered]
    rcases h.protocol with hprotocol | hprotocol
    · have hpreface : startsWith [] "PRI * HTTP/2.0" = false := by decide
      rw [hprotocol, hclient, hpreface]
      simp only [Bool.false_eq_true, if_false]
      split <;> simp
    · rw [hprotocol]
      exact .inr rfl
  rcases hdetect with hdetect | hdetect
  · rw [delivered, receivePiece]
    simp only [processBytes, hdetect]
    exact ⟨trivial, .inl rfl, hclient, hqueue⟩
  · have hidle := consumeHttp1_unasked library piece.tick
      { state.buffered piece.direction piece.bytes with protocol := .http1 } hclient hqueue
    rw [delivered, receivePiece]
    simp only [processBytes, hdetect, hidle]
    exact ⟨trivial, .inr rfl, hclient, rfl⟩

theorem Unasked.outputs (h : Unasked state)
    (hserver : ∀ piece ∈ pieces, piece.direction = .serverToClient) :
    (outputs library state pieces).flatten = [] := by
  induction pieces generalizing state with
  | nil => rfl
  | cons piece pieces ih =>
      rw [List.forall_mem_cons] at hserver
      rcases h.receive library hserver.1 with ⟨hdelivered, hafter⟩
      rw [Client.outputs, List.flatten_cons, hdelivered, ih hafter hserver.2]
      rfl

/-- Without a request the messages of the server are of no use. -/
theorem Waits.idle {messages : List (Direction × Bytes)} (h : Waits state ws none)
    (hmessages : wsMessages ws pieces = some (messages, ws'))
    (hserver : ∀ piece ∈ pieces, piece.direction = .serverToClient) :
    (outputs library state pieces).flatten = [] := by
  induction pieces generalizing state ws messages with
  | nil => rfl
  | cons piece pieces ih =>
      rw [List.forall_mem_cons] at hserver
      rcases wsMessages_cons hmessages with ⟨frames, next, rest, hpush, hrest, rfl⟩
      have haccept : acceptFrames library piece.tick piece.direction 0 none frames =
          ([], some none) := by
        rw [hserver.1]
        exact acceptFrames_none
      rcases h.receive library hpush with ⟨hdelivered, hafter, -⟩
      rw [Client.outputs, List.flatten_cons, ih (hafter _ (by rw [haccept])) hrest hserver.2,
        hdelivered, haccept]
      rfl

variable (library) in
/-- The answer to a request that waits. -/
theorem Waits.answer {call : WebSocketRequest} {texts : List String}
    (h : Waits state ws (some call))
    (hmessages : wsMessages ws pieces =
      some (texts.map fun text => (.serverToClient, textBytes text), ws'))
    (hserver : ∀ piece ∈ pieces, piece.direction = .serverToClient)
    (hbrace : ∀ text ∈ texts, (Text.trimStart text).toList.head? = some '{') :
    (outputs library state pieces).flatten =
      ((untilTerminal library texts).bind fun upto => wsExchangeOf library (.v7 0)
        { call with responseEvents := call.responseEvents ++ upto }).toList := by
  induction pieces generalizing state ws call texts with
  | nil =>
      rw [wsMessages, Option.some.injEq, Prod.mk.injEq] at hmessages
      obtain rfl : texts = [] := List.map_eq_nil_iff.mp hmessages.1.symm
      rfl
  | cons piece pieces ih =>
      rw [List.forall_mem_cons] at hserver
      rcases wsMessages_cons hmessages with ⟨frames, next, rest, hpush, hrest, hsplit⟩
      rcases List.map_eq_append_iff.mp hsplit with ⟨here, later, rfl, hhere, rfl⟩
      have hpayloads : textPayloads frames = here.map textBytes := by
        have hsnd := congrArg (List.map Prod.snd) hhere
        simpa [Function.comp_def] using hsnd.symm
      rw [List.forall_mem_append] at hbrace
      have haccept := acceptFrames_server library piece.tick 0 here call hpayloads hbrace.1
      rw [← hserver.1] at haccept
      rcases h.receive library hpush with ⟨hdelivered, hafter, hfails⟩
      rw [Client.outputs, List.flatten_cons, hdelivered, untilTerminal_append]
      cases hupto : untilTerminal library here with
      | none =>
          simp only [hupto] at haccept
          have hwaits := hafter _ (by rw [haccept])
          rw [ih hwaits hrest hserver.2 hbrace.2, haccept]
          cases untilTerminal library later <;> simp
      | some upto =>
          simp only [hupto] at haccept
          have hexchange := wsExchangeOf_identified library (piece.tick.ids (.attempt 0)) (.v7 0)
            { call with responseEvents := call.responseEvents ++ upto }
          cases hws : wsExchangeOf library (piece.tick.ids (.attempt 0))
              { call with responseEvents := call.responseEvents ++ upto } with
          | none =>
              simp only [hws] at haccept
              rw [hws] at hexchange
              have hstart := hfails (by rw [haccept])
              rw [hstart, unasked_start.outputs hserver.2, haccept, Option.some_or, Option.bind_some,
                ← hexchange]
              rfl
          | some exchange =>
              simp only [hws] at haccept
              rw [hws] at hexchange
              have hwaits := hafter _ (by rw [haccept])
              rw [hwaits.idle hrest hserver.2, haccept, Option.some_or, Option.bind_some,
                ← hexchange]
              rfl

end Pieces

/-! ## Small conversations -/

theorem conversation_of_messages {η : Type} {state : FlowProtocol η} {ws : WebSocketState}
    {asking answering : List Piece} {body : Bytes} {texts : List String}
    (hprotocol : state.protocol = .webSocket ws)
    (hasked : (wsMessages ws asking).map Prod.fst = some [(.clientToServer, body)])
    (hanswered : ((wsMessages ws asking).bind fun r => (wsMessages r.2 answering).map Prod.fst) =
      some (texts.map fun text => (.serverToClient, textBytes text)))
    (hserver : ∀ piece ∈ answering, piece.direction = .serverToClient) :
    Conversation state asking answering body texts := by
  rcases Option.map_eq_some_iff.mp hasked with ⟨r, hr, hbody⟩
  rw [hr, Option.bind_some] at hanswered
  rcases Option.map_eq_some_iff.mp hanswered with ⟨r', hr', htexts⟩
  refine ⟨⟨ws, r.2, r'.2, hprotocol, ?_, ?_⟩, hserver⟩
  · rw [hr, ← hbody]
  · rw [hr', ← htexts]

theorem prefix_textBytes {start text : String} (h : start.toList <+: text.toList) :
    textBytes start <+: textBytes text := by
  rcases h with ⟨rest, hrest⟩
  rw [textBytes_eq, textBytes_eq, ← hrest, List.flatMap_append]
  exact List.prefix_append _ _

section Known
variable {requests responses : List (Bytes × ParsedHead)} {documents : List (Bytes × Json)}

theorem mem_of_parseJson_known {bytes : Bytes} {json : Json}
    (h : (knownLibrary requests responses documents).parseJson bytes = .ok json) :
    (bytes, json) ∈ documents := by
  simp only [knownLibrary] at h
  cases hfind : documents.find? fun document => document.1 = bytes with
  | none => simp [hfind] at h
  | some document =>
      have hbytes : document.1 = bytes := by simpa using List.find?_some hfind
      simp only [hfind, Except.ok.injEq] at h
      rw [← h, ← hbytes]
      exact List.mem_of_find?_eq_some hfind

theorem parseJson_known_of_mem {bytes : Bytes} {json : Json}
    (hnodup : (documents.map Prod.fst).Nodup) (h : (bytes, json) ∈ documents) :
    (knownLibrary requests responses documents).parseJson bytes = .ok json := by
  have hget := Table.get?_eq_some (t := ⟨documents, hnodup⟩) (k := bytes) (v := json)
  rw [Table.get?] at hget
  rcases Option.map_eq_some_iff.mp (hget.mpr h) with ⟨document, hfind, rfl⟩
  simp only [knownLibrary, hfind]

variable (members : List (String × Json)) in
/-- An object on one line, of which no beginning is a document. -/
theorem readsObject_known {text : String} (hnodup : (documents.map Prod.fst).Nodup)
    (hobject : (textBytes text, .object members) ∈ documents)
    (hbrace : text.toList.head? = some '{') (hline : '\n' ∉ text.toList)
    (hstarts : ∀ bytes ∈ documents.map Prod.fst,
      bytes <+: textBytes text → bytes = textBytes text) :
    ReadsObject (knownLibrary requests responses documents).toExchangeLibrary text := by
  have htrim : Text.trimStart text = text := by
    cases hchars : text.toList with
    | nil => simp [hchars] at hbrace
    | cons c cs =>
        obtain rfl : c = '{' := by simpa [hchars] using hbrace
        have hvisible : Text.isWhitespace '{' = false := by decide
        rw [Text.trimStart, hchars, List.dropWhile_cons_of_neg (by simp [hvisible]), ← hchars,
          String.ofList_toList]
  refine ⟨⟨members, parseJson_known_of_mem hnodup hobject⟩, by rw [htrim, hbrace], ?_, ?_⟩
  · intro start json hstart hjson
    rw [htrim] at hstart
    have hmem := List.mem_map_of_mem (f := Prod.fst) (mem_of_parseJson_known hjson)
    rw [← hstarts _ hmem (prefix_textBytes hstart)]
    exact hjson
  · intro before c after htext
    exact absurd (by simp [htext]) hline

end Known

/-- The metadata as a string in the body. -/
def callBody : Bytes :=
  asciiBytes "\x7b\"client_metadata\":\x7b\"x-codex-turn-metadata\":\"" ++
    (asciiBytes turnMetadata).flatMap (fun b => if b = 34 then [92, 34] else [b]) ++
    asciiBytes "\"\x7d\x7d"

def completedText : String := "\x7b\"type\":\"response.completed\"\x7d"

def errorText : String := "\x7b\"type\":\"error\"\x7d"

/-- Two answers of one message. -/
def smallTexts : List String := [completedText, errorText]

def wsDocuments : List (Bytes × Json) :=
  [(callBody,
      .object [("client_metadata", .object [("x-codex-turn-metadata", .string turnMetadata)])]),
    (asciiBytes turnMetadata, .object turnMembers),
    (textBytes completedText, .object [("type", .string "response.completed")]),
    (textBytes errorText, .object [("type", .string "error")])]

def wsRequestHeaders : List (String × String) :=
  [("Content-Type", "application/json"), ("Content-Length", "134")]

def wsResponseHeaders (length : String) : List (String × String) :=
  [("Content-Type", "text/event-stream"), ("Content-Length", length)]

def wsLibrary : ApplicationLibrary Unit :=
  knownLibrary [requestHead "POST" "/v1/responses" wsRequestHeaders]
    (["0", "52", "39", "37", "24"].map fun length =>
      responseHead 200 "OK" (wsResponseHeaders length))
    wsDocuments

/-- A flow after the upgrade. -/
def upgradedFlow : FlowProtocol Unit := ⟨.webSocket .default, [], [], [], .empty⟩

/-- The request, under a mask of zeros. -/
def askingPieces : List Piece := [clientPiece ([0x81, 0xfe, 0, 134, 0, 0, 0, 0] ++ callBody)]

def answeringPieces (text : String) : List Piece :=
  [serverPiece ([0x81, (textBytes text).length.toUInt8] ++ textBytes text)]

/-- The call over HTTP. -/
def httpRequest : Bytes := (requestHead "POST" "/v1/responses" wsRequestHeaders).1 ++ callBody

def httpBody (text : String) : Bytes := asciiBytes "data: " ++ textBytes text ++ asciiBytes "\n\n"

def httpResponse (text : String) : Bytes :=
  (responseHead 200 "OK" (wsResponseHeaders (httpBody text).length.repr)).1 ++ httpBody text

def callMessage : HttpMessage :=
  ⟨.http11, some "POST", some "/v1/responses", none, wsHeaders "application/json" 134,
    ⟨callBody, callBody, true⟩⟩

def answerMessage (text : String) : HttpMessage :=
  ⟨.http11, none, none, some 200, wsHeaders "text/event-stream" (httpBody text).length,
    ⟨httpBody text, httpBody text, true⟩⟩

theorem prefix_singleton {text : String} {events : List String} (h : events <+: [text]) :
    events = [] ∨ events = [text] := by
  rcases h with ⟨rest, hrest⟩
  cases events with
  | nil => exact .inl rfl
  | cons event events =>
      rw [List.cons_append, List.cons.injEq, List.append_eq_nil_iff] at hrest
      exact .inr (by rw [hrest.1, hrest.2.1])

/-- The frames carry the messages, and of the documents only the message itself begins one. -/
theorem conversation_checked :
    (wsMessages .default askingPieces).map Prod.fst = some [(.clientToServer, callBody)] ∧
      (wsDocuments.map Prod.fst).Nodup ∧
      ∀ text ∈ smallTexts,
        ((wsMessages .default askingPieces).bind fun r =>
            (wsMessages r.2 (answeringPieces text)).map Prod.fst) =
          some [(.serverToClient, textBytes text)] ∧
        text.toList.head? = some '{' ∧ '\n' ∉ text.toList ∧
        ∀ bytes ∈ wsDocuments.map Prod.fst, bytes <+: textBytes text → bytes = textBytes text := by
  decide +kernel

/-- What is written of the messages is read, and the call over HTTP too. -/
theorem written_checked :
    wsLibrary.parseRequest (synthesizeWsRequest callBody) =
        some ⟨(wsRequestHead callBody.length).length, some 1, some "POST", some "/v1/responses",
          none, [("Content-Type", asciiBytes "application/json"),
            ("Content-Length", asciiBytes callBody.length.repr)]⟩ ∧
      callBody.length < 2 ^ 64 ∧
      (∀ events ∈ [[], [completedText], [errorText]],
        wsLibrary.parseResponse (synthesizeWsResponse events) =
            some ⟨(wsResponseHead (wsBody events).length).length, some 1, none, none, some 200,
              [("Content-Type", asciiBytes "text/event-stream"),
                ("Content-Length", asciiBytes (wsBody events).length.repr)]⟩ ∧
          (wsBody events).length < 2 ^ 64) ∧
      parseHttpRequest wsLibrary.toHttpLibrary httpRequest = .ok callMessage ∧
      callMessage.headers.get METADATA_HEADER = none ∧
      ∀ text ∈ smallTexts,
        parseHttpResponse wsLibrary.toHttpLibrary (httpResponse text) = .ok (answerMessage text) ∧
          parseSseEvents (answerMessage text).body.decoded = .ok [⟨none, text⟩] := by
  decide +kernel

theorem mem_of_prefix_small {text : String} {events : List String} (h : text ∈ smallTexts)
    (hevents : events <+: [text]) : events ∈ [[], [completedText], [errorText]] := by
  simp only [smallTexts, List.mem_cons, List.not_mem_nil, or_false] at h
  rcases prefix_singleton hevents with rfl | rfl
  · exact List.mem_cons_self
  · rcases h with rfl | rfl <;> simp

section Small
variable {text : String}

theorem conversation_small (h : text ∈ smallTexts) :
    Conversation upgradedFlow askingPieces (answeringPieces text) callBody [text] := by
  obtain ⟨hasked, -, hanswered⟩ := conversation_checked
  refine conversation_of_messages rfl hasked (hanswered text h).1 ?_
  exact List.forall_mem_singleton.mpr rfl

theorem readsObject_small (h : text ∈ smallTexts) :
    ReadsObject wsLibrary.toExchangeLibrary text := by
  obtain ⟨-, hnodup, htexts⟩ := conversation_checked
  obtain ⟨-, hbrace, hline, hstart⟩ := htexts text h
  simp only [smallTexts, List.mem_cons, List.not_mem_nil, or_false] at h
  rcases h with rfl | rfl
  · exact readsObject_known [("type", .string "response.completed")] hnodup
      (by simp [wsDocuments]) hbrace hline hstart
  · exact readsObject_known [("type", .string "error")] hnodup
      (by simp [wsDocuments]) hbrace hline hstart

theorem readsHeads_small (h : text ∈ smallTexts) :
    ReadsHeads wsLibrary.toHttpLibrary callBody [text] := by
  obtain ⟨hrequest, hrequestFits, hresponses, -⟩ := written_checked
  exact {
    request := hrequest
    response := fun events hevents => (hresponses events (mem_of_prefix_small h hevents)).1
    method := rfl
    uri := rfl
    contentType := by decide
    contentLength := by decide
    values := fun _ _ => rfl
    requestFits := hrequestFits
    responseFits := fun events hevents => (hresponses events (mem_of_prefix_small h hevents)).2 }

theorem httpCall_small (h : text ∈ smallTexts) :
    HttpCall wsLibrary.toExchangeLibrary callBody [text] httpRequest (httpResponse text)
      callMessage (answerMessage text) := by
  obtain ⟨-, -, -, hrequest, hmetadata, htexts⟩ := written_checked
  exact {
    requestParsed := hrequest
    responseParsed := (htexts text h).1
    body := by rw [callMessage]
    requestComplete := by rw [callMessage]
    responseComplete := by rw [answerMessage]
    metadata := hmetadata
    success := by rw [answerMessage]; rfl
    events := ⟨[⟨none, text⟩], (htexts text h).2, by simp⟩ }

end Small

/-! ## Both transports -/

section Main
variable {η : Type} (library : ApplicationLibrary η)

theorem outputs_append (state : FlowProtocol η) (pieces pieces' : List Piece) :
    outputs library state (pieces ++ pieces') =
      outputs library state pieces ++
        outputs library (Run.run (receivePiece library) state pieces) pieces' := by
  induction pieces generalizing state with
  | nil => rfl
  | cons piece pieces ih =>
      rw [List.cons_append, outputs, outputs, ih, Run.run_cons, List.cons_append]

variable {library} in
/-- A conversation gives the exchange of its messages up to the first one that ends the answer. -/
theorem outputs_of_conversation {state : FlowProtocol η} {asking answering : List Piece}
    {body : Bytes} {texts : List String}
    (hconversation : Conversation state asking answering body texts)
    (hobjects : ∀ text ∈ texts, ReadsObject library.toExchangeLibrary text) :
    ∃ atMs, (outputs library state (asking ++ answering)).flatten =
      ((untilTerminal library texts).bind fun upto =>
        wsExchangeOf library (.v7 0) ⟨body, atMs, upto⟩).toList := by
  rcases hconversation.messages with ⟨ws, asked, answered, hprotocol, hasking, hanswering⟩
  have hwaits : Waits state ws ws.currentRequest := hprotocol
  rcases hwaits.ask library hasking (by simp) with ⟨hquiet, atMs, hafter⟩
  have hanswer := hafter.answer library hanswering hconversation.server
    fun text htext => (hobjects text htext).brace
  refine ⟨atMs, ?_⟩
  rw [outputs_append, List.flatten_append, hquiet, List.nil_append, hanswer]
  rfl

/-- The answer ends over HTTP with a message of one of five types. -/
def EndsAnswer (texts : List String) : Prop :=
  ∃ before last, texts = before ++ [last] ∧
    (payloadType library last).any (fun kind => kind ∈ TERMINAL_TYPES) = true

/-- A call over WebSocket is projected as the call over HTTP exactly where its messages are
written as they were meant. -/
theorem transports_agree_iff (state : FlowProtocol η) (asking answering : List Piece) (body : Bytes)
    (texts : List String) (hconversation : Conversation state asking answering body texts)
    (hheads : ReadsHeads library.toHttpLibrary body texts)
    (hobjects : ∀ text ∈ texts, ReadsObject library.toExchangeLibrary text)
    (hends : EndsAnswer library texts) (id : Uuid) (requestRaw responseRaw : Bytes)
    (request response : HttpMessage) (atMs : ℤ) (http : DecodedExchange)
    (hcall : HttpCall library.toExchangeLibrary body texts requestRaw responseRaw request response)
    (hhttp : exchangeOf library id requestRaw responseRaw request response atMs = some http) :
    (∃ exchange, (outputs library state (asking ++ answering)).flatten = [exchange] ∧
        SameResult exchange http) ↔ Rendered library texts := by
  rcases hends with ⟨before, last, htexts, hlast⟩
  rcases outputs_of_conversation hconversation hobjects with ⟨atMs', hflatten⟩
  rw [← sameResult_iff_rendered (.v7 0) atMs' hheads hobjects htexts hlast hcall hhttp, hflatten]
  simp

end Main

/-- Both answers end, are read as events and decoded over HTTP, and only the second is an error. -/
theorem answers_checked : (∀ text ∈ smallTexts,
    (payloadType wsLibrary text).any (fun kind => kind ∈ TERMINAL_TYPES) = true ∧
      (wsLibrary.parseJson (textBytes (messageEvent text).data)).toOption.isSome = true ∧
      (exchangeOf wsLibrary (.v7 1) httpRequest (httpResponse text) callMessage
        (answerMessage text) 5).isSome = true) ∧
    payloadType wsLibrary completedText ≠ some "error" ∧
    payloadType wsLibrary errorText = some "error" := by
  decide +kernel

theorem rendered_completed : Rendered wsLibrary [completedText] where
  last := by simpa using answers_checked.2.1
  earlier := by simp
  lines := by
    intro text htext
    obtain rfl := List.mem_singleton.mp htext
    exact exists_ok_of_isSome (answers_checked.1 completedText (by simp [smallTexts])).2.1

theorem not_rendered_error : ¬ Rendered wsLibrary [errorText] :=
  fun h => h.last errorText rfl answers_checked.2.2

theorem exists_httpExchange {text : String} (h : text ∈ smallTexts) :
    ∃ http, exchangeOf wsLibrary (.v7 1) httpRequest (httpResponse text) callMessage
      (answerMessage text) 5 = some http :=
  Option.isSome_iff_exists.mp (answers_checked.1 text h).2.2

theorem endsAnswer_small {text : String} (h : text ∈ smallTexts) : EndsAnswer wsLibrary [text] :=
  ⟨[], text, rfl, (answers_checked.1 text h).1⟩

/-- A completed response over both transports. -/
theorem transports_agree_completed :
    ∃ exchange http, (outputs wsLibrary upgradedFlow
        (askingPieces ++ answeringPieces completedText)).flatten = [exchange] ∧
      exchangeOf wsLibrary (.v7 1) httpRequest (httpResponse completedText) callMessage
        (answerMessage completedText) 5 = some http ∧ SameResult exchange http := by
  have hmem : completedText ∈ smallTexts := by simp [smallTexts]
  rcases exists_httpExchange hmem with ⟨http, hhttp⟩
  rcases (transports_agree_iff wsLibrary upgradedFlow askingPieces (answeringPieces completedText)
    callBody [completedText] (conversation_small hmem) (readsHeads_small hmem)
    (by simpa using readsObject_small hmem) (endsAnswer_small hmem) (.v7 1) httpRequest
    (httpResponse completedText) callMessage (answerMessage completedText) 5 http
    (httpCall_small hmem) hhttp).mpr rendered_completed with ⟨exchange, hexchange, hresult⟩
  exact ⟨exchange, http, hexchange, hhttp, hresult⟩

/-- An answer that is one `error` is projected of HTTP alone. -/
theorem not_transports_agree_error :
    ¬ ∀ (state : FlowProtocol Unit) asking answering body texts,
      Conversation state asking answering body texts →
      ReadsHeads wsLibrary.toHttpLibrary body texts →
      (∀ text ∈ texts, ReadsObject wsLibrary.toExchangeLibrary text) →
      EndsAnswer wsLibrary texts → ∀ id requestRaw responseRaw request response atMs http,
        HttpCall wsLibrary.toExchangeLibrary body texts requestRaw responseRaw request response →
        exchangeOf wsLibrary id requestRaw responseRaw request response atMs = some http →
        ∃ exchange, (outputs wsLibrary state (asking ++ answering)).flatten = [exchange] ∧
          SameResult exchange http := by
  intro h
  have hmem : errorText ∈ smallTexts := by simp [smallTexts]
  rcases exists_httpExchange hmem with ⟨http, hhttp⟩
  rcases h upgradedFlow askingPieces (answeringPieces errorText) callBody [errorText]
    (conversation_small hmem) (readsHeads_small hmem) (by simpa using readsObject_small hmem)
    (endsAnswer_small hmem) (.v7 1) httpRequest (httpResponse errorText) callMessage
    (answerMessage errorText) 5 http (httpCall_small hmem) hhttp with
    ⟨exchange, hexchange, hresult⟩
  have hobjects : ∀ text ∈ [errorText], ReadsObject wsLibrary.toExchangeLibrary text := by
    simpa using readsObject_small hmem
  rcases endsAnswer_small hmem with ⟨before, last, htexts, hlast⟩
  rcases outputs_of_conversation (conversation_small hmem) hobjects with ⟨atMs, hflatten⟩
  rw [hflatten, Option.toList_eq_singleton_iff] at hexchange
  exact not_rendered_error ((sameResult_iff_rendered (.v7 0) atMs (readsHeads_small hmem) hobjects
    htexts hlast (httpCall_small hmem) hhttp).mp ⟨exchange, hexchange, hresult⟩)

end Codexwatch.Client
