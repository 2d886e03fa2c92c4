import Codexwatch.Lib.Check
import Codexwatch.Capture.Http1

/-!
# Messages on a persistent connection

`try_take_http1_message` of `client/src/capture_lane.rs`, called until it returns
nothing on a buffer that grows. The head is parsed as a message without a body, with room
for 128 fields, which some content encodings do not accept, and the end of a chunked body
is where `0` and two line ends occur first. Where the one does not fail and the other is
right, the messages come out as they were sent, however they are split.

## Main definitions

* `tryTakeHttp1Message` — one message off the buffer.
* `Http1Message` — a message as it is sent, with its chunks and trailers.
* `Legible` — the condition on a message.
* `delivered_iff` — the messages come out.
-/
namespace Codexwatch.Client

open Protocol Capture Framing Check

/-- The end of a header block. -/
def HEAD_END : Bytes := [13, 10, 13, 10]

/-- `0\r\n\r\n` -/
def LAST_CHUNK : Bytes := [48, 13, 10, 13, 10]

def findHeaderEnd (bytes : Bytes) : Option ℕ := (position HEAD_END bytes).map (· + 4)

def isChunkedHeaders (headers : HeaderMap) : Bool :=
  ((headers.get "transfer-encoding").bind toStr).any fun value =>
    "chunked".toList <:+: (Text.asciiLowercase value).toList

def findChunkedEnd (bytes : Bytes) (headerEnd : ℕ) : Option ℕ :=
  (position LAST_CHUNK (bytes.drop headerEnd)).map fun offset => headerEnd + offset + 5

def contentLength (headers : HeaderMap) : ℕ :=
  (((headers.get "content-length").bind toStr).bind (fromStrRadix 10)).getD 0

def parseMessage (library : HttpLibrary) (request : Bool) (bytes : Bytes) :
    Except HttpParseError HttpMessage :=
  if request then parseHttpRequest library bytes else parseHttpResponse library bytes

/-- A message off the front of the buffer, and what follows it. -/
def tryTakeHttp1Message (library : HttpLibrary) (request : Bool) (buffer : Bytes) :
    Except HttpParseError (Option (Bytes × Bytes)) :=
  match findHeaderEnd buffer with
  | none => .ok none
  | some headerEnd =>
      match parseMessage library request (buffer.take headerEnd) with
      | .error e => .error e
      | .ok message =>
          if isChunkedHeaders message.headers then
            .ok ((findChunkedEnd buffer headerEnd).map fun total => buffer.splitAt total)
          else
            let total := headerEnd + contentLength message.headers
            .ok (if buffer.length < total then none else some (buffer.splitAt total))

/-! ## Messages as they are sent -/

/-- A chunk: its size as it is spelled, its extensions, and its data. -/
structure Chunk where
  size : Bytes
  extension : Bytes
  data : Bytes

def Chunk.bytes (chunk : Chunk) : Bytes :=
  chunk.size ++ chunk.extension ++ CRLF ++ chunk.data ++ CRLF

/-- ASCII text. -/
def textOf (bytes : Bytes) : String := String.ofList (bytes.map fun b => Char.ofNat b.toNat)

/-- A line without its end. -/
def isLine (bytes : Bytes) : Bool := bytes.all fun b => b ≠ 13 && b ≠ 10

/-- Extensions follow the size after a semicolon or a blank. -/
def isExtension (bytes : Bytes) : Bool :=
  isLine bytes && bytes.head?.all fun b => b = 59 || b = 32 || b = 9

structure Chunk.WellFormed (chunk : Chunk) : Prop where
  size : (textOf chunk.size).toList.all Text.isAsciiHexdigit = true
  length : fromStrRadix 16 (textOf chunk.size) = some chunk.data.length
  nonempty : chunk.data ≠ []
  extension : isExtension chunk.extension = true

structure ChunkedBody where
  chunks : List Chunk
  lastSize : Bytes
  lastExtension : Bytes
  trailers : List Bytes

def ChunkedBody.bytes (body : ChunkedBody) : Bytes :=
  body.chunks.flatMap Chunk.bytes ++ (body.lastSize ++ body.lastExtension ++ CRLF ++
    (body.trailers.flatMap fun trailer => trailer ++ CRLF) ++ CRLF)

structure ChunkedBody.WellFormed (body : ChunkedBody) : Prop where
  chunks : ∀ chunk ∈ body.chunks, chunk.WellFormed
  lastSize : body.lastSize ≠ [] ∧ ∀ b ∈ body.lastSize, b = 48
  lastExtension : isExtension body.lastExtension = true
  trailers : ∀ trailer ∈ body.trailers, trailer ≠ [] ∧ isLine trailer = true

inductive MessageBody
  | contentLength (bytes : Bytes)
  | chunked (body : ChunkedBody)

def MessageBody.bytes : MessageBody → Bytes
  | .contentLength bytes => bytes
  | .chunked body => body.bytes

inductive StartLine
  | request (method target : String)
  | response (code : ℕ)

/-- A message: its header block, the start line and the fields in it, and its body. -/
structure Http1Message where
  head : Bytes
  start : StartLine
  fields : List (String × Bytes)
  body : MessageBody

def Http1Message.bytes (message : Http1Message) : Bytes := message.head ++ message.body.bytes

/-- The fields under their names in lower case. -/
def Http1Message.headers (message : Http1Message) : HeaderMap :=
  message.fields.map fun field => (Text.asciiLowercase field.1, field.2)

/-- What `httparse` reads of the head. -/
def Http1Message.parsed (message : Http1Message) : ParsedHead :=
  match message.start with
  | .request method target =>
      ⟨message.head.length, some 1, some method, some target, none, message.fields⟩
  | .response code => ⟨message.head.length, some 1, none, none, some code, message.fields⟩

/-- The transfer codings, of all lines. -/
def transferCodings (headers : HeaderMap) : List String :=
  (headers.filter fun h => h.1 = "transfer-encoding").flatMap fun h =>
    ((toStr h.2).getD "").toList.splitOn ',' |>.map fun coding =>
      Text.asciiLowercase (Text.trim (String.ofList coding))

/-- The headers delimit the body. -/
def MessageBody.DelimitedBy (headers : HeaderMap) : MessageBody → Prop
  | .contentLength bytes => headers.get "transfer-encoding" = none ∧
      ∃ value text, headers.get "content-length" = some value ∧ toStr value = some text ∧
        fromStrRadix 10 text = some bytes.length
  | .chunked body => body.WellFormed ∧ headers.get "content-length" = none ∧
      (transferCodings headers).getLast? = some "chunked"

def parseHead (library : HttpLibrary) (request : Bool) (bytes : Bytes) :
    Except HttpParseError Head :=
  if request then parseRequestHead library bytes else parseResponseHead library bytes

/-- `[httparse::EMPTY_HEADER; 128]` -/
def HEADER_SLOTS : ℕ := 128

/-- A well-formed message. `httparse` reads its header block if there are slots for all fields,
and `http` writes the names in lower case. -/
structure Http1Message.WellFormed (library : HttpLibrary) (request : Bool)
    (message : Http1Message) : Prop where
  headEnd : findHeaderEnd message.head = some message.head.length
  read : (match message.start with
    | .request _ _ => request = true ∧ library.parseRequest message.head =
        if message.fields.length ≤ HEADER_SLOTS then some message.parsed else none
    | .response _ => request = false ∧ library.parseResponse message.head =
        if message.fields.length ≤ HEADER_SLOTS then some message.parsed else none)
  names : ∀ field ∈ message.fields, ∀ lower, library.headerName field.1 = some lower →
    lower = Text.asciiLowercase field.1
  delimited : message.body.DelimitedBy message.headers

/-- The fields have room, and `http` takes the start line, the names and the values. -/
structure Parses (library : HttpLibrary) (message : Http1Message) : Prop where
  slots : message.fields.length ≤ HEADER_SLOTS
  start : (match message.start with
    | .request method target => library.isMethod method = true ∧ library.isUri target = true
    | .response code => 100 ≤ code ∧ code < 1000)
  fields : ∀ field ∈ message.fields, library.headerName field.1 ≠ none ∧
    library.isHeaderValue field.2 = true

/-- The head parses, the content encoding accepts an empty body, and a chunked body is found to
end where it ends. -/
structure Legible (library : HttpLibrary) (message : Http1Message) : Prop where
  head : Parses library message
  encoding : ∃ decoded, decodeContentEncoding library message.headers [] = .ok decoded
  chunked : ∀ body, message.body = .chunked body → isChunkedHeaders message.headers = true ∧
    position LAST_CHUNK body.bytes = some (body.bytes.length - 5)

/-! ## The head alone -/

section Head
variable {library : HttpLibrary} {request : Bool} {message : Http1Message} {tail : Bytes}

/-- Of an empty body only the content encoding can be refused. -/
theorem decodeBody_nil (library : HttpLibrary) {body : MessageBody} {headers : HeaderMap}
    (h : body.DelimitedBy headers) :
    ∃ complete, decodeBody library headers [] =
      (decodeContentEncoding library headers []).map fun decoded => ⟨[], decoded, complete⟩ := by
  have hbind : ∀ complete, (do
      let body ← (.ok ([], complete) : Except HttpParseError (Bytes × Bool))
      let decoded ← decodeContentEncoding library headers body.1
      pure (⟨body.1, decoded, body.2⟩ : HttpBody)) =
      (decodeContentEncoding library headers []).map fun decoded => ⟨[], decoded, complete⟩ := by
    intro complete
    cases hdecoded : decodeContentEncoding library headers [] with
    | error e => simp [Except.map, hdecoded, bind, Except.bind]
    | ok decoded => simp [Except.map, hdecoded, bind, Except.bind, pure, Except.pure]
  rw [decodeBody]
  by_cases hchunked : isChunked headers = true
  · refine ⟨false, ?_⟩
    rw [if_pos hchunked]
    exact hbind false
  · rw [if_neg hchunked]
    cases body with
    | contentLength bytes =>
        obtain ⟨-, value, text, hvalue, htext, hlength⟩ := h
        refine ⟨bytes.length ≤ 0, ?_⟩
        rw [hvalue]
        simp only [takeLength, htext, hlength, List.take_nil]
        exact hbind _
    | chunked body =>
        refine ⟨true, ?_⟩
        rw [h.2.1]
        exact hbind true

theorem parseMessage_eq (library : HttpLibrary) (request : Bool) (bytes : Bytes) :
    parseMessage library request bytes =
      (parseHead library request bytes).bind fun head => head.message library bytes := by
  cases request <;> rfl

/-- The fields go into the map if `http` takes all of them. -/
theorem toHeaderMap_eq_ok {fields : List (String × Bytes)} {headers : HeaderMap}
    (hnames : ∀ field ∈ fields, ∀ lower, library.headerName field.1 = some lower →
      lower = Text.asciiLowercase field.1) :
    toHeaderMap library fields = .ok headers ↔
      (∀ field ∈ fields, library.headerName field.1 ≠ none ∧
        library.isHeaderValue field.2 = true) ∧
      (fields.map fun field => (Text.asciiLowercase field.1, field.2)) = headers := by
  induction fields generalizing headers with
  | nil => simp [toHeaderMap]
  | cons field fields ih =>
      rw [List.forall_mem_cons] at hnames
      rw [toHeaderMap, List.forall_mem_cons, List.map_cons]
      cases hname : library.headerName field.1 with
      | none => simp
      | some lower =>
          obtain rfl := hnames.1 lower hname
          by_cases hvalue : library.isHeaderValue field.2 = true
          · simp only [hvalue, if_true, map_eq_ok, ih hnames.2]
            constructor
            · rintro ⟨map, ⟨hfields, rfl⟩, rfl⟩
              exact ⟨⟨⟨by simp, trivial⟩, hfields⟩, rfl⟩
            · rintro ⟨⟨-, hfields⟩, rfl⟩
              exact ⟨_, ⟨hfields, rfl⟩, rfl⟩
          · simp [hvalue]

theorem parseRequestHead_eq {bytes : Bytes} {n : ℕ} {method target : String}
    {fields : List (String × Bytes)}
    (h : library.parseRequest bytes = some ⟨n, some 1, some method, some target, none, fields⟩) :
    parseRequestHead library bytes =
      if library.isMethod method then
        if library.isUri target then
          (toHeaderMap library fields).map fun headers =>
            ⟨n, .http11, some method, some target, none, headers⟩
        else .error (.invalidUri target)
      else .error (.invalidMethod method) := by
  rw [parseRequestHead, h]
  by_cases hmethod : library.isMethod method = true
  · by_cases huri : library.isUri target = true
    · cases hmap : toHeaderMap library fields <;>
        simp [bind, Except.bind, parseVersion, hmethod, huri, hmap, pure, Except.pure, Except.map]
    · simp [bind, Except.bind, parseVersion, hmethod, huri]
  · simp [bind, Except.bind, parseVersion, hmethod]

theorem parseResponseHead_eq {bytes : Bytes} {n code : ℕ} {fields : List (String × Bytes)}
    (h : library.parseResponse bytes = some ⟨n, some 1, none, none, some code, fields⟩) :
    parseResponseHead library bytes =
      if 100 ≤ code ∧ code < 1000 then
        (toHeaderMap library fields).map fun headers =>
          ⟨n, .http11, none, none, some code, headers⟩
      else .error (.invalidStatus code) := by
  rw [parseResponseHead, h]
  by_cases hcode : 100 ≤ code ∧ code < 1000
  · cases hmap : toHeaderMap library fields <;>
      simp [bind, Except.bind, parseVersion, hcode, hmap, pure, Except.pure, Except.map]
  · simp [bind, Except.bind, parseVersion, hcode]

/-- A head that is parsed has room, and `http` takes it. -/
theorem parseHead_eq_ok (h : message.WellFormed library request) {head : Head} :
    parseHead library request message.head = .ok head → Parses library message ∧
      head.headerLen = message.head.length ∧ head.headers = message.headers := by
  have hread := h.read
  cases hstart : message.start with
  | request method target =>
      simp only [hstart, Http1Message.parsed] at hread
      obtain ⟨rfl, hread⟩ := hread
      by_cases hslots : message.fields.length ≤ HEADER_SLOTS
      · rw [if_pos hslots] at hread
        rw [parseHead, if_pos rfl, parseRequestHead_eq hread]
        split_ifs with hmethod huri
        · rw [map_eq_ok]
          rintro ⟨headers, hmap, rfl⟩
          obtain ⟨hfields, rfl⟩ := (toHeaderMap_eq_ok h.names).mp hmap
          refine ⟨⟨hslots, ?_, hfields⟩, rfl, rfl⟩
          rw [hstart]
          exact ⟨hmethod, huri⟩
        all_goals simp
      · rw [if_neg hslots] at hread
        simp [parseHead, parseRequestHead, hread, bind, Except.bind]
  | response code =>
      simp only [hstart, Http1Message.parsed] at hread
      obtain ⟨rfl, hread⟩ := hread
      by_cases hslots : message.fields.length ≤ HEADER_SLOTS
      · rw [if_pos hslots] at hread
        rw [parseHead, if_neg Bool.false_ne_true, parseResponseHead_eq hread]
        split_ifs with hcode
        · rw [map_eq_ok]
          rintro ⟨headers, hmap, rfl⟩
          obtain ⟨hfields, rfl⟩ := (toHeaderMap_eq_ok h.names).mp hmap
          refine ⟨⟨hslots, ?_, hfields⟩, rfl, rfl⟩
          rw [hstart]
          exact hcode
        · simp
      · rw [if_neg hslots] at hread
        simp [parseHead, parseResponseHead, hread, bind, Except.bind]

theorem parseHead_of_parses (h : message.WellFormed library request)
    (hparses : Parses library message) :
    ∃ head, parseHead library request message.head = .ok head := by
  have hread := h.read
  have haccepted := hparses.start
  have hmap : toHeaderMap library message.fields = .ok message.headers :=
    (toHeaderMap_eq_ok h.names).mpr ⟨hparses.fields, rfl⟩
  cases hstart : message.start with
  | request method target =>
      simp only [hstart, Http1Message.parsed, if_pos hparses.slots] at hread haccepted
      obtain ⟨rfl, hread⟩ := hread
      rw [parseHead, if_pos rfl, parseRequestHead_eq hread, if_pos haccepted.1, if_pos haccepted.2,
        hmap]
      exact ⟨_, rfl⟩
  | response code =>
      simp only [hstart, Http1Message.parsed, if_pos hparses.slots] at hread haccepted
      obtain ⟨rfl, hread⟩ := hread
      rw [parseHead, if_neg Bool.false_ne_true, parseResponseHead_eq hread, if_pos haccepted, hmap]
      exact ⟨_, rfl⟩

/-- The head of a message is parsed if its content encoding accepts an empty body. -/
theorem parseMessage_head (h : message.WellFormed library request) :
    (¬ (Parses library message ∧
        ∃ decoded, decodeContentEncoding library message.headers [] = .ok decoded) ∧
      ∃ e, parseMessage library request message.head = .error e) ∨
    ∃ decoded parsed, Parses library message ∧
      decodeContentEncoding library message.headers [] = .ok decoded ∧
      parseMessage library request message.head = .ok parsed ∧
      parsed.headers = message.headers := by
  cases hparse : parseHead library request message.head with
  | ok head =>
    obtain ⟨hparses, hlength, hheaders⟩ := parseHead_eq_ok h hparse
    obtain ⟨complete, hbody⟩ := decodeBody_nil library h.delimited
    have hmessage : parseMessage library request message.head =
        head.message library message.head := by
      rw [parseMessage_eq, hparse]
      rfl
    rw [hmessage, Head.message, hlength, List.drop_length, hheaders, hbody]
    cases decodeContentEncoding library message.headers [] with
    | error e => exact .inl ⟨by simp, e, rfl⟩
    | ok decoded => exact .inr ⟨decoded, _, hparses, rfl, rfl, rfl⟩
  | error e =>
    left
    refine ⟨?_, e, ?_⟩
    · rintro ⟨hparses, -⟩
      obtain ⟨head, hhead⟩ := parseHead_of_parses h hparses
      cases hparse.symm.trans hhead
    · rw [parseMessage_eq, hparse]
      rfl

theorem findHeaderEnd_append {head : Bytes} (h : findHeaderEnd head = some head.length) :
    findHeaderEnd (head ++ tail) = some head.length := by
  obtain ⟨i, hi, hlength⟩ := Option.map_eq_some_iff.mp h
  have hlt := (position_eq_some.mp hi).1
  have hle := add_length_le_of_position hi
  rw [findHeaderEnd, (position_append hle hlt).mpr hi, Option.map_some, hlength]

/-- A part of the head has no end. -/
theorem findHeaderEnd_eq_none {head : Bytes} (h : findHeaderEnd head = some head.length)
    {part : Bytes} (hpart : part <+: head) (hne : part ≠ head) : findHeaderEnd part = none := by
  obtain ⟨i, hi, hlength⟩ := Option.map_eq_some_iff.mp h
  obtain ⟨rest, hrest⟩ := hpart
  have hlt : part.length < i + HEAD_END.length := by
    have hpos : 0 < rest.length := by
      rw [List.length_pos_iff]
      rintro rfl
      exact hne (by simpa using hrest)
    have hsum := congrArg List.length hrest
    rw [List.length_append] at hsum
    simp only [HEAD_END, List.length_cons, List.length_nil]
    omega
  rw [← hrest] at hi
  rw [findHeaderEnd, position_eq_none hi hlt]
  rfl

/-- What is taken off a buffer that begins with a head that is parsed. -/
theorem tryTake_parsed {head : Bytes} (h : findHeaderEnd head = some head.length)
    {parsed : HttpMessage} (hparsed : parseMessage library request head = .ok parsed)
    (tail : Bytes) :
    tryTakeHttp1Message library request (head ++ tail) =
      if isChunkedHeaders parsed.headers then
        .ok ((position LAST_CHUNK tail).map fun offset =>
          (head ++ tail.take (offset + 5), tail.drop (offset + 5)))
      else
        .ok (if tail.length < contentLength parsed.headers then none
          else some (head ++ tail.take (contentLength parsed.headers),
            tail.drop (contentLength parsed.headers))) := by
  have hsplit : ∀ n, (head ++ tail).splitAt (head.length + n) =
      (head ++ tail.take n, tail.drop n) := by
    intro n
    rw [List.splitAt_eq, List.take_length_add_append, List.drop_length_add_append]
  have hlength : (head ++ tail).length = head.length + tail.length := List.length_append
  rw [tryTakeHttp1Message, findHeaderEnd_append h]
  simp only [List.take_left, hparsed, findChunkedEnd, List.drop_left]
  by_cases hchunked : isChunkedHeaders parsed.headers = true
  · rw [if_pos hchunked, if_pos hchunked]
    cases position LAST_CHUNK tail with
    | none => rfl
    | some offset => simp only [Option.map_some, Nat.add_assoc, hsplit]
  · rw [if_neg hchunked, if_neg hchunked, hsplit]
    by_cases hlt : tail.length < contentLength parsed.headers
    · rw [if_pos hlt, if_pos (by omega)]
    · rw [if_neg hlt, if_neg (by omega)]

/-- What is taken off a buffer that begins with the head of the message. -/
theorem tryTake_head (h : message.WellFormed library request) (hparses : Parses library message)
    {decoded : Bytes}
    (hencoding : decodeContentEncoding library message.headers [] = .ok decoded) (tail : Bytes) :
    tryTakeHttp1Message library request (message.head ++ tail) =
      if isChunkedHeaders message.headers then
        .ok ((position LAST_CHUNK tail).map fun offset =>
          (message.head ++ tail.take (offset + 5), tail.drop (offset + 5)))
      else
        .ok (if tail.length < contentLength message.headers then none
          else some (message.head ++ tail.take (contentLength message.headers),
            tail.drop (contentLength message.headers))) := by
  obtain ⟨hnot, -⟩ | ⟨-, parsed, -, -, hparsed, hheaders⟩ := parseMessage_head h
  · exact absurd ⟨hparses, decoded, hencoding⟩ hnot
  · rw [← hheaders]
    exact tryTake_parsed h.headEnd hparsed tail

theorem tryTake_error (h : message.WellFormed library request)
    (hnot : ¬ (Parses library message ∧
      ∃ decoded, decodeContentEncoding library message.headers [] = .ok decoded)) (tail : Bytes) :
    ∃ e, tryTakeHttp1Message library request (message.head ++ tail) = .error e := by
  obtain ⟨-, e, hparsed⟩ | ⟨decoded, parsed, hparses, hok, -⟩ := parseMessage_head h
  · refine ⟨e, ?_⟩
    rw [tryTakeHttp1Message, findHeaderEnd_append h.headEnd]
    simp only [List.take_left, hparsed]
  · exact absurd ⟨hparses, decoded, hok⟩ hnot

end Head

/-! ## One message -/

section Message
variable {library : HttpLibrary} {request : Bool} {message : Http1Message}

theorem ChunkedBody.bytes_ne_nil (body : ChunkedBody) : body.bytes ≠ [] := by
  simp [ChunkedBody.bytes, CRLF]

theorem contentLength_eq {bytes : Bytes} {headers : HeaderMap}
    (h : (MessageBody.contentLength bytes).DelimitedBy headers) :
    isChunkedHeaders headers = false ∧ contentLength headers = bytes.length := by
  obtain ⟨hcodings, value, text, hvalue, htext, hlength⟩ := h
  constructor
  · simp [isChunkedHeaders, hcodings]
  · simp [contentLength, hvalue, htext, hlength]

theorem recognizes_of_legible (h : message.WellFormed library request)
    (hlegible : Legible library message) :
    Recognizes (tryTakeHttp1Message library request) message.bytes := by
  obtain ⟨decoded, hencoding⟩ := hlegible.encoding
  constructor
  · intro hnil
    obtain ⟨i, hi, -⟩ := Option.map_eq_some_iff.mp h.headEnd
    have hlt := (position_eq_some.mp hi).1
    rw [(List.append_eq_nil_iff.mp hnil).1] at hlt
    exact absurd hlt (Nat.not_lt_zero i)
  · intro rest
    rw [Http1Message.bytes, List.append_assoc, tryTake_head h hlegible.head hencoding]
    cases hbody : message.body with
    | contentLength bytes =>
        have hdelimited := h.delimited
        rw [hbody] at hdelimited
        obtain ⟨hchunked, hlength⟩ := contentLength_eq hdelimited
        rw [hchunked, hlength, MessageBody.bytes, if_neg Bool.false_ne_true,
          if_neg (by rw [List.length_append]; omega), List.take_left, List.drop_left]
    | chunked body =>
        obtain ⟨hchunked, hposition⟩ := hlegible.chunked body hbody
        have hle := add_length_le_of_position hposition
        have hlt := (position_eq_some.mp hposition).1
        have hstop : body.bytes.length - 5 + 5 = body.bytes.length := by
          simp only [LAST_CHUNK, List.length_cons, List.length_nil] at hle
          omega
        rw [if_pos hchunked, MessageBody.bytes, (position_append hle hlt).mpr hposition,
          Option.map_some, hstop, List.take_left, List.drop_left]
  · intro part hpart hne
    by_cases hhead : part.length < message.head.length
    · have hstart : part <+: message.head :=
        List.prefix_of_prefix_length_le hpart (List.prefix_append ..) hhead.le
      rw [tryTakeHttp1Message, findHeaderEnd_eq_none h.headEnd hstart (by rintro rfl; omega)]
    · obtain ⟨tail, rfl⟩ :=
        List.prefix_of_prefix_length_le (List.prefix_append ..) hpart (not_lt.mp hhead)
      rw [Http1Message.bytes, List.prefix_append_right_inj] at hpart
      have htail : tail.length < message.body.bytes.length := by
        refine lt_of_le_of_ne hpart.length_le fun hlength => hne ?_
        rw [Http1Message.bytes, hpart.eq_of_length hlength]
      rw [tryTake_head h hlegible.head hencoding]
      cases hbody : message.body with
      | contentLength bytes =>
          have hdelimited := h.delimited
          rw [hbody] at hdelimited htail
          rw [MessageBody.bytes] at htail
          obtain ⟨hchunked, hlength⟩ := contentLength_eq hdelimited
          rw [hchunked, hlength, if_neg Bool.false_ne_true, if_pos htail]
      | chunked body =>
          rw [hbody] at hpart htail
          obtain ⟨hchunked, hposition⟩ := hlegible.chunked body hbody
          obtain ⟨rest, hrest⟩ := hpart
          have hle := add_length_le_of_position hposition
          rw [MessageBody.bytes] at hrest htail
          rw [← hrest] at hposition
          have hshort : tail.length < (tail ++ rest).length - 5 + LAST_CHUNK.length := by
            rw [hrest]
            simp only [LAST_CHUNK, List.length_cons, List.length_nil] at hle ⊢
            omega
          rw [if_pos hchunked, position_eq_none hposition hshort]
          rfl

/-- A message that is taken is legible. -/
theorem legible_of_taken (h : message.WellFormed library request) {rest : Bytes}
    (htake : tryTakeHttp1Message library request (message.bytes ++ rest) =
      .ok (some (message.bytes, rest))) :
    Legible library message := by
  rw [Http1Message.bytes, List.append_assoc] at htake
  by_cases hparsed : Parses library message ∧
      ∃ decoded, decodeContentEncoding library message.headers [] = .ok decoded
  · obtain ⟨hparses, decoded, hencoding⟩ := hparsed
    refine ⟨hparses, ⟨decoded, hencoding⟩, ?_⟩
    intro body hbody
    rw [tryTake_head h hparses hencoding, hbody, MessageBody.bytes] at htake
    by_cases hchunked : isChunkedHeaders message.headers = true
    · refine ⟨hchunked, ?_⟩
      rw [if_pos hchunked] at htake
      obtain ⟨offset, hposition, htaken⟩ := Option.map_eq_some_iff.mp (Except.ok.inj htake)
      have hle : offset + 5 ≤ _ := add_length_le_of_position hposition
      have hlength := congrArg List.length
        (List.append_cancel_left (Prod.mk.inj htaken).1)
      rw [List.length_take_of_le hle] at hlength
      have hoffset : offset + LAST_CHUNK.length ≤ body.bytes.length := hlength.le
      have hlast : offset = body.bytes.length - 5 := by omega
      rw [hlast] at hposition hoffset
      refine (position_append hoffset ?_).mp hposition
      have hpos := List.length_pos_of_ne_nil body.bytes_ne_nil
      omega
    · have hlength : contentLength message.headers = 0 := by
        have hdelimited := h.delimited
        rw [hbody] at hdelimited
        simp [contentLength, hdelimited.2.1]
      rw [if_neg hchunked, hlength, if_neg (Nat.not_lt_zero _), List.take_zero] at htake
      have htaken := (Prod.mk.inj (Option.some.inj (Except.ok.inj htake))).1
      exact absurd (List.append_cancel_left htaken).symm body.bytes_ne_nil
  · obtain ⟨e, he⟩ := tryTake_error h hparsed (message.body.bytes ++ rest)
    cases he.symm.trans htake

theorem cuts_tryTake : Cuts (tryTakeHttp1Message library request) := by
  intro buffer frame rest h
  rw [tryTakeHttp1Message] at h
  split at h
  · cases h
  · split at h
    · cases h
    · split at h
      · obtain ⟨total, -, hsplit⟩ := Option.map_eq_some_iff.mp (Except.ok.inj h)
        rw [List.splitAt_eq] at hsplit
        cases hsplit
        exact (List.take_append_drop ..).symm
      · dsimp only at h
        split at h
        · cases h
        · rw [List.splitAt_eq] at h
          cases h
          exact (List.take_append_drop ..).symm

theorem tryTake_nil : tryTakeHttp1Message library request [] = .ok none := rfl

end Message

/-! ## All of the messages -/

section Stream
variable {library : HttpLibrary} {request : Bool} {messages : List Http1Message}
  {pieces : List Bytes}

/-- After every piece the messages that are whole have come out, and the rest is in the buffer. -/
def Delivered (library : HttpLibrary) (request : Bool) (messages : List Http1Message)
    (pieces : List Bytes) : Prop :=
  ∀ done, done <+: pieces → feed (tryTakeHttp1Message library request) [] done =
    .ok (wholes (messages.map Http1Message.bytes) done.flatten)

theorem legible_of_delivered
    (hmessages : ∀ message ∈ messages, message.WellFormed library request)
    (hpieces : pieces.flatten = (messages.map Http1Message.bytes).flatten)
    (hdelivered : Delivered library request messages pieces) :
    ∀ message ∈ messages, Legible library message := by
  intro message hmessage
  have hall := hdelivered pieces List.prefix_rfl
  rw [hpieces, wholes_flatten] at hall
  obtain ⟨rest, htake⟩ := taken_of_feed cuts_tryTake hall (List.mem_map_of_mem hmessage)
  exact legible_of_taken (hmessages message hmessage) htake

/-- The messages come out, however they are split, if and only if all of them are legible. -/
theorem delivered_iff (hmessages : ∀ message ∈ messages, message.WellFormed library request)
    (hpieces : pieces.flatten = (messages.map Http1Message.bytes).flatten) :
    Delivered library request messages pieces ↔
      ∀ message ∈ messages, Legible library message := by
  constructor
  · exact legible_of_delivered hmessages hpieces
  · intro hlegible done hdone
    have hframes : ∀ frame ∈ messages.map Http1Message.bytes,
        Recognizes (tryTakeHttp1Message library request) frame := by
      intro frame hframe
      obtain ⟨message, hmessage, rfl⟩ := List.mem_map.mp hframe
      exact recognizes_of_legible (hmessages message hmessage) (hlegible message hmessage)
    have hnothing : (wholes (messages.map Http1Message.bytes) []).1 = [] := by
      rw [wholes_nil fun frame hframe => (hframes frame hframe).nonempty]
    have hreceived : [] ++ done.flatten <+: (messages.map Http1Message.bytes).flatten := by
      rw [← hpieces]
      exact hdone.flatten
    exact feed_eq_wholes hframes tryTake_nil hnothing hreceived

end Stream

/-! ## A small connection -/

def chunkedHead : Bytes :=
  "HTTP/1.1 200 OK\r\nTransfer-Encoding: chunked\r\n\r\n".toList.map fun c => c.toNat.toUInt8

def chunkedHeaders : HeaderMap :=
  [("transfer-encoding", "chunked".toList.map fun c => c.toNat.toUInt8)]

/-- A library that knows one header block. -/
def sampleLibrary : HttpLibrary where
  parseRequest _ := none
  parseResponse bytes :=
    if bytes = chunkedHead then
      some ⟨chunkedHead.length, some 1, none, none, some 200,
        [("Transfer-Encoding", "chunked".toList.map fun c => c.toNat.toUInt8)]⟩
    else none
  isMethod _ := true
  isUri _ := true
  headerName name := some (Text.asciiLowercase name)
  isHeaderValue _ := true
  gunzip raw := if raw = [] then .error "unexpected end of file" else .ok raw
  brotli raw := if raw = [] then .error "unexpected end of file" else .ok raw
  unzstd raw := .ok raw

/-- A message of one chunk. -/
def chunkedMessage (size data : Bytes) : Http1Message where
  head := chunkedHead
  start := .response 200
  fields := [("Transfer-Encoding", "chunked".toList.map fun c => c.toNat.toUInt8)]
  body := .chunked ⟨[⟨size, [], data⟩], [48], [], []⟩

theorem wellFormed_chunkedMessage {size data : Bytes} (hchunk : (Chunk.mk size [] data).WellFormed) :
    (chunkedMessage size data).WellFormed sampleLibrary false where
  headEnd := by
    change findHeaderEnd chunkedHead = some chunkedHead.length
    decide +kernel
  read := ⟨rfl, rfl⟩
  names field _ lower hlower := (Option.some.inj hlower).symm
  delimited := by
    have hheaders : (chunkedMessage size data).headers.get "content-length" = none ∧
        (transferCodings (chunkedMessage size data).headers).getLast? = some "chunked" := by
      change chunkedHeaders.get "content-length" = none ∧
        (transferCodings chunkedHeaders).getLast? = some "chunked"
      decide +kernel
    refine ⟨⟨?_, ⟨List.cons_ne_nil _ _, ?_⟩, rfl, ?_⟩, hheaders⟩
    · intro chunk hmem
      rw [List.mem_singleton.mp hmem]
      exact hchunk
    · intro b hb
      exact List.mem_singleton.mp hb
    · intro trailer htrailer
      cases htrailer

theorem parses_chunkedMessage (size data : Bytes) :
    Parses sampleLibrary (chunkedMessage size data) where
  slots := by
    change 1 ≤ HEADER_SLOTS
    decide
  start := ⟨by decide, by decide⟩
  fields field _ := ⟨Option.some_ne_none _, rfl⟩

/-- Two messages, split within the head and within a chunk. -/
theorem delivered_twice :
    Delivered sampleLibrary false [chunkedMessage [51] [1, 2, 3], chunkedMessage [49] [9]]
      [((chunkedMessage [51] [1, 2, 3]).bytes ++ (chunkedMessage [49] [9]).bytes).take 20,
        (((chunkedMessage [51] [1, 2, 3]).bytes ++ (chunkedMessage [49] [9]).bytes).drop 20).take 32,
        ((chunkedMessage [51] [1, 2, 3]).bytes ++ (chunkedMessage [49] [9]).bytes).drop 52] := by
  have hfirst : (Chunk.mk [51] [] [1, 2, 3]).WellFormed :=
    ⟨by decide, by decide, by decide, by decide⟩
  have hsecond : (Chunk.mk [49] [] [9]).WellFormed := ⟨by decide, by decide, by decide, by decide⟩
  refine (delivered_iff ?_ (by decide +kernel)).mpr ?_
  · intro message hmessage
    obtain rfl | hmessage := List.mem_cons.mp hmessage
    · exact wellFormed_chunkedMessage hfirst
    · rw [List.mem_singleton.mp hmessage]
      exact wellFormed_chunkedMessage hsecond
  · intro message hmessage
    obtain rfl | hmessage := List.mem_cons.mp hmessage
    · refine ⟨parses_chunkedMessage .., ⟨[], by decide +kernel⟩, ?_⟩
      rintro body ⟨⟩
      exact ⟨by decide +kernel, by decide +kernel⟩
    · rw [List.mem_singleton.mp hmessage]
      refine ⟨parses_chunkedMessage .., ⟨[], by decide +kernel⟩, ?_⟩
      rintro body ⟨⟩
      exact ⟨by decide +kernel, by decide +kernel⟩

/-- Sixteen bytes that begin with a line end: their size is `10`. -/
def lineEndData : Bytes := 13 :: 10 :: List.replicate 14 97

theorem not_delivered_lineEnd :
    ¬ ∀ (messages : List Http1Message) (pieces : List Bytes),
      (∀ message ∈ messages, message.WellFormed sampleLibrary false) →
      pieces.flatten = (messages.map Http1Message.bytes).flatten →
      Delivered sampleLibrary false messages pieces := by
  intro h
  have hchunk : (Chunk.mk [49, 48] [] lineEndData).WellFormed :=
    ⟨by decide, by decide, by decide, by decide⟩
  have hmessages : ∀ message ∈ [chunkedMessage [49, 48] lineEndData],
      message.WellFormed sampleLibrary false := by
    intro message hmessage
    rw [List.mem_singleton.mp hmessage]
    exact wellFormed_chunkedMessage hchunk
  have hpieces : [(chunkedMessage [49, 48] lineEndData).bytes].flatten =
      ([chunkedMessage [49, 48] lineEndData].map Http1Message.bytes).flatten := rfl
  have hlegible := legible_of_delivered hmessages hpieces (h _ _ hmessages hpieces) _
    (List.mem_singleton_self _)
  have hposition := (hlegible.chunked _ rfl).2
  revert hposition
  decide +kernel

end Codexwatch.Client
