import Codexwatch.Client.Transports
import Codexwatch.Lib.HeaderBlock

/-!
# HTTP/2 messages written as HTTP/1.1

`synthesize_h2_request` and `synthesize_h2_response` of `client/src/capture_lane.rs` write the
headers of a stream as a head, with a length of their own at its end, and the body behind it.
The parser of `capture/src/http1.rs` reads the same message again: the head ends where its
empty line is, whatever is in the body, and the length that is found first is that of the body.

## Main definitions

* `ParsesHeads` — what the libraries say of a head.
* `Renderable` — the headers and the body that can be written.
* `rerendered` — the headers that are read.

## Main result

* `parse_synthesizeH2`.
-/
namespace Codexwatch.Client

open Protocol Capture HeaderBlock

/-! ## The libraries -/

/-- `http::header::MAX_HEADER_NAME_LEN` -/
def MAX_HEADER_NAME_LEN : ℕ := 65535

/-- `http::uri::MAX_LEN` -/
def MAX_URI_LEN : ℕ := 65534

/-- Letters, digits and the signs of paths and queries. -/
def isPathByte (b : UInt8) : Bool :=
  (48 ≤ b.toNat && b.toNat ≤ 57) || (65 ≤ b.toNat && b.toNat ≤ 90) ||
    (97 ≤ b.toNat && b.toNat ≤ 122) ||
    b.toNat ∈ [33, 36, 37, 38, 39, 40, 41, 42, 43, 44, 45, 46, 47, 58, 59, 61, 63, 64, 95, 126]

/-- A path and a query. -/
def IsOriginForm (path : String) : Prop :=
  path.toList.head? = some '/' ∧ (∀ b ∈ textBytes path, isPathByte b = true) ∧
    (textBytes path).length ≤ MAX_URI_LEN

instance (path : String) : Decidable (IsOriginForm path) :=
  decidable_of_iff (path.toList.head? = some '/' ∧ (textBytes path).all isPathByte = true ∧
    (textBytes path).length ≤ MAX_URI_LEN) (by simp [IsOriginForm])

/-- The bytes of a field. -/
def fieldBytes (field : String × Bytes) : Bytes × Bytes := (textBytes field.1, field.2)

/-- `httparse` with 128 slots, and the names and values of `http`. -/
structure ParsesHeads (library : HttpLibrary) : Prop where
  request : ∀ method path (fields : List (String × Bytes)) rest,
    IsToken (textBytes method) → IsOriginForm path →
    (∀ field ∈ fields, IsField (fieldBytes field)) → fields.length ≤ 128 →
    library.parseRequest (renderRequest (textBytes method) (textBytes path)
        (fields.map fieldBytes) ++ rest) =
      some ⟨(renderRequest (textBytes method) (textBytes path) (fields.map fieldBytes)).length,
        some 1, some method, some path, none, fields⟩
  response : ∀ code reason (fields : List (String × Bytes)) rest, 100 ≤ code → code < 1000 →
    IsText reason → (∀ field ∈ fields, IsField (fieldBytes field)) → fields.length ≤ 128 →
    library.parseResponse (renderResponse code reason (fields.map fieldBytes) ++ rest) =
      some ⟨(renderResponse code reason (fields.map fieldBytes)).length, some 1, none, none,
        some code, fields⟩
  method : ∀ method, IsToken (textBytes method) → library.isMethod method = true
  uri : ∀ path, IsOriginForm path → library.isUri path = true
  name : ∀ name, IsToken (textBytes name) → (textBytes name).length ≤ MAX_HEADER_NAME_LEN →
    library.headerName name = some (Text.asciiLowercase name)
  value : ∀ value, IsValue value → library.isHeaderValue value = true

/-! ## Messages that can be written -/

/-- The headers that are no pseudo-headers. -/
def regularHeaders (headers : List (String × String)) : List (String × String) :=
  headers.filter fun header => header.1.toList.head? ≠ some ':'

/-- A name in lower case, and a value without blanks around it. -/
structure IsRegular (header : String × String) : Prop where
  name : IsToken (textBytes header.1)
  lower : Text.asciiLowercase header.1 = header.1
  short : (textBytes header.1).length ≤ MAX_HEADER_NAME_LEN
  value : IsValue (textBytes header.2)

/-- The headers of a stream and its body. The pseudo-headers are not looked at. -/
structure Renderable (headers : List (String × String)) (body : Bytes) : Prop where
  regular : ∀ header ∈ regularHeaders headers, IsRegular header
  few : (regularHeaders headers).length ≤ 127
  transferEncoding : ∀ header ∈ headers, header.1 ≠ "transfer-encoding"
  contentLength : ∀ header ∈ headers, header.1 = "content-length" →
    fromStrRadix 10 header.2 = some body.length
  contentEncoding : ∀ header ∈ headers, header.1 = "content-encoding" →
    Text.asciiLowercase (Text.trim header.2) ∉ ["gzip", "br", "zstd"]
  fits : body.length < 2 ^ 64

/-- The headers in order, and the length that is added. -/
def rerendered (headers : List (String × String)) (body : Bytes) : HeaderMap :=
  (regularHeaders headers).map (fun header => (header.1, textBytes header.2)) ++
    [("content-length", asciiBytes body.length.repr)]

/-! ## The heads that are written -/

section Heads
variable {headers : List (String × String)} {body : Bytes}

/-- The fields of the head. -/
def headFields (headers : List (String × String)) (body : Bytes) : List (String × Bytes) :=
  (regularHeaders headers).map (fun header => (header.1, textBytes header.2)) ++
    [("Content-Length", asciiBytes body.length.repr)]

theorem asciiBytes_append (s t : String) : asciiBytes (s ++ t) = asciiBytes s ++ asciiBytes t := by
  simp [asciiBytes]

theorem renderFields_headFields (headers : List (String × String)) (body : Bytes) :
    renderFields ((headFields headers body).map fieldBytes) =
      headerLines headers ++ lengthLine body := by
  have hname : asciiBytes "Content-Length: " = textBytes "Content-Length" ++ [58, 32] := by
    decide +kernel
  have hcolon : asciiBytes ": " = [58, 32] := by decide
  have hend : CRLF = [13, 10] := rfl
  simp only [renderFields, headFields, headerLines, lengthLine, regularHeaders, List.map_append,
    List.map_map, List.flatMap_append, List.flatMap_map, asciiBytes_append, hname, hcolon, hend]
  simp [renderField, fieldBytes]

theorem synthesizeH2Request_eq {method path : String}
    (hmethod : headerValue headers ":method" = some method)
    (hpath : headerValue headers ":path" = some path) :
    synthesizeH2Request headers body =
      renderRequest (textBytes method) (textBytes path) ((headFields headers body).map fieldBytes) ++
        body := by
  have hspace : asciiBytes " " = [32] := by decide
  have hversion : asciiBytes " HTTP/1.1" = 32 :: version11 := by decide
  rw [synthesizeH2Request, renderRequest, renderFields_headFields, hmethod, hpath, hspace, hversion]
  simp [CRLF]

theorem utf8EncodeChar_digitChar : ∀ d < 10,
    String.utf8EncodeChar (Nat.digitChar d) = [UInt8.ofNat (48 + d)] := by decide

/-- A status has three digits. -/
theorem textBytes_repr {status : ℕ} (hmin : 100 ≤ status) (hmax : status ≤ 599) :
    textBytes status.repr = renderCode status := by
  have hhundreds : status / 10 / 10 = status / 100 := Nat.div_div_eq_div_mul status 10 10
  rw [textBytes_eq, Nat.toList_repr, Nat.toDigits_of_base_le (by decide) (by omega),
    Nat.toDigits_of_base_le (by decide) (by omega), Nat.toDigits_of_lt_base (by omega), hhundreds]
  simp only [List.cons_append, List.nil_append, List.flatMap_cons, List.flatMap_nil]
  rw [utf8EncodeChar_digitChar _ (by omega), utf8EncodeChar_digitChar _ (by omega),
    utf8EncodeChar_digitChar _ (by omega)]
  rfl

theorem synthesizeH2Response_eq {status : ℕ} (hmin : 100 ≤ status) (hmax : status ≤ 599)
    (hstatus : headerValue headers ":status" = some status.repr) :
    synthesizeH2Response headers body =
      renderResponse status [79, 75] ((headFields headers body).map fieldBytes) ++ body := by
  have hversion : asciiBytes "HTTP/1.1 " = version11 ++ [32] := by decide
  have hreason : asciiBytes " OK" = [32, 79, 75] := by decide
  rw [synthesizeH2Response, renderResponse, renderFields_headFields, hstatus, Option.getD_some,
    textBytes_repr hmin hmax, hversion, hreason]
  simp [CRLF]

end Heads

/-! ## The message that is read -/

/-- A text of visible bytes and blanks is read as it was written. -/
theorem toStr_textBytes {text : String} (h : IsText (textBytes text)) :
    toStr (textBytes text) = some text := by
  have hclass : ∀ b ∈ textBytes text, (32 ≤ b.toNat ∧ b.toNat < 127) ∨ b.toNat = 9 := by
    intro b hb
    have hb := h b hb
    simp only [isVisible, isBlank, Bool.and_eq_true, Bool.or_eq_true, decide_eq_true_eq] at hb
    omega
  have hall : (textBytes text).all (fun b => (32 ≤ b && b < 127) || b = 9) = true := by
    rw [List.all_eq_true]
    intro b hb
    have hnine : b.toNat = 9 ↔ b = 9 := UInt8.toNat_inj (b := 9)
    simpa [UInt8.le_iff_toNat_le, UInt8.lt_iff_toNat_lt, hnine] using hclass b hb
  have hascii : ∀ b ∈ textBytes text, b.toNat < 128 := by
    intro b hb
    have hrange := hclass b hb
    omega
  have hchars := Text.fromUtf8Lossy_of_ascii hascii
  rw [fromUtf8Lossy_textBytes] at hchars
  rw [toStr, if_pos hall, ← hchars]

section Message
variable {library : HttpLibrary} {headers : List (String × String)} {body : Bytes}

/-- Names and values that the libraries accept make a map. -/
theorem toHeaderMap_eq (hheads : ParsesHeads library) {fields : List (String × Bytes)}
    (h : ∀ field ∈ fields, IsField (fieldBytes field) ∧
      (textBytes field.1).length ≤ MAX_HEADER_NAME_LEN) :
    toHeaderMap library fields =
      .ok (fields.map fun field => (Text.asciiLowercase field.1, field.2)) := by
  induction fields with
  | nil => rfl
  | cons field fields ih =>
      obtain ⟨⟨hname, hvalue⟩, hshort⟩ := h field List.mem_cons_self
      have hrest := ih fun other hmem => h other (List.mem_cons_of_mem field hmem)
      rw [toHeaderMap, hheads.name field.1 hname hshort]
      dsimp only
      rw [if_pos (hheads.value field.2 hvalue), hrest]
      rfl

/-- A length is a value. -/
theorem isValue_repr (n : ℕ) : IsValue (asciiBytes n.repr) := by
  apply isValue_of_forall
  intro b hb
  obtain ⟨c, hc, rfl⟩ := List.mem_map.mp hb
  have hrange : 48 ≤ c.toNat ∧ c.toNat ≤ 57 := Char.isDigit_iff_toNat.mp (isDigit_of_mem_repr hc)
  simp only [isVisible, Bool.and_eq_true, decide_eq_true_eq, Nat.toUInt8_eq, UInt8.toNat_ofNat']
  omega

theorem isField_of_mem_headFields (h : Renderable headers body) :
    ∀ field ∈ headFields headers body, IsField (fieldBytes field) ∧
      (textBytes field.1).length ≤ MAX_HEADER_NAME_LEN := by
  intro field hmem
  cases List.mem_append.mp hmem with
  | inl hregular =>
      obtain ⟨header, hheader, rfl⟩ := List.mem_map.mp hregular
      have hregular := h.regular header hheader
      exact ⟨⟨hregular.name, hregular.value⟩, hregular.short⟩
  | inr hlength =>
      rw [List.mem_singleton.mp hlength]
      have hname : IsToken (textBytes "Content-Length") ∧
          (textBytes "Content-Length").length ≤ MAX_HEADER_NAME_LEN := by decide +kernel
      exact ⟨⟨hname.1, isValue_repr body.length⟩, hname.2⟩

theorem length_headFields_le (h : Renderable headers body) :
    (headFields headers body).length ≤ 128 := by
  have hfew := h.few
  simp [headFields]
  omega

theorem toHeaderMap_headFields (hheads : ParsesHeads library) (h : Renderable headers body) :
    toHeaderMap library (headFields headers body) = .ok (rerendered headers body) := by
  have hlower : (regularHeaders headers).map (fun header =>
      (Text.asciiLowercase header.1, textBytes header.2)) =
      (regularHeaders headers).map fun header => (header.1, textBytes header.2) := by
    apply List.map_congr_left
    intro header hmem
    rw [(h.regular header hmem).lower]
  have hname : Text.asciiLowercase "Content-Length" = "content-length" := by decide
  rw [toHeaderMap_eq hheads (isField_of_mem_headFields h), headFields, List.map_append,
    List.map_map, rerendered, ← hlower, List.map_singleton, hname]
  rfl

/-- A header with this name is one of those that were given, or the length. -/
theorem mem_of_get {name : String} {value : Bytes}
    (hget : (rerendered headers body).get name = some value) :
    (∃ header ∈ regularHeaders headers, header.1 = name ∧ value = textBytes header.2) ∨
      name = "content-length" ∧ value = asciiBytes body.length.repr := by
  rw [HeaderMap.get, List.lookup_eq_some_iff] at hget
  obtain ⟨before, after, hsplit, -⟩ := hget
  have hmem : (name, value) ∈ rerendered headers body := by
    rw [hsplit]
    simp
  cases List.mem_append.mp hmem with
  | inl hregular =>
      obtain ⟨header, hheader, heq⟩ := List.mem_map.mp hregular
      obtain ⟨rfl, rfl⟩ := Prod.mk.inj heq
      exact .inl ⟨header, hheader, rfl, rfl⟩
  | inr hlength =>
      obtain ⟨rfl, rfl⟩ := Prod.mk.inj (List.mem_singleton.mp hlength)
      exact .inr ⟨rfl, rfl⟩

theorem isChunked_rerendered (h : Renderable headers body) :
    isChunked (rerendered headers body) = false := by
  have hnone : (rerendered headers body).get "transfer-encoding" = none := by
    cases hget : (rerendered headers body).get "transfer-encoding" with
    | none => rfl
    | some value =>
        obtain ⟨header, hheader, hname, -⟩ | ⟨hname, -⟩ := mem_of_get hget
        · exact absurd hname (h.transferEncoding header (List.mem_of_mem_filter hheader))
        · exact absurd hname (by decide)
  rw [isChunked, hnone]
  rfl

/-- The first length is that of the body, be it one of the headers or the one that is added. -/
theorem exists_length (h : Renderable headers body) :
    ∃ value, (rerendered headers body).get "content-length" = some value ∧
      takeLength value body = .ok (body, true) := by
  have hadded : ((rerendered headers body).get "content-length").isSome = true := by
    rw [HeaderMap.get, rerendered, List.lookup_append]
    simp
  obtain ⟨value, hget⟩ := Option.isSome_iff_exists.mp hadded
  have hparsed : ∃ text, toStr value = some text ∧ fromStrRadix 10 text = some body.length := by
    obtain ⟨header, hheader, hname, rfl⟩ | ⟨-, rfl⟩ := mem_of_get hget
    · exact ⟨header.2, toStr_textBytes (h.regular header hheader).value.1,
        h.contentLength header (List.mem_of_mem_filter hheader) hname⟩
    · exact ⟨body.length.repr, toStr_asciiBytes (printable_repr body.length),
        fromStrRadix_repr h.fits⟩
  obtain ⟨text, htext, hlength⟩ := hparsed
  refine ⟨value, hget, ?_⟩
  rw [takeLength, htext]
  simp [hlength]

theorem decodeContentEncoding_rerendered (h : Renderable headers body) :
    decodeContentEncoding library (rerendered headers body) body = .ok body := by
  have hcoding : contentEncoding (rerendered headers body) ∉ ["gzip", "br", "zstd"] := by
    rw [contentEncoding]
    cases hget : (rerendered headers body).get "content-encoding" with
    | none => decide
    | some value =>
        obtain ⟨header, hheader, hname, rfl⟩ | ⟨hname, -⟩ := mem_of_get hget
        · rw [Option.bind_some, toStr_textBytes (h.regular header hheader).value.1,
            Option.getD_some]
          exact h.contentEncoding header (List.mem_of_mem_filter hheader) hname
        · exact absurd hname (by decide)
  rw [decodeContentEncoding]
  split
  · simp_all
  · simp_all
  · simp_all
  · rfl

/-- The body is read whole. -/
theorem decodeBody_rerendered (h : Renderable headers body) :
    decodeBody library (rerendered headers body) body = .ok ⟨body, body, true⟩ := by
  obtain ⟨value, hget, htake⟩ := exists_length h
  exact decodeBody_of_length (isChunked_rerendered h) hget htake
    (decodeContentEncoding_rerendered h)

theorem parse_synthesizeH2Request (hheads : ParsesHeads library) (h : Renderable headers body)
    {method path : String} (hmethod : headerValue headers ":method" = some method)
    (hpath : headerValue headers ":path" = some path) (htoken : IsToken (textBytes method))
    (horigin : IsOriginForm path) :
    parseHttpRequest library (synthesizeH2Request headers body) =
      .ok ⟨.http11, some method, some path, none, rerendered headers body, ⟨body, body, true⟩⟩ := by
  have hparse := hheads.request method path (headFields headers body) body htoken horigin
    (fun field hmem => (isField_of_mem_headFields h field hmem).1) (length_headFields_le h)
  have hhead : parseRequestHead library (synthesizeH2Request headers body) =
      .ok ⟨(renderRequest (textBytes method) (textBytes path)
        ((headFields headers body).map fieldBytes)).length, .http11, some method, some path, none,
        rerendered headers body⟩ := by
    rw [synthesizeH2Request_eq hmethod hpath, parseRequestHead, hparse]
    simp only [Option.elim, bind, Except.bind, parseVersion, hheads.method method htoken,
      hheads.uri path horigin, if_true, toHeaderMap_headFields hheads h]
    rfl
  rw [parseHttpRequest, hhead]
  simp only [Except.bind, Head.message, synthesizeH2Request_eq hmethod hpath, List.drop_left,
    decodeBody_rerendered h]
  rfl

theorem parse_synthesizeH2Response (hheads : ParsesHeads library) (h : Renderable headers body)
    {status : ℕ} (hmin : 100 ≤ status) (hmax : status ≤ 599)
    (hstatus : headerValue headers ":status" = some status.repr) :
    parseHttpResponse library (synthesizeH2Response headers body) =
      .ok ⟨.http11, none, none, some status, rerendered headers body, ⟨body, body, true⟩⟩ := by
  have hparse := hheads.response status [79, 75] (headFields headers body) body hmin (by omega)
    (by decide) (fun field hmem => (isField_of_mem_headFields h field hmem).1)
    (length_headFields_le h)
  have hhead : parseResponseHead library (synthesizeH2Response headers body) =
      .ok ⟨(renderResponse status [79, 75] ((headFields headers body).map fieldBytes)).length,
        .http11, none, none, some status, rerendered headers body⟩ := by
    have hcode : 100 ≤ status ∧ status < 1000 := by omega
    rw [synthesizeH2Response_eq hmin hmax hstatus, parseResponseHead, hparse]
    simp only [Option.elim, bind, Except.bind, parseVersion, if_pos hcode,
      toHeaderMap_headFields hheads h]
    rfl
  rw [parseHttpResponse, hhead]
  simp only [Except.bind, Head.message, synthesizeH2Response_eq hmin hmax hstatus, List.drop_left,
    decodeBody_rerendered h]
  rfl

end Message

/-- A message of HTTP/2 that is written as HTTP/1.1 is read again. -/
theorem parse_synthesizeH2 (library : HttpLibrary) (hheads : ParsesHeads library)
    (headers : List (String × String)) (body : Bytes) (h : Renderable headers body) :
    (∀ method path, headerValue headers ":method" = some method →
      headerValue headers ":path" = some path → IsToken (textBytes method) → IsOriginForm path →
      parseHttpRequest library (synthesizeH2Request headers body) = .ok ⟨.http11, some method,
        some path, none, rerendered headers body, ⟨body, body, true⟩⟩) ∧
    ∀ status, 100 ≤ status → status ≤ 599 →
      headerValue headers ":status" = some status.repr →
      parseHttpResponse library (synthesizeH2Response headers body) = .ok ⟨.http11, none, none,
        some status, rerendered headers body, ⟨body, body, true⟩⟩ := by
  constructor
  · intro method path hmethod hpath htoken horigin
    exact parse_synthesizeH2Request hheads h hmethod hpath htoken horigin
  · intro status hmin hmax hstatus
    exact parse_synthesizeH2Response hheads h hmin hmax hstatus

/-! ## A reader of heads -/

def headOfRequest (bytes : Bytes) (read : RequestHead × Bytes) : ParsedHead where
  headerLen := bytes.length - read.2.length
  version := some read.1.version
  method := some (Text.fromUtf8Lossy read.1.method)
  path := some (Text.fromUtf8Lossy read.1.target)
  code := none
  headers := read.1.fields.map fun field => (Text.fromUtf8Lossy field.1, field.2)

def headOfResponse (bytes : Bytes) (read : ResponseHead × Bytes) : ParsedHead where
  headerLen := bytes.length - read.2.length
  version := some read.1.version
  method := none
  path := none
  code := some read.1.code
  headers := read.1.fields.map fun field => (Text.fromUtf8Lossy field.1, field.2)

/-- A library that reads heads with 128 fields, and knows no compression. -/
def headLibrary : HttpLibrary where
  parseRequest bytes := (readRequest 128 bytes).map (headOfRequest bytes)
  parseResponse bytes := (readResponse 128 bytes).map (headOfResponse bytes)
  isMethod method := decide (IsToken (textBytes method))
  isUri path := decide (IsOriginForm path)
  headerName name :=
    if IsToken (textBytes name) ∧ (textBytes name).length ≤ MAX_HEADER_NAME_LEN then
      some (Text.asciiLowercase name)
    else none
  isHeaderValue value := decide (IsText value)
  gunzip _ := .error "invalid gzip header"
  brotli _ := .error "Invalid Data"
  unzstd _ := .error "Unknown frame descriptor"

theorem map_fieldBytes (fields : List (String × Bytes)) :
    (fields.map fieldBytes).map (fun field => (Text.fromUtf8Lossy field.1, field.2)) = fields := by
  rw [List.map_map]
  conv_rhs => rw [← List.map_id fields]
  apply List.map_congr_left
  intro field _
  simp [fieldBytes]

theorem isVisible_of_isPathByte {b : UInt8} (h : isPathByte b = true) : isVisible b = true := by
  simp only [isPathByte, Bool.or_eq_true, Bool.and_eq_true, decide_eq_true_eq, List.mem_cons,
    List.not_mem_nil, or_false] at h
  simp only [isVisible, Bool.and_eq_true, decide_eq_true_eq]
  omega

theorem parsesHeads_headLibrary : ParsesHeads headLibrary where
  request := by
    intro method path fields rest hmethod hpath hfields hslots
    have hne : textBytes path ≠ [] := by
      intro hnil
      have hlossy := fromUtf8Lossy_textBytes path
      rw [hnil] at hlossy
      have hfirst := hpath.1
      rw [← hlossy] at hfirst
      revert hfirst
      decide
    have htarget : IsTarget (textBytes path) :=
      ⟨hne, fun b hb => isVisible_of_isPathByte (hpath.2.1 b hb)⟩
    have hread := @readRequest_render (textBytes method) (textBytes path) rest
      (fields.map fieldBytes) 128 hmethod htarget (List.forall_mem_map.mpr hfields)
      (by simpa using hslots)
    simp only [headLibrary, hread, Option.map_some, headOfRequest, map_fieldBytes,
      fromUtf8Lossy_textBytes, List.length_append, Nat.add_sub_cancel]
  response := by
    intro code reason fields rest _ hmax hreason hfields hslots
    have hread := @readResponse_render reason rest (fields.map fieldBytes) 128 code hmax hreason
      (List.forall_mem_map.mpr hfields) (by simpa using hslots)
    simp only [headLibrary, hread, Option.map_some, headOfResponse, map_fieldBytes,
      List.length_append, Nat.add_sub_cancel]
  method _ h := decide_eq_true h
  uri _ h := decide_eq_true h
  name _ h hlength := if_pos ⟨h, hlength⟩
  value _ h := decide_eq_true h.1

/-- A repeated name, an empty value, a length, and pseudo-headers between them. -/
def spreadHeaders : List (String × String) :=
  [(":method", "POST"), ("accept", "text/event-stream"), (":path", "/v1/responses?stream=true"),
    ("x-note", ""), ("accept", "a b"), ("content-length", "6"), (":status", "200"),
    ("content-encoding", "identity")]

/-- A body that begins with two line ends. -/
def lineEndBody : Bytes := [13, 10, 13, 10, 1, 255]

theorem renderable_spreadHeaders : Renderable spreadHeaders lineEndBody where
  regular := by
    intro header hmem
    have hall : ∀ header ∈ regularHeaders spreadHeaders, IsToken (textBytes header.1) ∧
        Text.asciiLowercase header.1 = header.1 ∧
        (textBytes header.1).length ≤ MAX_HEADER_NAME_LEN ∧ IsValue (textBytes header.2) := by
      decide +kernel
    obtain ⟨hname, hlower, hshort, hvalue⟩ := hall header hmem
    exact ⟨hname, hlower, hshort, hvalue⟩
  few := by decide
  transferEncoding := by decide
  contentLength := by decide +kernel
  contentEncoding := by decide +kernel
  fits := by decide

theorem parse_synthesizeH2_spread :
    parseHttpRequest headLibrary (synthesizeH2Request spreadHeaders lineEndBody) =
        .ok ⟨.http11, some "POST", some "/v1/responses?stream=true", none,
          rerendered spreadHeaders lineEndBody, ⟨lineEndBody, lineEndBody, true⟩⟩ ∧
      parseHttpResponse headLibrary (synthesizeH2Response spreadHeaders lineEndBody) =
        .ok ⟨.http11, none, none, some 200, rerendered spreadHeaders lineEndBody,
          ⟨lineEndBody, lineEndBody, true⟩⟩ :=
  have hread := parse_synthesizeH2 headLibrary parsesHeads_headLibrary spreadHeaders lineEndBody
    renderable_spreadHeaders
  ⟨hread.1 "POST" "/v1/responses?stream=true" (by decide) (by decide) (by decide +kernel)
      (by decide +kernel), hread.2 200 (by decide) (by decide) (by decide)⟩

end Codexwatch.Client
