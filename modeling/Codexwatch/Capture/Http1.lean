import Codexwatch.Lib.Framing
import Codexwatch.Lib.Text
import Codexwatch.Protocol.Types

/-!
# HTTP/1 messages

`capture/src/http1.rs`: the head and the body of a message, as far as the body is
there. Parsing a header block (`httparse`, and the names and values of `http`) and
the decoders of the content encodings are parameters.

## Main definitions

* `HttpLibrary` — the parameters.
* `parseHttpRequest`, `parseHttpResponse` — a message.
* `decodeChunked`, `decodeContentEncoding` — its body.
-/
namespace Codexwatch.Capture

open Protocol Framing

/-- Names in lower case with their values, in order. -/
abbrev HeaderMap := List (String × Bytes)

/-- `HeaderMap::get`: the first value. -/
def HeaderMap.get (headers : HeaderMap) (name : String) : Option Bytes := headers.lookup name

/-- `HeaderValue::to_str`: visible ASCII, blanks and tabs. -/
def toStr (value : Bytes) : Option String :=
  if value.all fun b => (32 ≤ b && b < 127) || b = 9 then
    some (String.ofList (value.map fun b => Char.ofNat b.toNat))
  else none

inductive Version
  | http10 | http11
  deriving DecidableEq

structure HttpBody where
  raw : Bytes
  decoded : Bytes
  complete : Bool
  deriving DecidableEq

structure HttpMessage where
  version : Version
  method : Option String
  uri : Option String
  status : Option ℕ
  headers : HeaderMap
  body : HttpBody
  deriving DecidableEq

inductive HttpParseError
  | incompleteHead
  | invalidVersion
  | invalidMethod (method : String)
  | invalidUri (uri : String)
  | invalidStatus (code : ℕ)
  | invalidHeaderName (name : String)
  | invalidHeaderValue (name : String)
  | invalidContentLength (text : String)
  | invalidChunkedBody
  | bodyDecode (error : String)
  deriving DecidableEq

/-- What `httparse` reads of a complete header block. -/
structure ParsedHead where
  headerLen : ℕ
  version : Option ℕ
  method : Option String
  path : Option String
  code : Option ℕ
  headers : List (String × Bytes)

/-- The libraries under the parser. -/
structure HttpLibrary where
  /-- `httparse::Request::parse` with 128 slots for the fields, where it is complete. -/
  parseRequest : Bytes → Option ParsedHead
  /-- `httparse::Response::parse` with 128 slots for the fields, where it is complete. -/
  parseResponse : Bytes → Option ParsedHead
  isMethod : String → Bool
  isUri : String → Bool
  /-- `HeaderName::from_bytes` -/
  headerName : String → Option String
  /-- `HeaderValue::from_bytes` -/
  isHeaderValue : Bytes → Bool
  gunzip : Bytes → Except String Bytes
  brotli : Bytes → Except String Bytes
  unzstd : Bytes → Except String Bytes

/-! ## Numbers -/

def digitOf (radix : ℕ) (c : Char) : Option ℕ :=
  let n := c.toNat
  let digit :=
    if 48 ≤ n ∧ n ≤ 57 then some (n - 48)
    else if 65 ≤ n ∧ n ≤ 90 then some (n - 55)
    else if 97 ≤ n ∧ n ≤ 122 then some (n - 87)
    else none
  digit.filter fun d => d < radix

/-- `usize::from_str_radix` -/
def fromStrRadix (radix : ℕ) (text : String) : Option ℕ :=
  let digits := match text.toList with
    | '+' :: rest => rest
    | all => all
  if digits = [] then none
  else (digits.foldlM (fun acc c => (digitOf radix c).map fun d => acc * radix + d) 0).filter
    fun value => value < 2 ^ 64

theorem digitOf_of_isDigit {c : Char} (h : c.isDigit = true) :
    digitOf 10 c = some (c.toNat - 48) := by
  have hrange : 48 ≤ c.toNat ∧ c.toNat ≤ 57 := by
    simpa [Char.isDigit, UInt32.le_iff_toNat_le] using h
  simp only [digitOf, if_pos hrange, Option.filter_some]
  rw [if_pos (by simp; omega)]

theorem foldlM_digits (cs : List Char) (h : ∀ c ∈ cs, c.isDigit = true) (acc : ℕ) :
    cs.foldlM (fun acc c => (digitOf 10 c).map fun d => acc * 10 + d) acc =
      some (Nat.ofDigitChars 10 cs acc) := by
  induction cs generalizing acc with
  | nil => simp
  | cons c cs ih =>
      rw [List.forall_mem_cons] at h
      have hzero : '0'.toNat = 48 := rfl
      rw [List.foldlM_cons, digitOf_of_isDigit h.1, Option.map_some, Option.bind_eq_bind,
        Option.bind_some, ih h.2, Nat.ofDigitChars_cons, hzero, Nat.mul_comm]

theorem isDigit_of_mem_repr {n : ℕ} {c : Char} (h : c ∈ n.repr.toList) : c.isDigit = true := by
  rw [Nat.toList_repr] at h
  exact Nat.isDigit_of_mem_toDigits (by decide) (by decide) h

theorem fromStrRadix_repr {n : ℕ} (h : n < 2 ^ 64) : fromStrRadix 10 n.repr = some n := by
  have hne : n.repr.toList ≠ [] := by
    rw [Nat.toList_repr]
    exact Nat.toDigits_ne_nil
  have hvalue : Nat.ofDigitChars 10 n.repr.toList 0 = n := by
    rw [Nat.toList_repr, Nat.ofDigitChars_ten_toDigits]
  have hdigits := foldlM_digits n.repr.toList (fun c hc => isDigit_of_mem_repr hc) 0
  rw [hvalue] at hdigits
  cases hchars : n.repr.toList with
  | nil => exact absurd hchars hne
  | cons c cs =>
      have hplus : c ≠ '+' := by
        rintro rfl
        have hdigit := isDigit_of_mem_repr (n := n) (c := '+') (by simp [hchars])
        revert hdigit
        decide
      rw [hchars] at hdigits
      rw [fromStrRadix, hchars]
      split
      · rename_i rest heq
        exact absurd (List.cons.inj heq).1 hplus
      · rw [if_neg (List.cons_ne_nil c cs), hdigits, Option.filter_some, if_pos (by simpa using h)]

/-! ## Heads -/

section Heads
variable (library : HttpLibrary)

def parseVersion : Option ℕ → Except HttpParseError Version
  | some 1 => .ok .http11
  | some 0 => .ok .http10
  | _ => .error .invalidVersion

def toHeaderMap : List (String × Bytes) → Except HttpParseError HeaderMap
  | [] => .ok []
  | (name, value) :: headers =>
      match library.headerName name with
      | none => .error (.invalidHeaderName name)
      | some lower =>
          if library.isHeaderValue value then
            (toHeaderMap headers).map fun map => (lower, value) :: map
          else .error (.invalidHeaderValue name)

/-- A message without its body, and where that begins. -/
structure Head where
  headerLen : ℕ
  version : Version
  method : Option String
  uri : Option String
  status : Option ℕ
  headers : HeaderMap

/-- `parse_http_request` up to the body. -/
def parseRequestHead (bytes : Bytes) : Except HttpParseError Head := do
  let request ← (library.parseRequest bytes).elim (.error .incompleteHead) .ok
  let version ← parseVersion request.version
  let method ← request.method.elim (.error .incompleteHead) .ok
  if library.isMethod method then pure () else .error (.invalidMethod method)
  let uri ← request.path.elim (.error .incompleteHead) .ok
  if library.isUri uri then pure () else .error (.invalidUri uri)
  let headers ← toHeaderMap library request.headers
  pure ⟨request.headerLen, version, some method, some uri, none, headers⟩

/-- `parse_http_response` up to the body; `StatusCode` has three digits. -/
def parseResponseHead (bytes : Bytes) : Except HttpParseError Head := do
  let response ← (library.parseResponse bytes).elim (.error .incompleteHead) .ok
  let version ← parseVersion response.version
  let code ← response.code.elim (.error .incompleteHead) .ok
  if 100 ≤ code ∧ code < 1000 then pure () else .error (.invalidStatus code)
  let headers ← toHeaderMap library response.headers
  pure ⟨response.headerLen, version, none, none, some code, headers⟩

end Heads

/-! ## Bodies -/

def CRLF : Bytes := [13, 10]

def isChunked (headers : HeaderMap) : Bool :=
  ((headers.get "transfer-encoding").bind toStr).any fun value =>
    (value.toList.splitOn ',').any fun part =>
      Text.asciiLowercase (Text.trim (String.ofList part)) = "chunked"

/-- `find_crlf` -/
def findCrlf (bytes : Bytes) (start : ℕ) : Option ℕ :=
  (position CRLF (bytes.drop start)).map fun offset => start + offset

/-- The lines after the last chunk, up to an empty one; every line takes two of the `fuel` bytes. -/
def skipTrailers (bytes : Bytes) : ℕ → ℕ → Bool
  | 0, _ => false
  | fuel + 1, cursor =>
      match findCrlf bytes cursor with
      | none => false
      | some trailerEnd =>
          if trailerEnd = cursor then true else skipTrailers bytes fuel (trailerEnd + 2)

/-- `str::from_utf8` -/
def fromUtf8 (bytes : Bytes) : Option String := String.fromUTF8? ⟨bytes.toArray⟩

def textBytes (text : String) : Bytes := text.toUTF8.data.toList

theorem textBytes_eq (text : String) : textBytes text = text.toList.flatMap String.utf8EncodeChar :=
  Text.toList_toUTF8 text

@[simp] theorem textBytes_append (s t : String) :
    textBytes (s ++ t) = textBytes s ++ textBytes t := by
  simp [textBytes_eq]

@[simp] theorem fromUtf8Lossy_textBytes (text : String) :
    Text.fromUtf8Lossy (textBytes text) = text := Text.fromUtf8Lossy_toUTF8 text

@[simp] theorem fromUtf8_textBytes (text : String) : fromUtf8 (textBytes text) = some text := by
  have hbytes : (⟨(textBytes text).toArray⟩ : ByteArray) = text.toUTF8 := by
    rw [textBytes, Array.toArray_toList]
  rw [fromUtf8, hbytes, String.fromUTF8?]
  exact dif_pos text.isValidUTF8

/-- An ASCII character that is not in a text is not among its bytes. -/
theorem notMem_textBytes {text : String} {c : Char} {b : UInt8} (hb : b.toNat < 128)
    (hcb : c.toNat = b.toNat) (h : c ∉ text.toList) : b ∉ textBytes text := by
  rw [textBytes_eq, List.mem_flatMap]
  rintro ⟨d, hd, hbyte⟩
  rw [Text.mem_utf8EncodeChar_iff hb, ← hcb] at hbyte
  exact h (Char.toNat_inj.mp hbyte ▸ hd)

theorem lineFeed_notMem_textBytes {text : String} (h : '\n' ∉ text.toList) :
    10 ∉ textBytes text := notMem_textBytes (by decide) (by decide) h

theorem carriageReturn_notMem_textBytes {text : String} (h : '\r' ∉ text.toList) :
    13 ∉ textBytes text := notMem_textBytes (by decide) (by decide) h

/-- The size in a chunk's first line, before its extensions. -/
def chunkSize (line : Bytes) : Option ℕ :=
  (fromUtf8 line).bind fun text =>
    fromStrRadix 16 (Text.trim (String.ofList (text.toList.takeWhile (· ≠ ';'))))

/-- The loop of `decode_chunked`; every chunk takes two of the `fuel` bytes. -/
def decodeChunks (bytes : Bytes) : ℕ → ℕ → Bytes → Except HttpParseError (Bytes × Bool)
  | 0, _, decoded => .ok (decoded, false)
  | fuel + 1, cursor, decoded =>
      match findCrlf bytes cursor with
      | none => .ok (decoded, false)
      | some lineEnd =>
          match chunkSize ((bytes.take lineEnd).drop cursor) with
          | none => .error .invalidChunkedBody
          | some size =>
              let cursor := lineEnd + 2
              let stop := cursor + size
              if size = 0 then .ok (decoded, skipTrailers bytes (bytes.length + 1) cursor)
              else if 2 ^ 64 ≤ stop then .error .invalidChunkedBody
              else if bytes.length < stop then .ok (decoded, false)
              else
                let decoded := decoded ++ (bytes.take stop).drop cursor
                if bytes.length < stop + 2 then .ok (decoded, false)
                else if (bytes.drop stop).take 2 ≠ CRLF then .error .invalidChunkedBody
                else decodeChunks bytes fuel (stop + 2) decoded

def decodeChunked (bytes : Bytes) : Except HttpParseError (Bytes × Bool) :=
  decodeChunks bytes (bytes.length + 1) 0 []

section Bodies
variable (library : HttpLibrary) (headers : HeaderMap)

def contentEncoding : String :=
  Text.asciiLowercase (Text.trim (((headers.get "content-encoding").bind toStr).getD ""))

def decodeContentEncoding (raw : Bytes) : Except HttpParseError Bytes :=
  match contentEncoding headers with
  | "gzip" => (library.gunzip raw).mapError .bodyDecode
  | "br" => (library.brotli raw).mapError .bodyDecode
  | "zstd" => (library.unzstd raw).mapError .bodyDecode
  | _ => .ok raw

/-- The body that `Content-Length` delimits. -/
def takeLength (value bytes : Bytes) : Except HttpParseError (Bytes × Bool) :=
  match toStr value with
  | none => .error (.invalidContentLength "<non-utf8>")
  | some text =>
      match fromStrRadix 10 text with
      | none => .error (.invalidContentLength text)
      | some expected => .ok (bytes.take expected, expected ≤ bytes.length)

def decodeBody (bytes : Bytes) : Except HttpParseError HttpBody := do
  let (raw, complete) ←
    if isChunked headers then decodeChunked bytes
    else match headers.get "content-length" with
      | some value => takeLength value bytes
      | none => .ok (bytes, true)
  let decoded ← decodeContentEncoding library headers raw
  pure ⟨raw, decoded, complete⟩

end Bodies

def Head.message (library : HttpLibrary) (head : Head) (bytes : Bytes) :
    Except HttpParseError HttpMessage :=
  (decodeBody library head.headers (bytes.drop head.headerLen)).map fun body =>
    ⟨head.version, head.method, head.uri, head.status, head.headers, body⟩

def parseHttpRequest (library : HttpLibrary) (bytes : Bytes) : Except HttpParseError HttpMessage :=
  (parseRequestHead library bytes).bind fun head => head.message library bytes

def parseHttpResponse (library : HttpLibrary) (bytes : Bytes) : Except HttpParseError HttpMessage :=
  (parseResponseHead library bytes).bind fun head => head.message library bytes

end Codexwatch.Capture
