import Codexwatch.Capture.Chunked
import Codexwatch.Capture.FrameLengths
import Codexwatch.Client.Messages
import Codexwatch.Lib.Check

/-!
# Lengths that are read from the wire

`try_take_http1_message` adds the length in `Content-Length` to a cursor without a check, and it
finds the end of a chunked body by its last bytes and not by the sizes of the chunks. Together
with the lengths of WebSocket frames: what has to hold of the bytes for a call to return, and to
take as much as was announced.

## Main definitions

* `tryTakeHttp1MessageChecked` — the function of the source, whose sums and ranges have to be in
  range.
* `TakeSafe`, `TakeFits` — what the call should do, and the condition on the buffer.

## Main results

* `lengthsSafe_iff`.
-/
namespace Codexwatch.Client

open Protocol Capture Framing Checked

/-- `httparse` counts the bytes of a head that are there. -/
structure InRange (library : HttpLibrary) : Prop where
  request : ∀ bytes head, library.parseRequest bytes = some head → head.headerLen ≤ bytes.length
  response : ∀ bytes head, library.parseResponse bytes = some head → head.headerLen ≤ bytes.length

/-! ## The steps that may be out of range -/

section Checked
variable (library : HttpLibrary)

/-- `body_bytes[..body_bytes.len().min(expected)]` -/
def takeLengthChecked (value bytes : Bytes) : Option (Except HttpParseError (Bytes × Bool)) :=
  match toStr value with
  | none => some (.error (.invalidContentLength "<non-utf8>"))
  | some text =>
      match fromStrRadix 10 text with
      | none => some (.error (.invalidContentLength text))
      | some expected =>
          (slice bytes 0 (min bytes.length expected)).map fun raw =>
            .ok (raw, expected ≤ bytes.length)

def decodeBodyChecked (headers : HeaderMap) (bytes : Bytes) :
    Option (Except HttpParseError HttpBody) := do
  let raw ←
    if isChunked headers then decodeChunkedChecked bytes
    else match headers.get "content-length" with
      | some value => takeLengthChecked value bytes
      | none => some (.ok (bytes, true))
  pure (raw.bind fun r => (decodeContentEncoding library headers r.1).map fun decoded =>
    ⟨r.1, decoded, r.2⟩)

/-- `&bytes[header_len..]`, and the body. -/
def messageChecked (head : Head) (bytes : Bytes) : Option (Except HttpParseError HttpMessage) := do
  let tail ← suffix bytes head.headerLen
  let body ← decodeBodyChecked library head.headers tail
  pure (body.map fun body =>
    ⟨head.version, head.method, head.uri, head.status, head.headers, body⟩)

def parseMessageChecked (request : Bool) (bytes : Bytes) :
    Option (Except HttpParseError HttpMessage) :=
  match parseHead library request bytes with
  | .error e => some (.error e)
  | .ok head => messageChecked library head bytes

def findHeaderEndChecked (bytes : Bytes) : Option (Option ℕ) :=
  match position HEAD_END bytes with
  | none => some none
  | some index => (add index 4).map some

def findChunkedEndChecked (bytes : Bytes) (headerEnd : ℕ) : Option (Option ℕ) := do
  let tail ← suffix bytes headerEnd
  match position LAST_CHUNK tail with
  | none => pure none
  | some offset => do
      let start ← add headerEnd offset
      (add start 5).map some

def tryTakeHttp1MessageChecked (request : Bool) (buffer : Bytes) :
    Option (Except HttpParseError (Option (Bytes × Bytes))) := do
  match ← findHeaderEndChecked buffer with
  | none => pure (.ok none)
  | some headerEnd => do
      let head ← slice buffer 0 headerEnd
      match ← parseMessageChecked library request head with
      | .error e => pure (.error e)
      | .ok message =>
          if isChunkedHeaders message.headers then do
            match ← findChunkedEndChecked buffer headerEnd with
            | none => pure (.ok none)
            | some total => (drain buffer total).map fun taken => .ok (some taken)
          else do
            let total ← add headerEnd (contentLength message.headers)
            if buffer.length < total then pure (.ok none)
            else (drain buffer total).map fun taken => .ok (some taken)

end Checked

section InMemory
variable {library : HttpLibrary} {request : Bool} {bytes buffer : Bytes} {headerEnd : ℕ}

theorem takeLengthChecked_eq (value bytes : Bytes) :
    takeLengthChecked value bytes = some (takeLength value bytes) := by
  rw [takeLengthChecked, takeLength]
  cases toStr value with
  | none => rfl
  | some text =>
      dsimp only
      cases fromStrRadix 10 text with
      | none => rfl
      | some expected =>
          have htake : bytes.take (min bytes.length expected) = bytes.take expected := by
            rw [← List.take_take, List.take_of_length_le (List.length_take_le' ..)]
          simp [slice_eq_some (Nat.zero_le _) (Nat.min_le_left bytes.length expected), htake]

theorem decodeBodyChecked_eq (headers : HeaderMap) (h : InMemory bytes) :
    decodeBodyChecked library headers bytes = some (decodeBody library headers bytes) := by
  -- the rest of the function is the same, whatever the body and its encoding are
  have hrest : ∀ (decode : Bytes → Except HttpParseError Bytes)
      (raw : Except HttpParseError (Bytes × Bool)),
      (raw.bind fun r => (decode r.1).map fun decoded => (⟨r.1, decoded, r.2⟩ : HttpBody)) = (do
        let r ← raw
        let decoded ← decode r.1
        pure ⟨r.1, decoded, r.2⟩) := by
    intro decode raw
    cases raw with
    | error e => rfl
    | ok r => cases hdecoded : decode r.1 <;>
        simp [Except.bind, Except.map, bind, pure, Except.pure, hdecoded]
  rw [decodeBodyChecked, decodeBody]
  by_cases hchunked : isChunked headers = true
  · rw [if_pos hchunked, if_pos hchunked, decodeChunkedChecked_eq h]
    exact congrArg some (hrest (decodeContentEncoding library headers) _)
  · rw [if_neg hchunked, if_neg hchunked]
    cases headers.get "content-length" with
    | none => exact congrArg some (hrest (decodeContentEncoding library headers) _)
    | some value =>
        dsimp only
        rw [takeLengthChecked_eq]
        exact congrArg some (hrest (decodeContentEncoding library headers) _)

theorem messageChecked_eq {head : Head} (h : InMemory bytes) (hhead : head.headerLen ≤ bytes.length) :
    messageChecked library head bytes = some (head.message library bytes) := by
  have htail : InMemory (bytes.drop head.headerLen) := by
    rw [InMemory] at h ⊢
    rw [List.length_drop]
    omega
  rw [messageChecked, suffix_eq_some hhead, Head.message, Option.bind_eq_bind, Option.bind_some,
    decodeBodyChecked_eq head.headers htail]
  rfl

theorem elim_eq_ok {ε α : Type} {e : ε} {x : Option α} {a : α}
    (h : x.elim (Except.error e) Except.ok = Except.ok a) : x = some a := by
  cases x with
  | none => cases h
  | some b => exact congrArg some (Except.ok.inj h)

/-- The head ends within the bytes it is read from. -/
theorem headerLen_le (hlibrary : InRange library) {head : Head}
    (h : parseHead library request bytes = .ok head) : head.headerLen ≤ bytes.length := by
  cases request with
  | false =>
      have hresponse : parseResponseHead library bytes = .ok head := h
      rw [parseResponseHead, Check.bind_eq_ok] at hresponse
      obtain ⟨parsed, hparsed, hresponse⟩ := hresponse
      have hle := hlibrary.response _ _ (elim_eq_ok hparsed)
      simp only [Check.bind_eq_ok] at hresponse
      obtain ⟨_, _, _, _, hresponse⟩ := hresponse
      split at hresponse
      · simp only [Check.bind_eq_ok] at hresponse
        obtain ⟨_, _, hresponse⟩ := hresponse
        cases hresponse
        exact hle
      · cases hresponse
  | true =>
      have hrequest : parseRequestHead library bytes = .ok head := h
      rw [parseRequestHead, Check.bind_eq_ok] at hrequest
      obtain ⟨parsed, hparsed, hrequest⟩ := hrequest
      have hle := hlibrary.request _ _ (elim_eq_ok hparsed)
      simp only [Check.bind_eq_ok] at hrequest
      obtain ⟨_, _, _, _, hrequest⟩ := hrequest
      split at hrequest
      · simp only [Check.bind_eq_ok] at hrequest
        obtain ⟨_, _, hrequest⟩ := hrequest
        split at hrequest
        · simp only [Check.bind_eq_ok] at hrequest
          obtain ⟨_, _, hrequest⟩ := hrequest
          cases hrequest
          exact hle
        · cases hrequest
      · cases hrequest

theorem parseMessageChecked_eq (hlibrary : InRange library) (h : InMemory bytes) :
    parseMessageChecked library request bytes = some (parseMessage library request bytes) := by
  rw [parseMessageChecked, parseMessage_eq]
  cases hhead : parseHead library request bytes with
  | error e => rfl
  | ok head => exact messageChecked_eq h (headerLen_le hlibrary hhead)

theorem findHeaderEnd_le (h : findHeaderEnd buffer = some headerEnd) :
    headerEnd ≤ buffer.length := by
  obtain ⟨i, hi, rfl⟩ := Option.map_eq_some_iff.mp h
  exact add_length_le_of_position hi

theorem findHeaderEndChecked_eq (h : InMemory buffer) :
    findHeaderEndChecked buffer = some (findHeaderEnd buffer) := by
  rw [findHeaderEndChecked, findHeaderEnd]
  cases hi : position HEAD_END buffer with
  | none => rfl
  | some i =>
      have hlt := (position_eq_some.mp hi).1
      simp [add_of_le h hlt.le (show 4 < 2 ^ 63 by omega)]

theorem findChunkedEndChecked_eq (h : InMemory buffer) (hle : headerEnd ≤ buffer.length) :
    findChunkedEndChecked buffer headerEnd = some (findChunkedEnd buffer headerEnd) ∧
      ∀ total ∈ findChunkedEnd buffer headerEnd, total ≤ buffer.length := by
  rw [findChunkedEndChecked, suffix_eq_some hle, findChunkedEnd]
  cases hoffset : position LAST_CHUNK (buffer.drop headerEnd) with
  | none => exact ⟨by simp [hoffset], by simp⟩
  | some offset =>
      have hend : offset + 5 ≤ _ := add_length_le_of_position hoffset
      rw [List.length_drop] at hend
      rw [InMemory] at h
      constructor
      · simp [hoffset, add_eq_some (show headerEnd + offset < 2 ^ 64 by omega),
          add_eq_some (show headerEnd + offset + 5 < 2 ^ 64 by omega)]
      · intro total htotal
        rw [Option.map_some, Option.mem_some] at htotal
        omega

/-- The call returns, unless the length in the header block does not fit in a word. -/
theorem tryTakeChecked_eq (hlibrary : InRange library) (h : InMemory buffer) :
    (∃ headerEnd message, findHeaderEnd buffer = some headerEnd ∧
      parseMessage library request (buffer.take headerEnd) = .ok message ∧
      isChunkedHeaders message.headers = false ∧
      2 ^ 64 ≤ headerEnd + contentLength message.headers ∧
      tryTakeHttp1MessageChecked library request buffer = none) ∨
    ((∀ headerEnd message, findHeaderEnd buffer = some headerEnd →
      parseMessage library request (buffer.take headerEnd) = .ok message →
      isChunkedHeaders message.headers = false →
      headerEnd + contentLength message.headers < 2 ^ 64) ∧
      tryTakeHttp1MessageChecked library request buffer =
        some (tryTakeHttp1Message library request buffer)) := by
  rw [tryTakeHttp1MessageChecked, tryTakeHttp1Message, findHeaderEndChecked_eq h]
  cases hend : findHeaderEnd buffer with
  | none => exact .inr ⟨by simp, rfl⟩
  | some headerEnd =>
      have hle := findHeaderEnd_le hend
      have hhead : InMemory (buffer.take headerEnd) := by
        rw [InMemory] at h ⊢
        rw [List.length_take]
        omega
      simp only [Option.bind_eq_bind, Option.bind_some, slice_eq_some (Nat.zero_le _) hle,
        List.drop_zero, parseMessageChecked_eq hlibrary hhead, Option.some.injEq]
      cases hmessage : parseMessage library request (buffer.take headerEnd) with
      | error e =>
          refine .inr ⟨?_, rfl⟩
          rintro _ message rfl hparsed
          rw [hmessage] at hparsed
          cases hparsed
      | ok message =>
          by_cases hchunked : isChunkedHeaders message.headers = true
          · obtain ⟨hfind, htotal⟩ := findChunkedEndChecked_eq h hle
            refine .inr ⟨?_, ?_⟩
            · rintro _ _ rfl hparsed hnot
              rw [hmessage] at hparsed
              cases hparsed
              rw [hchunked] at hnot
              cases hnot
            · simp only [hchunked, if_true, hfind, Option.bind_some]
              cases htake : findChunkedEnd buffer headerEnd with
              | none => rfl
              | some total => simp [drain_eq_some (htotal total htake)]
          · rw [Bool.not_eq_true] at hchunked
            by_cases hover : 2 ^ 64 ≤ headerEnd + contentLength message.headers
            · refine .inl ⟨headerEnd, message, rfl, hmessage, hchunked, hover, ?_⟩
              simp [hchunked, add_eq_none hover]
            · refine .inr ⟨?_, ?_⟩
              · rintro _ _ rfl hparsed _
                rw [hmessage] at hparsed
                cases hparsed
                exact not_le.mp hover
              · simp only [hchunked, add_eq_some (not_le.mp hover), Option.bind_some]
                by_cases hshort : buffer.length < headerEnd + contentLength message.headers
                · simp [hshort]
                · simp [hshort, drain_eq_some (not_lt.mp hshort)]

end InMemory

/-! ## What is taken off a buffer -/

section Take
variable (library : HttpLibrary) (request : Bool) (buffer : Bytes)

/-- The buffer begins with a header block, in which these headers are. -/
def HeadIn (headerEnd : ℕ) (headers : HeaderMap) : Prop :=
  findHeaderEnd buffer = some headerEnd ∧
    ∃ message, parseMessage library request (buffer.take headerEnd) = .ok message ∧
      message.headers = headers

/-- The call returns, and it takes what the headers, or the sizes of the chunks, announce. -/
structure TakeSafe : Prop where
  returns : ∃ result, tryTakeHttp1MessageChecked library request buffer = some result
  length : ∀ headerEnd headers, HeadIn library request buffer headerEnd headers →
    isChunkedHeaders headers = false →
    tryTakeHttp1MessageChecked library request buffer =
      some (.ok (if buffer.length < headerEnd + contentLength headers then none
        else some (buffer.splitAt (headerEnd + contentLength headers))))
  chunked : ∀ headerEnd headers (body : SentBody) (rest : Bytes),
    HeadIn library request buffer headerEnd headers → isChunkedHeaders headers = true →
    buffer.drop headerEnd = body.bytes ++ rest →
    tryTakeHttp1MessageChecked library request buffer =
      some (.ok (some (buffer.take headerEnd ++ body.bytes, rest)))
  part : ∀ headerEnd headers (body : SentBody),
    HeadIn library request buffer headerEnd headers → isChunkedHeaders headers = true →
    buffer.drop headerEnd <+: body.bytes → buffer.drop headerEnd ≠ body.bytes →
    tryTakeHttp1MessageChecked library request buffer = some (.ok none)

/-- `0` and two line ends are at the end of the bytes and nowhere before. -/
def EndsOnce (bytes : Bytes) : Prop :=
  LAST_CHUNK <:+ bytes ∧ ∀ i, i + 5 < bytes.length → ¬ LAST_CHUNK <+: bytes.drop i

/-- The condition on a buffer. -/
structure TakeFits : Prop where
  length : ∀ headerEnd headers, HeadIn library request buffer headerEnd headers →
    isChunkedHeaders headers = false → headerEnd + contentLength headers < 2 ^ 64
  chunked : ∀ headerEnd headers (body : SentBody) (rest : Bytes),
    HeadIn library request buffer headerEnd headers → isChunkedHeaders headers = true →
    buffer.drop headerEnd = body.bytes ++ rest → EndsOnce body.bytes
  part : ∀ headerEnd headers (body : SentBody),
    HeadIn library request buffer headerEnd headers → isChunkedHeaders headers = true →
    buffer.drop headerEnd <+: body.bytes → buffer.drop headerEnd ≠ body.bytes →
    ∀ i, ¬ LAST_CHUNK <+: (buffer.drop headerEnd).drop i

end Take

/-- The end of the bytes is found where it occurs once. -/
theorem endsOnce_iff (bytes : Bytes) :
    EndsOnce bytes ↔ position LAST_CHUNK bytes = some (bytes.length - 5) := by
  have hfive : LAST_CHUNK.length = 5 := rfl
  rw [position_eq_some]
  constructor
  · rintro ⟨⟨before, rfl⟩, hfirst⟩
    rw [List.length_append, hfive, Nat.add_sub_cancel, List.drop_left]
    refine ⟨by omega, List.prefix_rfl, fun i hi => hfirst i ?_⟩
    rw [List.length_append, hfive]
    omega
  · rintro ⟨hlt, hstart, hfirst⟩
    have hle := hstart.length_le
    rw [List.length_drop, hfive] at hle
    refine ⟨?_, fun i hi => hfirst i (by omega)⟩
    have hsame : LAST_CHUNK = bytes.drop (bytes.length - 5) :=
      hstart.eq_of_length (by rw [List.length_drop, hfive]; omega)
    rw [hsame]
    exact List.drop_suffix ..

section Safe
variable {library : HttpLibrary} {request : Bool} {buffer : Bytes} {headerEnd : ℕ}
  {headers : HeaderMap}

/-- What is taken, where the lengths fit. -/
theorem tryTake_of_headIn (hhead : HeadIn library request buffer headerEnd headers) :
    tryTakeHttp1Message library request buffer =
      if isChunkedHeaders headers then
        .ok ((position LAST_CHUNK (buffer.drop headerEnd)).map fun offset =>
          (buffer.take headerEnd ++ (buffer.drop headerEnd).take (offset + 5),
            (buffer.drop headerEnd).drop (offset + 5)))
      else
        .ok (if buffer.length < headerEnd + contentLength headers then none
          else some (buffer.splitAt (headerEnd + contentLength headers))) := by
  obtain ⟨hend, message, hmessage, rfl⟩ := hhead
  have hsplit : ∀ offset, buffer.splitAt (headerEnd + offset + 5) =
      (buffer.take headerEnd ++ (buffer.drop headerEnd).take (offset + 5),
        (buffer.drop headerEnd).drop (offset + 5)) := by
    intro offset
    rw [List.splitAt_eq, Nat.add_assoc, List.take_add, List.drop_drop]
  rw [tryTakeHttp1Message, hend]
  simp only [hmessage, findChunkedEnd, Option.map_map, Function.comp_def, hsplit]

theorem bytes_length_of_endsOnce {bytes : Bytes} (h : EndsOnce bytes) :
    bytes.length - 5 + 5 = bytes.length := by
  have hle : LAST_CHUNK.length ≤ bytes.length := h.1.length_le
  have hfive : LAST_CHUNK.length = 5 := rfl
  omega

/-- A chunked body is taken as a whole exactly where its end occurs once in it. -/
theorem tryTake_chunked_iff (hhead : HeadIn library request buffer headerEnd headers)
    (hchunked : isChunkedHeaders headers = true) {body : SentBody} {rest : Bytes}
    (hbody : buffer.drop headerEnd = body.bytes ++ rest) :
    tryTakeHttp1Message library request buffer =
      .ok (some (buffer.take headerEnd ++ body.bytes, rest)) ↔ EndsOnce body.bytes := by
  rw [tryTake_of_headIn hhead, if_pos hchunked, hbody]
  constructor
  · intro htake
    obtain ⟨offset, hposition, htaken⟩ := Option.map_eq_some_iff.mp (Except.ok.inj htake)
    have hle : offset + 5 ≤ _ := add_length_le_of_position hposition
    have hlength := congrArg List.length (List.append_cancel_left (Prod.mk.inj htaken).1)
    rw [List.length_take_of_le hle] at hlength
    have hoffset : offset = body.bytes.length - 5 := by omega
    rw [endsOnce_iff, ← hoffset]
    exact (position_append (by rw [← hlength]; rfl) (by omega)).mp hposition
  · intro honce
    have hlength := bytes_length_of_endsOnce honce
    have hposition := (endsOnce_iff _).mp honce
    have hle := add_length_le_of_position hposition
    have hlt := (position_eq_some.mp hposition).1
    rw [(position_append hle hlt).mpr hposition, Option.map_some, hlength, List.take_left,
      List.drop_left]

/-- Nothing is taken of a part of a chunked body exactly where its end does not occur in it. -/
theorem tryTake_part_iff (hhead : HeadIn library request buffer headerEnd headers)
    (hchunked : isChunkedHeaders headers = true) :
    tryTakeHttp1Message library request buffer = .ok none ↔
      ∀ i, ¬ LAST_CHUNK <+: (buffer.drop headerEnd).drop i := by
  have hne : LAST_CHUNK ≠ [] := by decide
  rw [tryTake_of_headIn hhead, if_pos hchunked, Except.ok.injEq, Option.map_eq_none_iff,
    position_eq_none_iff hne]

theorem takeSafe_iff (hlibrary : InRange library) (h : InMemory buffer) :
    TakeSafe library request buffer ↔ TakeFits library request buffer := by
  rcases @tryTakeChecked_eq library request buffer hlibrary h with
    ⟨headerEnd, message, hend, hmessage, hnot, hover, hnone⟩ | ⟨hfits, hsome⟩
  · constructor
    · intro hsafe
      obtain ⟨result, hresult⟩ := hsafe.returns
      cases hnone.symm.trans hresult
    · intro hfit
      have hlt := hfit.length headerEnd _ ⟨hend, message, hmessage, rfl⟩ hnot
      exact absurd hlt (not_lt.mpr hover)
  · constructor
    · intro hsafe
      refine ⟨?_, ?_, ?_⟩
      · rintro headerEnd _ ⟨hend, message, hmessage, rfl⟩ hnot
        exact hfits headerEnd message hend hmessage hnot
      · intro headerEnd headers body rest hhead hchunked hbody
        have htake := hsafe.chunked headerEnd headers body rest hhead hchunked hbody
        rw [hsome, Option.some.injEq] at htake
        exact (tryTake_chunked_iff hhead hchunked hbody).mp htake
      · intro headerEnd headers body hhead hchunked hpart hne
        have htake := hsafe.part headerEnd headers body hhead hchunked hpart hne
        rw [hsome, Option.some.injEq] at htake
        exact (tryTake_part_iff hhead hchunked).mp htake
    · intro hfit
      refine ⟨⟨_, hsome⟩, ?_, ?_, ?_⟩
      · intro headerEnd headers hhead hnot
        rw [hsome, tryTake_of_headIn hhead, hnot]
        rfl
      · intro headerEnd headers body rest hhead hchunked hbody
        rw [hsome, (tryTake_chunked_iff hhead hchunked hbody).mpr
          (hfit.chunked headerEnd headers body rest hhead hchunked hbody)]
      · intro headerEnd headers body hhead hchunked hpart hne
        rw [hsome, (tryTake_part_iff hhead hchunked).mpr
          (hfit.part headerEnd headers body hhead hchunked hpart hne)]

/-- Every call returns and takes what was announced, exactly where the sums of the lengths that are
read fit in a word and a chunked body has its end in it once. -/
theorem lengthsSafe_iff (hlibrary : InRange library) :
    (∀ (d : WebSocketDecoder) (bytes : Bytes), InMemory (d.buffer ++ bytes) →
      (d.PushSafe bytes ↔ d.LengthsFit (d.buffer ++ bytes))) ∧
    (∀ bytes : Bytes, InMemory bytes → (FramesSafe bytes ↔ FramesFit 0 bytes)) ∧
    ∀ (request : Bool) (buffer : Bytes), InMemory buffer →
      (TakeSafe library request buffer ↔ TakeFits library request buffer) :=
  ⟨fun _ _ h => WebSocketDecoder.pushSafe_iff h, fun _ h => framesSafe_iff h,
    fun _ _ h => takeSafe_iff hlibrary h⟩

end Safe

/-- The header block of a response that announces so many bytes. -/
def lengthHead (length : String) : Bytes :=
  ("HTTP/1.1 200 OK\r\nContent-Length: " ++ length ++ "\r\n\r\n").toList.map
    fun c => c.toNat.toUInt8

/-- A library that reads this one header block. -/
def lengthLibrary (length : String) : HttpLibrary where
  __ := sampleLibrary
  parseResponse bytes :=
    if bytes = lengthHead length then
      some ⟨(lengthHead length).length, some 1, none, none, some 200,
        [("content-length", length.toList.map fun c => c.toNat.toUInt8)]⟩
    else none

theorem inRange_lengthLibrary (length : String) : InRange (lengthLibrary length) where
  request := by simp [lengthLibrary, sampleLibrary]
  response := by
    intro bytes head hparse
    simp only [lengthLibrary, Option.ite_none_right_eq_some] at hparse
    obtain ⟨rfl, hhead⟩ := hparse
    cases hhead
    exact le_rfl

/-- A response of two bytes, and the first byte of the next. -/
def shortResponse : Bytes := lengthHead "2" ++ [104, 105, 72]

theorem headIn_shortResponse {headerEnd : ℕ} {headers : HeaderMap}
    (h : HeadIn (lengthLibrary "2") false shortResponse headerEnd headers) :
    isChunkedHeaders headers = false ∧ headerEnd + contentLength headers = 40 := by
  obtain ⟨hend, message, hmessage, rfl⟩ := h
  have hfound : findHeaderEnd shortResponse = some 38 := by decide +kernel
  obtain rfl := Option.some.inj (hfound.symm.trans hend)
  have hread : (parseMessage (lengthLibrary "2") false (shortResponse.take 38)).toOption.map
      (fun message => (isChunkedHeaders message.headers, 38 + contentLength message.headers)) =
        some (false, 40) := by decide +kernel
  rw [hmessage] at hread
  exact Prod.mk.inj (Option.some.inj hread)

/-- A frame of one byte, and a response with its header block. -/
theorem lengthsSafe_short :
    WebSocketDecoder.new.PushSafe [0x82, 1, 97] ∧ FramesSafe [0x82, 1, 97] ∧
      TakeSafe (lengthLibrary "2") false shortResponse := by
  have hframe : announced [0x82, 1, 97] = some 3 := by decide
  have hsafe := lengthsSafe_iff (inRange_lengthLibrary "2")
  refine ⟨(hsafe.1 .new _ (by decide)).mpr ?_, (hsafe.2.1 _ (by decide)).mpr ?_,
    (hsafe.2.2 false _ (by decide +kernel)).mpr ?_⟩
  · exact (eachLength_cons_iff hframe (by decide)).mpr ⟨by decide, eachLength_of_none rfl⟩
  · exact (eachLength_cons_iff hframe (by decide)).mpr ⟨by decide, eachLength_of_none rfl⟩
  · refine ⟨fun headerEnd headers hhead _ => ?_, fun headerEnd headers _ _ hhead hchunked => ?_,
      fun headerEnd headers _ hhead hchunked => ?_⟩
    · rw [(headIn_shortResponse hhead).2]
      decide
    · rw [(headIn_shortResponse hhead).1] at hchunked
      cases hchunked
    · rw [(headIn_shortResponse hhead).1] at hchunked
      cases hchunked

/-- The header of a frame that announces `2 ^ 64 - 1` bytes. -/
def hugeFrame : Bytes := 0x82 :: 0x7f :: List.replicate 8 0xff

def hugeLength : String := "18446744073709551615"

/-- Each of the three calls panics. -/
theorem not_lengthsSafe_huge :
    (¬ ∀ (d : WebSocketDecoder) (bytes : Bytes), InMemory (d.buffer ++ bytes) →
      d.PushSafe bytes) ∧
    (¬ ∀ bytes : Bytes, InMemory bytes → FramesSafe bytes) ∧
    ¬ ∀ (library : HttpLibrary) (request : Bool) (buffer : Bytes), InRange library →
      InMemory buffer → TakeSafe library request buffer := by
  have hpush : WebSocketDecoder.new.pushChecked hugeFrame = none := by decide +kernel
  have hframes : decodeWebsocketFramesChecked hugeFrame = none := by decide +kernel
  have htake : tryTakeHttp1MessageChecked (lengthLibrary hugeLength) false
      (lengthHead hugeLength) = none := by decide +kernel
  refine ⟨fun h => ?_, fun h => ?_, fun h => ?_⟩
  · obtain ⟨result, hresult, -⟩ := h .new hugeFrame (by decide)
    cases hpush.symm.trans hresult
  · obtain ⟨result, hresult, -⟩ := h hugeFrame (by decide)
    cases hframes.symm.trans hresult
  · obtain ⟨result, hresult⟩ :=
      (h (lengthLibrary hugeLength) false (lengthHead hugeLength)
        (inRange_lengthLibrary hugeLength) (by decide +kernel)).returns
    cases htake.symm.trans hresult

end Codexwatch.Client
