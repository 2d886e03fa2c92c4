import Codexwatch.Client.Multiplexing

/-!
# The requests of an HTTP/1 connection and their responses

`consume_http1` of `client/src/capture_lane.rs` keeps the requests of a connection in a
queue, and takes one message of the server for each of them. Whatever the pieces in which
the two streams come, the `n`th request is answered by the `n`th message, up to the first pair
that cannot be decoded.

## Main definitions

* `http1Pairs` — the pairs that the loop forms in a run.
* `answered`, `exchangeOfPair` — what a pair is, under no identifier and at no time.
* `Framed` — a message of the server that is found whole.
* `Asking`, `Answering` — the requests and the responses that are still to come.

## Main results

* `answerRequests_eq` — the exchanges of the loop are those of its pairs.
* `consumeHttp1_of_answering` — one piece takes pairs off the front of what is to come.
* `pairs_of_http1`, `pairs_of_unknown` — the pairs of a run.
-/
namespace Codexwatch.Client

open Protocol Capture Framing Relational Streaming

/-! ## Up to the first failure -/

section Through
variable {α : Type} {p : α → Bool} {l l' : List α}

/-- The list up to the first element that fails, and that element. -/
def through (p : α → Bool) : List α → List α
  | [] => []
  | a :: l => a :: if p a then through p l else []

theorem through_append_of_all (h : ∀ a ∈ l, p a = true) :
    through p (l ++ l') = l ++ through p l' := by
  induction l with
  | nil => rfl
  | cons a l ih =>
      rw [List.forall_mem_cons] at h
      rw [List.cons_append, through, if_pos h.1, ih h.2, List.cons_append]

theorem through_of_all (h : ∀ a ∈ l, p a = true) : through p l = l := by
  have hnil := @through_append_of_all _ p l [] h
  simpa [through] using hnil

theorem through_append_of_not (h : ¬ ∀ a ∈ l, p a = true) :
    through p (l ++ l') = through p l := by
  induction l with
  | nil => simp at h
  | cons a l ih =>
      rw [List.cons_append, through, through]
      split
      · rename_i hp
        rw [ih fun hall => h (List.forall_mem_cons.mpr ⟨hp, hall⟩)]
      · rfl

end Through

/-! ## The exchange of a pair -/

/-- The exchange without the identifier and the time of its attempt. -/
def DecodedExchange.content (exchange : DecodedExchange) : DecodedExchange :=
  { exchange with attempt := { exchange.attempt.identified (.v7 0) with requestAtMs := 0 } }

def Answer.content : Answer → Answer
  | .upgraded => .upgraded
  | .skipped => .skipped
  | .exchange decoded => .exchange decoded.content

section Pairs
variable {η : Type} (library : ApplicationLibrary η)

/-- What a response means to its request, under no identifier and at no time. -/
def answered (pair : Bytes × Bytes) : Option Answer := answerOf library (.v7 0) ⟨pair.1, 0⟩ pair.2

def decodesPair (pair : Bytes × Bytes) : Bool := (answered library pair).isSome

def exchangeOfPair (pair : Bytes × Bytes) : Option DecodedExchange :=
  match answered library pair with
  | some (.exchange exchange) => some exchange
  | _ => none

/-- The pairs of the loop: it ends with a pair that cannot be decoded. -/
def pairRequests : List RequestEnvelope → Bytes → List (Bytes × Bytes)
  | [], _ => []
  | request :: queue, buffer =>
      match tryTakeHttp1ResponseOrTerminal library (alignHttp1Response buffer) with
      | .ok (some (responseRaw, rest)) =>
          (request.raw, responseRaw) ::
            if decodesPair library (request.raw, responseRaw) then pairRequests queue rest else []
      | _ => []

/-- The pairs that are whole in the buffers. -/
def bufferPairs (t : Tick) (state : FlowProtocol η) : List (Bytes × Bytes) :=
  match drain (tryTakeHttp1Message library.toHttpLibrary true) (state.clientBuffer.length + 1)
      state.clientBuffer with
  | .error _ => []
  | .ok (requests, _) => pairRequests library
      (state.requestQueue ++ requests.map fun raw => ⟨raw, t.nowMs⟩) state.serverBuffer

/-- The pairs that the bytes of a segment complete. -/
def piecePairs (state : FlowProtocol η) (piece : Piece) : List (Bytes × Bytes) :=
  match protocolFor library state piece with
  | .http1 => bufferPairs library piece.tick (state.buffered piece.direction piece.bytes)
  | _ => []

/-- The pairs of a run. -/
def http1Pairs : FlowProtocol η → List Piece → List (Bytes × Bytes)
  | _, [] => []
  | state, piece :: pieces =>
      piecePairs library state piece ++ http1Pairs (receivePiece library state piece) pieces

/-- A message of the server that is found whole, and does not change the protocol. -/
structure Framed (raw : Bytes) : Prop where
  start : RESPONSE_PREFIX <+: raw
  whole : ∀ rest, tryTakeHttp1Message library.toHttpLibrary false (raw ++ rest) =
    .ok (some (raw, rest))
  plain : ∀ parsed, parseHttpResponse library.toHttpLibrary raw = .ok parsed →
    parsed.status ≠ some 101

variable {library}

theorem content_decodeExchange (id : Uuid) (requestBytes responseBytes : Bytes) (requestAtMs : ℤ) :
    (fun attempt : DecodedAttempt =>
        { attempt.identified (.v7 0) with requestAtMs := 0 }) <$>
      decodeExchange library.toExchangeLibrary id requestBytes responseBytes requestAtMs =
    decodeExchange library.toExchangeLibrary (.v7 0) requestBytes responseBytes 0 := by
  have hfields (metadata : DecodedTurnMetadata) (requestJson : Json)
      (requestComplete responseComplete : Bool) (response : Response) :
      { (decodeHttpExchange id metadata requestJson requestComplete responseComplete response
          requestAtMs).identified (.v7 0) with requestAtMs := 0 } =
        decodeHttpExchange (.v7 0) metadata requestJson requestComplete responseComplete response
          0 := by
    rw [identified_decodeHttpExchange]
    rfl
  simp only [decodeExchange, map_bind, map_pure, hfields]

theorem content_exchangeOf (id : Uuid) (requestRaw responseRaw : Bytes)
    (requestMsg responseMsg : HttpMessage) (requestAtMs : ℤ) :
    (exchangeOf library id requestRaw responseRaw requestMsg responseMsg requestAtMs).map
        DecodedExchange.content =
      exchangeOf library (.v7 0) requestRaw responseRaw requestMsg responseMsg 0 := by
  rw [exchangeOf, exchangeOf, ← content_decodeExchange id requestRaw responseRaw requestAtMs]
  cases decodeExchange library.toExchangeLibrary id requestRaw responseRaw requestAtMs <;> rfl

variable (library) in
/-- The identifier and the time are only passed on. -/
theorem content_answerOf (id : Uuid) (request : RequestEnvelope) (responseRaw : Bytes) :
    (answerOf library id request responseRaw).map Answer.content =
      answered library (request.raw, responseRaw) := by
  rw [answered, answerOf, answerOf]
  cases (parseHttpRequest library.toHttpLibrary request.raw).toOption with
  | none => rfl
  | some requestMsg =>
      cases (parseHttpResponse library.toHttpLibrary responseRaw).toOption with
      | none => rfl
      | some responseMsg =>
          simp only [Option.bind_eq_bind, Option.bind_some]
          split
          · rfl
          · split
            · rfl
            · rw [← content_exchangeOf id, Option.map_map, Option.map_map]
              rfl

variable (library) in
theorem isSome_answerOf (id : Uuid) (request : RequestEnvelope) (responseRaw : Bytes) :
    (answerOf library id request responseRaw).isSome =
      decodesPair library (request.raw, responseRaw) := by
  rw [decodesPair, ← content_answerOf library id, Option.isSome_map]

variable (library) in
/-- The exchanges of the loop are those of its pairs. -/
theorem answerRequests_eq (t : Tick) (index : ℕ) (queue : List RequestEnvelope)
    (state : FlowProtocol η) :
    (answerRequests library t index queue state).1.map DecodedExchange.content =
      (pairRequests library queue state.serverBuffer).filterMap (exchangeOfPair library) := by
  induction queue generalizing index state with
  | nil => rfl
  | cons request queue ih =>
      rw [answerRequests, pairRequests]
      dsimp only
      cases htake : tryTakeHttp1ResponseOrTerminal library
          (alignHttp1Response state.serverBuffer) with
      | error e => rfl
      | ok taken =>
          cases taken with
          | none => rfl
          | some taken =>
              rcases taken with ⟨responseRaw, rest⟩
              have hanswer :=
                content_answerOf library (t.ids (.attempt index)) request responseRaw
              have hsome := isSome_answerOf library (t.ids (.attempt index)) request responseRaw
              dsimp only
              cases hof : answerOf library (t.ids (.attempt index)) request responseRaw with
              | none =>
                  rw [hof] at hanswer hsome
                  simp [← hsome, exchangeOfPair, ← hanswer]
              | some answer =>
                  rw [hof] at hanswer hsome
                  rw [← hsome, Option.isSome_some, if_pos rfl]
                  cases answer with
                  | upgraded =>
                      have hpair : exchangeOfPair library (request.raw, responseRaw) = none := by
                        simp [exchangeOfPair, ← hanswer, Answer.content]
                      rw [List.filterMap_cons_none hpair]
                      exact ih index _
                  | skipped =>
                      have hpair : exchangeOfPair library (request.raw, responseRaw) = none := by
                        simp [exchangeOfPair, ← hanswer, Answer.content]
                      rw [List.filterMap_cons_none hpair]
                      exact ih index _
                  | exchange decoded =>
                      have hpair : exchangeOfPair library (request.raw, responseRaw) =
                          some decoded.content := by
                        simp [exchangeOfPair, ← hanswer, Answer.content]
                      rw [List.filterMap_cons_some hpair, List.map_cons, ih (index + 1)]

/-- A response is no upgrade, unless its status is 101. -/
theorem ne_upgraded (id : Uuid) (request : RequestEnvelope) {raw : Bytes}
    (hframed : Framed library raw) : answerOf library id request raw ≠ some .upgraded := by
  rw [answerOf]
  cases (parseHttpRequest library.toHttpLibrary request.raw).toOption with
  | none => simp
  | some requestMsg =>
      cases hparsed : parseHttpResponse library.toHttpLibrary raw with
      | error e => simp [Except.toOption]
      | ok responseMsg =>
          have hplain := hframed.plain responseMsg hparsed
          simp only [Except.toOption, Option.bind_eq_bind, Option.bind_some, hplain, decide_false,
            Bool.false_and, Bool.false_eq_true, if_false]
          split
          · simp
          · cases exchangeOf library id request.raw raw requestMsg responseMsg
              request.observedAtMs <;> simp

/-- What is whole in the buffer, and the rest, in which nothing is. -/
theorem wholes_spec {frames : List Bytes} {l : Bytes} (h : l <+: frames.flatten) :
    ∃ left, frames = (wholes frames l).1 ++ left ∧
      l = (wholes frames l).1.flatten ++ (wholes frames l).2 ∧
      (wholes left (wholes frames l).2).1 = [] := by
  induction frames generalizing l with
  | nil => exact ⟨[], rfl, rfl, rfl⟩
  | cons frame frames ih =>
      rcases prefix_cases h with ⟨m, rfl, hm⟩ | ⟨-, -, hlt⟩
      · rw [wholes_of_append rfl]
        rcases ih hm with ⟨left, hframes, hsplit, hleft⟩
        refine ⟨left, ?_, ?_, hleft⟩
        · rw [List.cons_append, ← hframes]
        · rw [List.flatten_cons, List.append_assoc, ← hsplit]
      · refine ⟨frame :: frames, ?_⟩
        rw [wholes_of_lt hlt]
        exact ⟨rfl, rfl, by rw [wholes_of_lt hlt]⟩

/-! ## What is still to come -/

/-- The requests are what the buffer has of the client's stream and what the pieces bring. -/
structure Asking (library : ApplicationLibrary η) (state : FlowProtocol η) (pieces : List Piece)
    (requests : List Bytes) : Prop where
  recognized : ∀ raw ∈ requests, Recognizes (tryTakeHttp1Message library.toHttpLibrary true) raw
  client : state.clientBuffer ++ bytesOf .clientToServer pieces = requests.flatten

/-- The responses are what the buffer has of the server's stream and what the pieces bring. What
is there of a response that is not whole is not taken for one. -/
structure Answering (library : ApplicationLibrary η) (state : FlowProtocol η) (pieces : List Piece)
    (responses : List Bytes) : Prop where
  framed : ∀ raw ∈ responses, Framed library raw
  server : state.serverBuffer ++ bytesOf .serverToClient pieces = responses.flatten
  parts : ∀ done, done <+: pieces → tryTakeHttp1ResponseOrTerminal library
    (wholes responses (state.serverBuffer ++ bytesOf .serverToClient done)).2 = .ok none

section Coming
variable {requests responses : List Bytes} {state : FlowProtocol η} {piece : Piece}
  {pieces : List Piece} {raw m : Bytes} {request : RequestEnvelope} {queue : List RequestEnvelope}
  {t : Tick} {index : ℕ}

/-- What is buffered of a piece is what was received before what comes after it. -/
theorem buffered_bytesOf (state : FlowProtocol η) (piece : Piece) (d : Direction)
    (done : List Piece) :
    bufferOf (state.buffered piece.direction piece.bytes) d ++ bytesOf d done =
      bufferOf state d ++ bytesOf d (piece :: done) := by
  rw [bufferOf_buffered, bytesOf_cons, List.append_assoc]

theorem Asking.buffered (h : Asking library state (piece :: pieces) requests) :
    Asking library (state.buffered piece.direction piece.bytes) pieces requests where
  recognized := h.recognized
  client := (buffered_bytesOf state piece .clientToServer pieces).trans h.client

theorem Answering.buffered (h : Answering library state (piece :: pieces) responses) :
    Answering library (state.buffered piece.direction piece.bytes) pieces responses where
  framed := h.framed
  server := (buffered_bytesOf state piece .serverToClient pieces).trans h.server
  parts done hdone := by
    have hbuffer : (state.buffered piece.direction piece.bytes).serverBuffer ++
        bytesOf .serverToClient done =
          state.serverBuffer ++ bytesOf .serverToClient (piece :: done) :=
      buffered_bytesOf state piece .serverToClient done
    rw [hbuffer]
    exact h.parts (piece :: done) ((List.prefix_cons_inj piece).mpr hdone)

/-- The requests that are whole, and those that are still to come. -/
theorem Asking.drain (h : Asking library state pieces requests) :
    Framing.drain (tryTakeHttp1Message library.toHttpLibrary true) (state.clientBuffer.length + 1)
        state.clientBuffer = .ok (wholes requests state.clientBuffer) ∧
      ∃ left, requests = (wholes requests state.clientBuffer).1 ++ left ∧
        Asking library { state with clientBuffer := (wholes requests state.clientBuffer).2 } pieces
          left ∧
        (pieces = [] → left = []) := by
  have hbegin : state.clientBuffer <+: requests.flatten := ⟨_, h.client⟩
  refine ⟨drain_eq_wholes h.recognized rfl (Nat.lt_succ_self _) hbegin, ?_⟩
  rcases wholes_spec hbegin with ⟨left, hsplit, hbuffer, hnone⟩
  have hclient : (wholes requests state.clientBuffer).2 ++ bytesOf .clientToServer pieces =
      left.flatten := by
    have hboth : (wholes requests state.clientBuffer).1.flatten ++
        ((wholes requests state.clientBuffer).2 ++ bytesOf .clientToServer pieces) =
          (wholes requests state.clientBuffer).1.flatten ++ left.flatten := by
      rw [← List.append_assoc, ← hbuffer, h.client, ← List.flatten_append, ← hsplit]
    exact List.append_cancel_left hboth
  refine ⟨left, hsplit, ⟨fun raw hraw => ?_, hclient⟩, fun hnil => ?_⟩
  · refine h.recognized raw ?_
    rw [hsplit]
    exact List.mem_append_right _ hraw
  · subst hnil
    rw [bytesOf_nil, List.append_nil] at hclient
    rwa [hclient, wholes_flatten] at hnone

theorem Answering.tail (h : Answering library state pieces (raw :: responses))
    (hsplit : state.serverBuffer = raw ++ m) :
    Answering library { state with serverBuffer := m } pieces responses where
  framed other hmem := h.framed other (List.mem_cons_of_mem raw hmem)
  server := by
    have hserver := h.server
    rw [hsplit, List.append_assoc, List.flatten_cons] at hserver
    exact List.append_cancel_left hserver
  parts done hdone := by
    have hpart := h.parts done hdone
    rwa [hsplit, List.append_assoc, wholes_of_append rfl] at hpart

/-- The next response is taken where it is whole; a part of it stays. -/
theorem Answering.take_cases (h : Answering library state pieces (raw :: responses)) :
    (∃ m, state.serverBuffer = raw ++ m ∧
      tryTakeHttp1ResponseOrTerminal library (alignHttp1Response state.serverBuffer) =
        .ok (some (raw, m))) ∨
    pieces ≠ [] ∧ alignHttp1Response state.serverBuffer = state.serverBuffer ∧
      tryTakeHttp1ResponseOrTerminal library state.serverBuffer = .ok none := by
  have hraw := h.framed raw List.mem_cons_self
  rcases prefix_cases ⟨_, h.server⟩ with ⟨m, hsplit, -⟩ | ⟨hproper, -, hlt⟩
  · refine .inl ⟨m, hsplit, ?_⟩
    have hstart := hraw.start.trans (List.prefix_append raw m)
    have haligned : alignHttp1Response (raw ++ m) = raw ++ m := by
      rw [alignHttp1Response, if_pos]
      simp [List.isPrefixOf_iff_prefix, hstart]
    rw [hsplit, haligned, tryTakeHttp1ResponseOrTerminal, hraw.whole m]
  · refine .inr ⟨?_, alignHttp1Response_of_prefix hproper hraw.start, ?_⟩
    · rintro rfl
      have hlength := congrArg List.length h.server
      rw [bytesOf_nil, List.append_nil, List.flatten_cons, List.length_append] at hlength
      omega
    · have hpart := h.parts [] List.nil_prefix
      rwa [bytesOf_nil, List.append_nil, wholes_of_lt hlt] at hpart

/-! ## The loop over the queue -/

/-- Without a whole response the loop stops, and keeps the buffer. -/
theorem answerRequests_stop (haligned : alignHttp1Response state.serverBuffer = state.serverBuffer)
    (htake : tryTakeHttp1ResponseOrTerminal library state.serverBuffer = .ok none) :
    pairRequests library (request :: queue) state.serverBuffer = [] ∧
      (answerRequests library t index (request :: queue) state).2 =
        some { state with requestQueue := request :: queue } := by
  rw [pairRequests, answerRequests]
  simp only [haligned, htake]
  exact ⟨trivial, trivial⟩

/-- A whole response is of the first request, and the loop goes on if the two decode. -/
theorem answerRequests_take (hframed : Framed library raw)
    (htake : tryTakeHttp1ResponseOrTerminal library (alignHttp1Response state.serverBuffer) =
      .ok (some (raw, m))) :
    ∃ index', (answerRequests library t index (request :: queue) state).2 =
      if decodesPair library (request.raw, raw) = true then
        (answerRequests library t index' queue { state with serverBuffer := m }).2
      else none := by
  have hsome := isSome_answerOf library (t.ids (.attempt index)) request raw
  have hupgraded := ne_upgraded (t.ids (.attempt index)) request hframed
  rw [answerRequests]
  simp only [htake]
  cases hof : answerOf library (t.ids (.attempt index)) request raw with
  | none =>
      rw [hof] at hsome
      exact ⟨index, by simp [← hsome]⟩
  | some answer =>
      rw [hof] at hsome
      cases answer with
      | upgraded => exact absurd hof hupgraded
      | skipped => exact ⟨index, by simp [← hsome]⟩
      | exchange decoded => exact ⟨index + 1, by simp [← hsome]⟩

variable (t index queue) in
/-- Every request takes the next response, while there are both. -/
theorem answerRequests_of_answering (h : Answering library state pieces responses) :
    ∃ pairs next left, Answering library next pieces left ∧
      next.protocol = state.protocol ∧ next.clientBuffer = state.clientBuffer ∧
      (pieces = [] → next.requestQueue = [] ∨ left = []) ∧
      (∀ requests, (queue.map RequestEnvelope.raw ++ requests).zip responses =
        pairs ++ (next.requestQueue.map RequestEnvelope.raw ++ requests).zip left) ∧
      pairRequests library queue state.serverBuffer = through (decodesPair library) pairs ∧
      (answerRequests library t index queue state).2 =
        if ∀ pair ∈ pairs, decodesPair library pair = true then some next else none := by
  induction queue generalizing index state responses with
  | nil =>
      exact ⟨[], { state with requestQueue := [] }, responses, ⟨h.framed, h.server, h.parts⟩, rfl,
        rfl, fun _ => .inl rfl, fun _ => rfl, rfl, by simp [answerRequests]⟩
  | cons request queue ih =>
      cases responses with
      | nil =>
          have hnil : state.serverBuffer = [] := (List.append_eq_nil_iff.mp h.server).1
          have haligned : alignHttp1Response state.serverBuffer = state.serverBuffer := by
            rw [hnil]
            rfl
          rcases @answerRequests_stop _ library state request queue t index haligned
            (by rw [hnil]; rfl) with ⟨hpairs, hstate⟩
          refine ⟨[], { state with requestQueue := request :: queue }, [],
            ⟨h.framed, h.server, h.parts⟩, rfl, rfl, fun _ => .inr rfl, fun _ => rfl, hpairs, ?_⟩
          rw [hstate, if_pos (List.forall_mem_nil _)]
      | cons raw responses =>
          rcases h.take_cases with ⟨m, hsplit, htake⟩ | ⟨hne, haligned, htake⟩
          · have hraw := h.framed raw List.mem_cons_self
            rcases @answerRequests_take _ library state raw m request queue t index hraw htake with
              ⟨index', hstate⟩
            rcases ih index' (h.tail hsplit) with
              ⟨pairs, next, left, hleft, hprotocol, hclient, hend, hzip, hpairs, hnext⟩
            refine ⟨(request.raw, raw) :: pairs, next, left, hleft, hprotocol, hclient, hend, ?_,
              ?_, ?_⟩
            · intro requests
              rw [List.map_cons, List.cons_append, List.zip_cons_cons, hzip, List.cons_append]
            · rw [pairRequests]
              simp only [htake]
              rw [hpairs, through]
            · rw [hstate, hnext]
              simp only [List.forall_mem_cons]
              by_cases hdecodes : decodesPair library (request.raw, raw) = true
              · simp only [hdecodes, true_and, if_true]
              · rw [if_neg hdecodes, if_neg fun hall => hdecodes hall.1]
          · rcases @answerRequests_stop _ library state request queue t index haligned htake with
              ⟨hpairs, hstate⟩
            refine ⟨[], { state with requestQueue := request :: queue }, raw :: responses,
              ⟨h.framed, h.server, h.parts⟩, rfl, rfl, fun hnil => absurd hnil hne, fun _ => rfl,
              hpairs, ?_⟩
            rw [hstate, if_pos (List.forall_mem_nil _)]

variable (t) in
/-- What `consume_http1` does with what is whole. -/
theorem consumeHttp1_of_answering (hasking : Asking library state pieces requests)
    (hanswering : Answering library state pieces responses) :
    ∃ pairs next requests' responses', Asking library next pieces requests' ∧
      Answering library next pieces responses' ∧ next.protocol = state.protocol ∧
      (pieces = [] → requests' = [] ∧ (next.requestQueue = [] ∨ responses' = [])) ∧
      (state.requestQueue.map RequestEnvelope.raw ++ requests).zip responses =
        pairs ++ (next.requestQueue.map RequestEnvelope.raw ++ requests').zip responses' ∧
      bufferPairs library t state = through (decodesPair library) pairs ∧
      ((∀ pair ∈ pairs, decodesPair library pair = true) →
        (consumeHttp1 library t state).1.map DecodedExchange.content =
          pairs.filterMap (exchangeOfPair library) ∧
        (consumeHttp1 library t state).2 = some next) := by
  rcases hasking.drain with ⟨hdrain, requests', hsplit, hleft, hempty⟩
  have hqueue : (state.requestQueue ++ (wholes requests state.clientBuffer).1.map fun raw =>
      (⟨raw, t.nowMs⟩ : RequestEnvelope)).map RequestEnvelope.raw =
        state.requestQueue.map RequestEnvelope.raw ++ (wholes requests state.clientBuffer).1 := by
    rw [List.map_append, List.map_map]
    exact congrArg _ (List.map_id _)
  rcases @answerRequests_of_answering _ library responses
    { state with clientBuffer := (wholes requests state.clientBuffer).2 } pieces _ t 0
    ⟨hanswering.framed, hanswering.server, hanswering.parts⟩ with
    ⟨pairs, next, responses', hnext, hprotocol, hclient, hend, hzip, hpairs, hstate⟩
  have hasks : Asking library next pieces requests' := by
    refine ⟨hleft.recognized, ?_⟩
    rw [hclient]
    exact hleft.client
  refine ⟨pairs, next, requests', responses', hasks, hnext, hprotocol,
    fun hnil => ⟨hempty hnil, hend hnil⟩, ?_, ?_, ?_⟩
  · rw [← hzip, hqueue, List.append_assoc, ← hsplit]
  · rw [bufferPairs, hdrain]
    exact hpairs
  · intro hdecode
    rw [consumeHttp1, hdrain]
    dsimp only
    refine ⟨?_, by rw [hstate, if_pos hdecode]⟩
    rw [answerRequests_eq, hpairs, through_of_all hdecode]

end Coming

/-! ## The pairs of a run -/

section Pieces
variable {requests responses : List Bytes} {state : FlowProtocol η} {piece : Piece}
  {pieces : List Piece}

theorem protocolFor_http1 (h : state.protocol = .http1) :
    protocolFor library state piece = .http1 := by
  have hfound : (state.buffered piece.direction piece.bytes).protocol = .http1 := by
    rw [protocol_buffered, h]
  rw [protocolFor, detect, hfound]

theorem content_anonymous (exchange : DecodedExchange) :
    exchange.anonymous.content = exchange.content := by
  have hevents (event : DecodedEvent) :
      (event.identified (.v7 0)).identified (.v7 0) = event.identified (.v7 0) := by
    cases event with
    | httpError id error => cases id <;> rfl
    | _ => rfl
  simp only [DecodedExchange.content, DecodedExchange.anonymous, DecodedExchange.identified,
    DecodedAttempt.identified, List.map_map, Function.comp_def, hevents]

/-- The pairs of a run in which HTTP/1 is known. -/
theorem pairs_of_http1 (hprotocol : state.protocol = .http1)
    (hasking : Asking library state pieces requests)
    (hanswering : Answering library state pieces responses)
    (hsettled : pieces = [] → requests = [] ∧ (state.requestQueue = [] ∨ responses = [])) :
    ∃ later, http1Pairs library state pieces = through (decodesPair library)
        ((state.requestQueue.map RequestEnvelope.raw ++ requests).zip responses) ++ later ∧
      ((∀ pair ∈ (state.requestQueue.map RequestEnvelope.raw ++ requests).zip responses,
          decodesPair library pair = true) →
        later = [] ∧ (outputs library state pieces).flatten.map DecodedExchange.content =
          ((state.requestQueue.map RequestEnvelope.raw ++ requests).zip responses).filterMap
            (exchangeOfPair library)) := by
  induction pieces generalizing state requests responses with
  | nil =>
      have hnil : (state.requestQueue.map RequestEnvelope.raw ++ requests).zip responses = [] := by
        rcases hsettled rfl with ⟨rfl, hqueue | rfl⟩
        · rw [hqueue]
          rfl
        · exact List.zip_nil_right
      rw [hnil]
      exact ⟨[], rfl, fun _ => ⟨rfl, rfl⟩⟩
  | cons piece pieces ih =>
      have hprocess := @processBytes_http1 _ library state piece.direction piece.tick piece.bytes
        hprotocol
      have hpiece : piecePairs library state piece =
          bufferPairs library piece.tick (state.buffered piece.direction piece.bytes) := by
        rw [piecePairs, protocolFor_http1 hprotocol]
      rcases consumeHttp1_of_answering piece.tick hasking.buffered hanswering.buffered with
        ⟨pairs, next, requests', responses', hasks, hanswers, hsame, hend, hzip, hpairs, hafter⟩
      rw [requestQueue_buffered] at hzip
      rw [hzip, http1Pairs, hpiece, hpairs]
      by_cases hdecode : ∀ pair ∈ pairs, decodesPair library pair = true
      · rcases hafter hdecode with ⟨hcontent, hstate⟩
        have hreceive : receivePiece library state piece = next := by
          rw [receivePiece, hprocess, hstate]
          rfl
        have hdelivered : (delivered library state piece).map DecodedExchange.content =
            pairs.filterMap (exchangeOfPair library) := by
          rw [← hcontent, delivered, hprocess]
          rcases hconsumed : consumeHttp1 library piece.tick
            (state.buffered piece.direction piece.bytes) with ⟨exchanges, after⟩
          rw [hconsumed] at hstate
          obtain rfl : after = some next := hstate
          rfl
        rw [protocol_buffered, hprotocol] at hsame
        rcases ih hsame hasks hanswers hend with ⟨later, hlater, hall⟩
        refine ⟨later, ?_, fun hdecodes => ?_⟩
        · rw [hreceive, hlater, through_of_all hdecode, through_append_of_all hdecode,
            List.append_assoc]
        · rw [List.forall_mem_append] at hdecodes
          rcases hall hdecodes.2 with ⟨hnil, houtputs⟩
          refine ⟨hnil, ?_⟩
          rw [outputs, List.flatten_cons, List.map_append, List.map_map, hreceive, houtputs,
            List.filterMap_append, ← hdelivered]
          simp only [Function.comp_def, content_anonymous]
      · refine ⟨http1Pairs library (receivePiece library state piece) pieces, ?_, ?_⟩
        · rw [through_append_of_not hdecode]
        · intro hall
          exact absurd (List.forall_mem_append.mp hall).1 hdecode

/-- HTTP/1 that a piece shows is as HTTP/1 that was known before it. -/
theorem processBytes_of_protocolFor (h : protocolFor library state piece = .http1) :
    processBytes library piece.tick state piece.direction piece.bytes =
      processBytes library piece.tick { state with protocol := .http1 } piece.direction
        piece.bytes := by
  rw [@processBytes_http1 _ library { state with protocol := .http1 } piece.direction piece.tick
    piece.bytes rfl]
  rw [protocolFor] at h
  simp only [processBytes, h]
  cases piece.direction <;> rfl

theorem run_of_protocolFor (h : protocolFor library state piece = .http1) :
    http1Pairs library state (piece :: pieces) =
        http1Pairs library { state with protocol := .http1 } (piece :: pieces) ∧
      outputs library state (piece :: pieces) =
        outputs library { state with protocol := .http1 } (piece :: pieces) := by
  have hprocess := processBytes_of_protocolFor h
  have hreceive : receivePiece library state piece =
      receivePiece library { state with protocol := .http1 } piece := by
    rw [receivePiece, receivePiece, hprocess]
  constructor
  · rw [http1Pairs, http1Pairs, hreceive, piecePairs, piecePairs, h, protocolFor_http1 rfl]
    cases piece.direction <;> rfl
  · rw [outputs, outputs, hreceive, delivered, delivered, hprocess]

/-- Without the preface of HTTP/2 a piece shows HTTP/1, or no protocol. -/
theorem protocolFor_cases (hprotocol : state.protocol = .unknown)
    (hpreface : startsWith (state.buffered piece.direction piece.bytes).clientBuffer
      "PRI * HTTP/2.0" = false) :
    protocolFor library state piece = .http1 ∨
      protocolFor library state piece = .unknown ∧
        startsWith (state.buffered piece.direction piece.bytes).serverBuffer "HTTP/1." = false := by
  rw [protocolFor, detect, protocol_buffered, hprotocol]
  simp only [hpreface, looksLikeWebsocketHandshake_eq, Bool.false_or, Bool.false_eq_true, if_false]
  split
  · exact .inl rfl
  · rename_i hlooks
    rw [Bool.or_eq_true, not_or] at hlooks
    exact .inr ⟨rfl, Bool.eq_false_iff.mpr hlooks.2⟩

/-- The pairs of a run in which no protocol is known. -/
theorem pairs_of_unknown (hprotocol : state.protocol = .unknown) (hqueue : state.requestQueue = [])
    (hresponse : startsWith state.serverBuffer "HTTP/1." = false)
    (hasking : Asking library state pieces requests)
    (hanswering : Answering library state pieces responses)
    (hpreface : startsWith requests.flatten "PRI * HTTP/2.0" = false) :
    ∃ later, http1Pairs library state pieces =
        through (decodesPair library) (requests.zip responses) ++ later ∧
      ((∀ pair ∈ requests.zip responses, decodesPair library pair = true) →
        later = [] ∧ (outputs library state pieces).flatten.map DecodedExchange.content =
          (requests.zip responses).filterMap (exchangeOfPair library)) := by
  induction pieces generalizing state with
  | nil =>
      have hnil : responses = [] := by
        have hserver := hanswering.server
        rw [bytesOf_nil, List.append_nil] at hserver
        cases responses with
        | nil => rfl
        | cons raw responses =>
            have hstart : RESPONSE_PREFIX <+: state.serverBuffer := by
              rw [hserver, List.flatten_cons]
              exact (hanswering.framed raw List.mem_cons_self).start.trans (List.prefix_append ..)
            exact absurd (List.isPrefixOf_iff_prefix.mpr hstart) (Bool.eq_false_iff.mp hresponse)
      rw [hnil, List.zip_nil_right]
      exact ⟨[], rfl, fun _ => ⟨rfl, rfl⟩⟩
  | cons piece pieces ih =>
      have hstart : startsWith (state.buffered piece.direction piece.bytes).clientBuffer
          "PRI * HTTP/2.0" = false := by
        rw [startsWith, Bool.eq_false_iff, ne_eq, List.isPrefixOf_iff_prefix] at hpreface ⊢
        exact fun hline => hpreface (hline.trans ⟨_, hasking.buffered.client⟩)
      rcases protocolFor_cases hprotocol hstart with hfound | ⟨hfound, hresponse'⟩
      · rcases @run_of_protocolFor _ library state piece pieces hfound with ⟨hpairs, houtputs⟩
        have hrun := @pairs_of_http1 _ library requests responses
          { state with protocol := .http1 } (piece :: pieces) rfl
          ⟨hasking.recognized, hasking.client⟩
          ⟨hanswering.framed, hanswering.server, hanswering.parts⟩ (fun hnil => by cases hnil)
        rw [hpairs, houtputs]
        simpa only [hqueue, List.map_nil, List.nil_append] using hrun
      · have hpiece : piecePairs library state piece = [] := by rw [piecePairs, hfound]
        rcases delivered_unknown hfound with ⟨hdelivered, -, -⟩
        have hasks := hasking.buffered
        have hanswers := hanswering.buffered
        rcases @ih { state.buffered piece.direction piece.bytes with protocol := .unknown } rfl
          (by simpa using hqueue) hresponse' ⟨hasks.recognized, hasks.client⟩
          ⟨hanswers.framed, hanswers.server, hanswers.parts⟩ with ⟨later, hpairs, hall⟩
        refine ⟨later, ?_, fun hdecode => ?_⟩
        · rw [http1Pairs, hpiece, List.nil_append, receive_unknown hfound, hpairs]
        · rw [outputs, receive_unknown hfound, hdelivered, List.map_nil, List.flatten_cons,
            List.nil_append]
          exact hall hdecode

end Pieces

end Pairs

end Codexwatch.Client
