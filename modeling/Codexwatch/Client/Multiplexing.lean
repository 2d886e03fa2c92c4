import Codexwatch.Client.Detection

/-!
# The streams of an HTTP/2 connection

`consume_h2` of `client/src/capture_lane.rs` keeps the streams of a connection in one
map. A stream is compared with itself on a connection of its own: the same pieces, with the
same header lists, without the frames of the other streams.

The loop over the complete streams leaves with the first error, and the flow is dropped with
all its streams. Where the exchanges of the others decode, a stream does
not notice them.

## Main definitions

* `Carries` — a connection with the frames of one stream only.
* `streamOutputs`, `outputs` — the exchanges of a stream, and of a connection.
* `OthersDecode` — no other stream ends the loop.

## Main results

* `streamOutputs_of_othersDecode`.
-/
namespace Codexwatch.Client

open Protocol Capture Relational

/-- The stream of a frame; a GOAWAY is about all of them. -/
def streamOf? : H2Event → Option ℕ
  | .headers block => some block.streamId
  | .data streamId _ _ => some streamId
  | .priority priority => some priority.streamId
  | .rstStream streamId _ => some streamId
  | .goAway _ _ _ => none

/-- The exchange with another identifier for its attempt. -/
def DecodedExchange.identified (attemptId : Uuid) (exchange : DecodedExchange) : DecodedExchange :=
  { exchange with attempt := exchange.attempt.identified attemptId }

/-- The exchange without the identifier that was drawn for its attempt. -/
def DecodedExchange.anonymous (exchange : DecodedExchange) : DecodedExchange :=
  exchange.identified (.v7 0)

section Streams
variable {η : Type} (library : ApplicationLibrary η)

/-- The loop over the complete streams, with the stream of each exchange. -/
def taggedStreams (t : Tick) : ℕ → List ℕ → Table ℕ H2StreamState → List (ℕ × DecodedExchange)
  | _, [], _ => []
  | index, streamId :: streamIds, streams =>
      match streams.get? streamId with
      | none => taggedStreams t index streamIds streams
      | some stream =>
          let streams := streams.deleteWhere fun k _ => k = streamId
          match streamExchangeOf library (t.ids (.attempt index)) stream with
          | none => []
          | some none => taggedStreams t index streamIds streams
          | some (some exchange) =>
              (streamId, exchange) :: taggedStreams t (index + 1) streamIds streams

/-- The exchanges of a piece that are projected; those before an error are lost with it. -/
def delivered (state : FlowProtocol η) (piece : Piece) : List DecodedExchange :=
  match processBytes library piece.tick state piece.direction piece.bytes with
  | (exchanges, some _) => exchanges
  | (_, none) => []

/-- Those of them that are of HTTP/2, with their streams. -/
def deliveredStreams (state : FlowProtocol η) (piece : Piece) : List (ℕ × DecodedExchange) :=
  match protocolFor library state piece with
  | .http2 decoder =>
      match pushH2 library decoder piece.direction piece.bytes with
      | .ok (events, _) =>
          let streams := events.foldl (absorb piece.tick piece.direction) state.h2Streams
          let ids := completeStreams library streams
          if (takeStreams library piece.tick 0 ids streams).2.isSome then
            taggedStreams library piece.tick 0 ids streams
          else []
      | .error _ => []
  | _ => []

/-- The exchanges of a connection, piece by piece. -/
def outputs : FlowProtocol η → List Piece → List (List DecodedExchange)
  | _, [] => []
  | state, piece :: pieces =>
      (delivered library state piece).map DecodedExchange.anonymous ::
        outputs (receivePiece library state piece) pieces

/-- The exchanges of one stream of a connection, piece by piece. -/
def streamOutputs (s : ℕ) : FlowProtocol η → List Piece → List (List DecodedExchange)
  | _, [] => []
  | state, piece :: pieces =>
      (((deliveredStreams library state piece).filter fun r => r.1 = s).map
          fun r => r.2.anonymous) ::
        streamOutputs s (receivePiece library state piece) pieces

/-- The other piece has the frames of the stream. Before HTTP/2 is detected, and where neither
decodes, there are none. -/
structure CarriesPiece (s : ℕ) (state state' : FlowProtocol η) (piece piece' : Piece) : Prop where
  tick : piece'.tick = piece.tick
  direction : piece'.direction = piece.direction
  frames : (protocolFor library state piece).isUnknown = true ∧
      (protocolFor library state' piece').isUnknown = true ∨
    ∃ decoder decoder', protocolFor library state piece = .http2 decoder ∧
      protocolFor library state' piece' = .http2 decoder' ∧
      ((∃ events next next',
          pushH2 library decoder piece.direction piece.bytes = .ok (events, next) ∧
          pushH2 library decoder' piece'.direction piece'.bytes =
            .ok (events.filter (fun event => streamOf? event = some s), next')) ∨
        ∃ e e', pushH2 library decoder piece.direction piece.bytes = .error e ∧
          pushH2 library decoder' piece'.direction piece'.bytes = .error e')

/-- The other connection has the frames of the stream, in the same pieces. -/
def Carries (s : ℕ) : FlowProtocol η → FlowProtocol η → List Piece → List Piece → Prop
  | _, _, [], [] => True
  | state, state', piece :: pieces, piece' :: pieces' =>
      CarriesPiece library s state state' piece piece' ∧
        Carries s (receivePiece library state piece) (receivePiece library state' piece') pieces
          pieces'
  | _, _, [], _ :: _ => False
  | _, _, _ :: _, [] => False

/-- The exchange that the stream is, if it is a Responses call, under no identifier. -/
def H2StreamState.answer (stream : H2StreamState) : Option (Option DecodedExchange) :=
  streamExchangeOf library (.v7 0) stream

/-- The two messages of the stream can be read, and decode where they are a Responses call. -/
def H2StreamState.decodes (stream : H2StreamState) : Bool := (stream.answer library).isSome

/-- Every other stream that the piece completes can be decoded. -/
def OthersDecode (s : ℕ) (state : FlowProtocol η) (piece : Piece) : Prop :=
  ∀ streamId ≠ s, ∀ stream,
    ((h2Events library state piece).foldl (absorb piece.tick piece.direction)
      state.h2Streams).get? streamId = some stream →
    stream.isComplete = true → stream.decodes library = true

/-- The stream is as on its own connection, which has no other. -/
structure Alone (s : ℕ) (streams streams' : Table ℕ H2StreamState) : Prop where
  own : streams'.get? s = streams.get? s
  others : ∀ k ≠ s, streams'.get? k = none

end Streams

/-! ## The loop over the complete streams -/

section Loop
variable {η : Type} {library : ApplicationLibrary η} {t : Tick} {streams : Table ℕ H2StreamState}

theorem exchangeOf_identified (id id' : Uuid) (requestRaw responseRaw : Bytes)
    (request response : HttpMessage) (requestAtMs : ℤ) :
    (exchangeOf library id requestRaw responseRaw request response requestAtMs).map
        (DecodedExchange.identified id') =
      exchangeOf library id' requestRaw responseRaw request response requestAtMs := by
  rw [exchangeOf, exchangeOf, ← identified_decodeExchange id id']
  cases decodeExchange library.toExchangeLibrary id requestRaw responseRaw requestAtMs with
  | error e => rfl
  | ok attempt => rfl

/-- The identifier is only passed on. -/
theorem streamExchangeOf_identified (id id' : Uuid) (stream : H2StreamState) :
    (streamExchangeOf library id stream).map (Option.map (DecodedExchange.identified id')) =
      streamExchangeOf library id' stream := by
  rw [streamExchangeOf, streamExchangeOf]
  simp only [Option.bind_eq_bind, Option.map_bind]
  congr 1
  funext request
  rw [Function.comp_apply, Option.map_bind]
  congr 1
  funext response
  simp only [Function.comp]
  split
  · rfl
  · rw [← exchangeOf_identified id id', Option.map_map, Option.map_map]
    rfl

variable (library) in
theorem map_anonymous_streamExchangeOf (id : Uuid) (stream : H2StreamState) :
    (streamExchangeOf library id stream).map (Option.map DecodedExchange.anonymous) =
      stream.answer library := streamExchangeOf_identified id (.v7 0) stream

theorem takeStreams_fst (index : ℕ) (ids : List ℕ) :
    (takeStreams library t index ids streams).1 =
      (taggedStreams library t index ids streams).map Prod.snd := by
  induction ids generalizing index streams with
  | nil => rfl
  | cons k ids ih =>
      rw [takeStreams, taggedStreams]
      cases hget : streams.get? k with
      | none => exact ih index
      | some stream =>
          cases hexchange : streamExchangeOf library (t.ids (.attempt index)) stream with
          | none => simp [hexchange]
          | some answer => cases answer <;> simp [hexchange, ih]

theorem mem_of_mem_taggedStreams {index : ℕ} {ids : List ℕ} {r : ℕ × DecodedExchange}
    (h : r ∈ taggedStreams library t index ids streams) : r.1 ∈ ids := by
  induction ids generalizing index streams with
  | nil => cases h
  | cons k ids ih =>
      rw [taggedStreams] at h
      cases hget : streams.get? k with
      | none =>
          rw [hget] at h
          exact List.mem_cons_of_mem k (ih h)
      | some stream =>
          cases hexchange : streamExchangeOf library (t.ids (.attempt index)) stream with
          | none => simp [hget, hexchange] at h
          | some answer =>
              cases answer with
              | none =>
                  simp only [hget, hexchange] at h
                  exact List.mem_cons_of_mem k (ih h)
              | some exchange =>
                  simp only [hget, hexchange, List.mem_cons] at h
                  rcases h with rfl | hrest
                  · exact List.mem_cons_self
                  · exact List.mem_cons_of_mem k (ih hrest)

/-- A stream that is taken is not asked again. -/
theorem decodes_delete_iff {k : ℕ} {stream : H2StreamState} (ids : List ℕ)
    (hget : streams.get? k = some stream) (hdecodes : stream.decodes library = true) :
    (∀ k' ∈ ids, ∀ other, (streams.deleteWhere fun key _ => key = k).get? k' = some other →
        other.decodes library = true) ↔
      ∀ k' ∈ ids, ∀ other, streams.get? k' = some other → other.decodes library = true := by
  constructor
  · intro h k' hk' other hother
    by_cases hk : k' = k
    · rw [hk, hget] at hother
      cases hother
      exact hdecodes
    · exact h k' hk' other (by rw [Table.get?_delete, if_neg hk, hother])
  · intro h k' hk' other hother
    rw [Table.get?_delete] at hother
    split at hother
    · cases hother
    · exact h k' hk' other hother

/-- The loop gets to its end where every stream of the list decodes. -/
theorem takeStreams_isSome (index : ℕ) (ids : List ℕ) :
    (takeStreams library t index ids streams).2.isSome = true ↔
      ∀ k ∈ ids, ∀ stream, streams.get? k = some stream → stream.decodes library = true := by
  induction ids generalizing index streams with
  | nil => simp [takeStreams]
  | cons k ids ih =>
      rw [List.forall_mem_cons]
      cases hget : streams.get? k with
      | none => simp [takeStreams, hget, ih]
      | some stream =>
          have hanswer := map_anonymous_streamExchangeOf library (t.ids (.attempt index)) stream
          cases hexchange : streamExchangeOf library (t.ids (.attempt index)) stream with
          | none =>
              have hfails : stream.decodes library = false := by
                rw [H2StreamState.decodes, ← hanswer, hexchange]
                rfl
              simp [takeStreams, hget, hexchange, hfails]
          | some answer =>
              have hdecodes : stream.decodes library = true := by
                rw [H2StreamState.decodes, ← hanswer, hexchange]
                rfl
              have hrest := decodes_delete_iff ids hget hdecodes
              cases answer <;> simp [takeStreams, hget, hexchange, hdecodes, ih, hrest]

/-- What is left at its end. -/
theorem get?_takeStreams {index : ℕ} {ids : List ℕ} {streams' : Table ℕ H2StreamState}
    (h : (takeStreams library t index ids streams).2 = some streams') (k : ℕ) :
    streams'.get? k = if k ∈ ids then none else streams.get? k := by
  induction ids generalizing index streams with
  | nil =>
      obtain rfl : streams = streams' := by simpa [takeStreams] using h
      simp
  | cons head ids ih =>
      cases hget : streams.get? head with
      | none =>
          rw [ih (by simpa [takeStreams, hget] using h)]
          by_cases hk : k = head
          · simp [hk, hget]
          · simp [hk]
      | some stream =>
          have hrest : ∃ index, (takeStreams library t index ids
              (streams.deleteWhere fun key _ => key = head)).2 = some streams' := by
            cases hexchange : streamExchangeOf library (t.ids (.attempt index)) stream with
            | none => simp [takeStreams, hget, hexchange] at h
            | some answer =>
                cases answer with
                | none => exact ⟨index, by simpa [takeStreams, hget, hexchange] using h⟩
                | some exchange =>
                    exact ⟨index + 1, by simpa [takeStreams, hget, hexchange] using h⟩
          rcases hrest with ⟨index, hrest⟩
          rw [ih hrest, Table.get?_delete]
          by_cases hk : k = head
          · simp [hk]
          · simp [hk]

/-- The exchange of one stream, at the end of the loop. -/
theorem exchanges_takeStreams {index : ℕ} {ids : List ℕ}
    (h : (takeStreams library t index ids streams).2.isSome = true) (s : ℕ) :
    ((taggedStreams library t index ids streams).filter fun r => r.1 = s).map
        (fun r => r.2.anonymous) =
      if s ∈ ids then ((streams.get? s).bind fun stream => (stream.answer library).join).toList
      else [] := by
  induction ids generalizing index streams with
  | nil => rfl
  | cons k ids ih =>
      cases hget : streams.get? k with
      | none =>
          have hrest : taggedStreams library t index (k :: ids) streams =
              taggedStreams library t index ids streams := by simp [taggedStreams, hget]
          rw [hrest, ih (by simpa [takeStreams, hget] using h)]
          by_cases hk : s = k
          · simp [hk, hget]
          · simp [hk]
      | some stream =>
          have hanswer := map_anonymous_streamExchangeOf library (t.ids (.attempt index)) stream
          cases hexchange : streamExchangeOf library (t.ids (.attempt index)) stream with
          | none => simp [takeStreams, hget, hexchange] at h
          | some answer =>
              rw [hexchange] at hanswer
              cases answer with
              | none =>
                  have htagged : taggedStreams library t index (k :: ids) streams =
                      taggedStreams library t index ids
                        (streams.deleteWhere fun key _ => key = k) := by
                    simp [taggedStreams, hget, hexchange]
                  rw [htagged, ih (by simpa [takeStreams, hget, hexchange] using h),
                    Table.get?_delete]
                  by_cases hk : s = k
                  · simp [hk, hget, ← hanswer]
                  · simp [hk]
              | some exchange =>
                  have htagged : taggedStreams library t index (k :: ids) streams =
                      (k, exchange) :: taggedStreams library t (index + 1) ids
                        (streams.deleteWhere fun key _ => key = k) := by
                    simp [taggedStreams, hget, hexchange]
                  have hrest := @ih (streams.deleteWhere fun key _ => key = k) (index + 1)
                    (by simpa [takeStreams, hget, hexchange] using h)
                  rw [Table.get?_delete] at hrest
                  rw [htagged, List.filter_cons]
                  by_cases hk : s = k
                  · simp [hk, hget, ← hanswer] at hrest ⊢
                    exact hrest
                  · have hne : ¬ k = s := fun heq => hk heq.symm
                    simp [hk, hne] at hrest ⊢
                    exact hrest

theorem mem_completeStreams {k : ℕ} :
    k ∈ completeStreams library streams ↔
      ∃ stream, streams.get? k = some stream ∧ stream.isComplete = true := by
  rw [completeStreams, (library.streamOrder_perm _).mem_iff, List.mem_map]
  constructor
  · intro h
    rcases h with ⟨r, hr, rfl⟩
    rw [List.mem_filter] at hr
    exact ⟨r.2, Table.mem_rows_iff.mp hr.1, hr.2⟩
  · intro h
    rcases h with ⟨stream, hget, hcomplete⟩
    exact ⟨(k, stream), List.mem_filter.mpr ⟨Table.get?_eq_some.mp hget, hcomplete⟩, rfl⟩

end Loop


/-! ## The frames of one stream -/

section Frames
variable {t : Tick} {direction : Direction} {streams streams' : Table ℕ H2StreamState}
  {event : H2Event} {s : ℕ}

theorem get?_absorb_of_ne {k : ℕ} (h : streamOf? event ≠ some k) :
    (absorb t direction streams event).get? k = streams.get? k := by
  cases event with
  | headers block => exact Table.get?_put_of_ne fun hk => h (congrArg some hk.symm)
  | data streamId payload endStream =>
      exact Table.get?_put_of_ne fun hk => h (congrArg some hk.symm)
  | priority priority => rfl
  | rstStream streamId error => rfl
  | goAway lastStreamId error debug => rfl

/-- What a frame writes depends on its stream alone. -/
theorem get?_absorb_congr (h : streams'.get? s = streams.get? s)
    (hevent : streamOf? event = some s) :
    (absorb t direction streams' event).get? s = (absorb t direction streams event).get? s := by
  cases event with
  | headers block =>
      obtain rfl : block.streamId = s := Option.some.inj hevent
      simp only [absorb, Table.get?_put_self, h]
  | data streamId payload endStream =>
      obtain rfl : streamId = s := Option.some.inj hevent
      simp only [absorb, Table.get?_put_self, h]
  | priority priority => exact h
  | rstStream streamId error => exact h
  | goAway lastStreamId error debug => exact h

/-- The frames of the others leave the stream, which alone sees none of them. -/
theorem Alone.absorb_filter (t : Tick) (direction : Direction) (halone : Alone s streams streams')
    (events : List H2Event) :
    Alone s (events.foldl (absorb t direction) streams)
      ((events.filter fun event => streamOf? event = some s).foldl (absorb t direction)
        streams') := by
  induction events generalizing streams streams' with
  | nil => exact halone
  | cons event events ih =>
      rw [List.foldl_cons, List.filter_cons]
      by_cases hevent : streamOf? event = some s
      · rw [if_pos (by simpa using hevent), List.foldl_cons]
        refine ih ⟨get?_absorb_congr halone.own hevent, fun k hk => ?_⟩
        rw [get?_absorb_of_ne (by rw [hevent]; exact fun heq => hk (Option.some.inj heq).symm)]
        exact halone.others k hk
      · rw [if_neg (by simpa using hevent)]
        exact ih ⟨by rw [get?_absorb_of_ne hevent, halone.own], halone.others⟩

theorem alone_empty : Alone s .empty .empty := ⟨rfl, fun _ _ => rfl⟩

end Frames

/-! ## The pieces of a connection -/

section Pieces
variable {η : Type} {library : ApplicationLibrary η} {state state' : FlowProtocol η}
  {piece piece' : Piece} {decoder next : H2Decoder η} {events : List H2Event} {s : ℕ}
  {streams streams' : Table ℕ H2StreamState}

/-- The loop over the streams that the frames of a piece leave. -/
abbrev loopOf (library : ApplicationLibrary η) (piece : Piece) (streams : Table ℕ H2StreamState) :
    Progress (Table ℕ H2StreamState) :=
  takeStreams library piece.tick 0 (completeStreams library streams) streams

theorem loopOf_isSome :
    (loopOf library piece streams).2.isSome = true ↔
      ∀ k stream, streams.get? k = some stream → stream.isComplete = true →
        stream.decodes library = true := by
  rw [takeStreams_isSome]
  constructor
  · intro h k stream hget hcomplete
    exact h k (mem_completeStreams.mpr ⟨stream, hget, hcomplete⟩) stream hget
  · intro h k hk stream hget
    rcases mem_completeStreams.mp hk with ⟨complete, hcomplete, his⟩
    cases hget.symm.trans hcomplete
    exact h k stream hget his

variable (library piece) in
/-- Where the others decode, the stream decides on the end of the loop. -/
theorem Alone.loopOf_isSome_iff (halone : Alone s streams streams')
    (hothers : ∀ k ≠ s, ∀ stream, streams.get? k = some stream → stream.isComplete = true →
      stream.decodes library = true) :
    (loopOf library piece streams).2.isSome = true ↔
      (loopOf library piece streams').2.isSome = true := by
  rw [loopOf_isSome, loopOf_isSome]
  constructor
  · intro h k stream hget hcomplete
    by_cases hk : k = s
    · subst hk
      exact h k stream (by rw [← halone.own, hget]) hcomplete
    · cases (halone.others k hk).symm.trans hget
  · intro h k stream hget hcomplete
    by_cases hk : k = s
    · subst hk
      exact h k stream (by rw [halone.own, hget]) hcomplete
    · exact hothers k hk stream hget hcomplete

theorem Alone.mem_completeStreams_iff (halone : Alone s streams streams') :
    s ∈ completeStreams library streams ↔ s ∈ completeStreams library streams' := by
  rw [mem_completeStreams, mem_completeStreams, halone.own]

/-- All exchanges of the connection that has no other stream are of the stream. -/
theorem Alone.exchanges_loopOf (halone : Alone s streams streams')
    (h : (loopOf library piece streams).2.isSome = true)
    (h' : (loopOf library piece streams').2.isSome = true) :
    (loopOf library piece streams').1.map DecodedExchange.anonymous =
      ((taggedStreams library piece.tick 0 (completeStreams library streams) streams).filter
        fun r => r.1 = s).map fun r => r.2.anonymous := by
  have hown : ∀ r ∈ taggedStreams library piece.tick 0 (completeStreams library streams') streams',
      r.1 = s := by
    intro r hr
    rcases mem_completeStreams.mp (mem_of_mem_taggedStreams hr) with ⟨stream, hget, -⟩
    by_contra hne
    cases (halone.others r.1 hne).symm.trans hget
  have hfilter : (taggedStreams library piece.tick 0 (completeStreams library streams')
        streams').filter (fun r => r.1 = s) =
      taggedStreams library piece.tick 0 (completeStreams library streams') streams' :=
    List.filter_eq_self.mpr fun r hr => by simpa using hown r hr
  have hall := exchanges_takeStreams h' s
  rw [hfilter, halone.own] at hall
  rw [exchanges_takeStreams h s, takeStreams_fst, List.map_map]
  simp only [halone.mem_completeStreams_iff]
  exact hall

/-- The streams that the loop leaves. -/
theorem Alone.after_loopOf (halone : Alone s streams streams') {left left' : Table ℕ H2StreamState}
    (h : (loopOf library piece streams).2 = some left)
    (h' : (loopOf library piece streams').2 = some left') : Alone s left left' := by
  constructor
  · rw [get?_takeStreams h, get?_takeStreams h', halone.own]
    simp only [halone.mem_completeStreams_iff]
  · intro k hk
    rw [get?_takeStreams h', halone.others k hk]
    split <;> rfl

theorem delivered_unknown (h : protocolFor library state piece = .unknown) :
    delivered library state piece = [] ∧ deliveredStreams library state piece = [] ∧
      (receivePiece library state piece).h2Streams = state.h2Streams := by
  refine ⟨?_, ?_, ?_⟩
  · rw [protocolFor] at h
    simp only [delivered, processBytes, h]
  · simp only [deliveredStreams, h]
  · rw [receive_unknown h]
    simp

theorem delivered_of_error {e : H2DecodeError}
    (h : protocolFor library state piece = .http2 decoder)
    (hpush : pushH2 library decoder piece.direction piece.bytes = .error e) :
    delivered library state piece = [] ∧ deliveredStreams library state piece = [] ∧
      receivePiece library state piece = .start := by
  refine ⟨?_, ?_, ?_⟩
  · rw [protocolFor] at h
    simp only [delivered, processBytes, h, consumeH2, hpush]
  · simp only [deliveredStreams, h, hpush]
  · rw [protocolFor] at h
    simp only [receivePiece, processBytes, h, consumeH2, hpush]
    rfl

/-- A piece that HTTP/2 decodes. -/
theorem delivered_of_ok (h : protocolFor library state piece = .http2 decoder)
    (hpush : pushH2 library decoder piece.direction piece.bytes = .ok (events, next))
    (hstreams : events.foldl (absorb piece.tick piece.direction) state.h2Streams = streams) :
    delivered library state piece =
        (if (loopOf library piece streams).2.isSome then (loopOf library piece streams).1 else []) ∧
      deliveredStreams library state piece =
        (if (loopOf library piece streams).2.isSome then
          taggedStreams library piece.tick 0 (completeStreams library streams) streams else []) ∧
      (receivePiece library state piece).h2Streams =
        (loopOf library piece streams).2.getD .empty := by
  subst hstreams
  refine ⟨?_, ?_, ?_⟩
  · rw [protocolFor] at h
    simp only [delivered, processBytes, h, consumeH2, hpush, h2Streams_buffered]
    cases (loopOf library piece
      (events.foldl (absorb piece.tick piece.direction) state.h2Streams)).2 <;> rfl
  · simp only [deliveredStreams, h, hpush]
  · rw [protocolFor] at h
    simp only [receivePiece, processBytes, h, consumeH2, hpush, h2Streams_buffered]
    cases (loopOf library piece
      (events.foldl (absorb piece.tick piece.direction) state.h2Streams)).2 <;> rfl

theorem eq_unknown_of_isUnknown {protocol : ProtocolState η} (h : protocol.isUnknown = true) :
    protocol = .unknown := by
  cases protocol with
  | unknown => rfl
  | http1 => cases h
  | http2 decoder => cases h
  | webSocket ws => cases h

/-- One piece of the two connections. -/
theorem Alone.receive (halone : Alone s state.h2Streams state'.h2Streams)
    (hcarries : CarriesPiece library s state state' piece piece')
    (hothers : OthersDecode library s state piece) :
    (delivered library state' piece').map DecodedExchange.anonymous =
        ((deliveredStreams library state piece).filter fun r => r.1 = s).map
          (fun r => r.2.anonymous) ∧
      Alone s (receivePiece library state piece).h2Streams
        (receivePiece library state' piece').h2Streams := by
  rcases hcarries.frames with ⟨h, h'⟩ | ⟨decoder, decoder', h, h', hpush⟩
  · rcases delivered_unknown (eq_unknown_of_isUnknown h) with ⟨-, hstreams, hleft⟩
    rcases delivered_unknown (eq_unknown_of_isUnknown h') with ⟨hdelivered, -, hleft'⟩
    rw [hstreams, hdelivered, hleft, hleft']
    exact ⟨rfl, halone⟩
  · rcases hpush with ⟨events, next, next', hpush, hpush'⟩ | ⟨e, e', hpush, hpush'⟩
    · have hafter := halone.absorb_filter piece.tick piece.direction events
      have hevents : h2Events library state piece = events := by simp only [h2Events, h, hpush]
      have hiff := hafter.loopOf_isSome_iff library piece
        (by rwa [OthersDecode, hevents] at hothers)
      rcases delivered_of_ok h hpush rfl with ⟨-, hstreams, hleft⟩
      rcases delivered_of_ok h' hpush' rfl with ⟨hdelivered, -, hleft'⟩
      have hsame : loopOf library piece' = loopOf library piece := by
        funext streams
        rw [loopOf, loopOf, hcarries.tick]
      rw [hsame, hcarries.tick, hcarries.direction] at hdelivered hleft'
      rw [hstreams, hdelivered, hleft, hleft']
      by_cases hend : (loopOf library piece
        (events.foldl (absorb piece.tick piece.direction) state.h2Streams)).2.isSome = true
      · rw [if_pos hend, if_pos (hiff.mp hend)]
        refine ⟨hafter.exchanges_loopOf hend (hiff.mp hend), ?_⟩
        rcases Option.isSome_iff_exists.mp hend with ⟨left, hleft⟩
        rcases Option.isSome_iff_exists.mp (hiff.mp hend) with ⟨left', hleft'⟩
        rw [hleft, hleft']
        exact hafter.after_loopOf hleft hleft'
      · have hend' := mt hiff.mpr hend
        rw [if_neg hend, if_neg hend', Option.not_isSome_iff_eq_none.mp hend,
          Option.not_isSome_iff_eq_none.mp hend']
        exact ⟨rfl, alone_empty⟩
    · rcases delivered_of_error h hpush with ⟨-, hstreams, hleft⟩
      rcases delivered_of_error h' hpush' with ⟨hdelivered, -, hleft'⟩
      rw [hstreams, hdelivered, hleft, hleft']
      exact ⟨rfl, alone_empty⟩

end Pieces

section Checks
variable {η : Type} {library : ApplicationLibrary η} {s : ℕ} {state state' : FlowProtocol η}
  {piece piece' : Piece}

instance decidableOthersDecode : Decidable (OthersDecode library s state piece) :=
  decidable_of_iff
    (∀ r ∈ ((h2Events library state piece).foldl (absorb piece.tick piece.direction)
        state.h2Streams).rows,
      r.1 ≠ s → r.2.isComplete = true → r.2.decodes library = true)
    ⟨fun h k hk stream hget => h (k, stream) (Table.get?_eq_some.mp hget) hk,
      fun h r hr hk => h r.1 hk r.2 (Table.mem_rows_iff.mp hr)⟩

/-- The events of a piece that HTTP/2 decodes. -/
def eventsOf? (library : ApplicationLibrary η) (state : FlowProtocol η) (piece : Piece) :
    Option (List H2Event) :=
  match protocolFor library state piece with
  | .http2 decoder =>
      (pushH2 library decoder piece.direction piece.bytes).toOption.map Prod.fst
  | _ => none

theorem exists_push_of_eventsOf? {events : List H2Event}
    (h : eventsOf? library state piece = some events) :
    ∃ decoder next, protocolFor library state piece = .http2 decoder ∧
      pushH2 library decoder piece.direction piece.bytes = .ok (events, next) := by
  rw [eventsOf?] at h
  cases hprotocol : protocolFor library state piece with
  | http2 decoder =>
      simp only [hprotocol] at h
      rcases Option.map_eq_some_iff.mp h with ⟨r, hr, rfl⟩
      cases hpush : pushH2 library decoder piece.direction piece.bytes with
      | error e => simp [hpush, Except.toOption] at hr
      | ok pushed =>
          rw [hpush] at hr
          cases hr
          exact ⟨decoder, r.2, rfl, hpush⟩
  | unknown => simp [hprotocol] at h
  | http1 => simp [hprotocol] at h
  | webSocket ws => simp [hprotocol] at h

/-- Both decode, and the other piece has the events of the stream. -/
theorem carriesPiece_of_events (htick : piece'.tick = piece.tick)
    (hdirection : piece'.direction = piece.direction)
    (hsome : (eventsOf? library state piece).isSome = true)
    (hevents : eventsOf? library state' piece' = (eventsOf? library state piece).map fun events =>
      events.filter fun event => streamOf? event = some s) :
    CarriesPiece library s state state' piece piece' := by
  rcases Option.isSome_iff_exists.mp hsome with ⟨events, h⟩
  rw [h, Option.map_some] at hevents
  rcases exists_push_of_eventsOf? h with ⟨decoder, next, hprotocol, hpush⟩
  rcases exists_push_of_eventsOf? hevents with ⟨decoder', next', hprotocol', hpush'⟩
  exact ⟨htick, hdirection,
    .inr ⟨decoder, decoder', hprotocol, hprotocol', .inl ⟨events, next, next', hpush, hpush'⟩⟩⟩

/-- The same for two pieces on each connection, which are checked at once. -/
theorem carries_of_events {next next' : Piece}
    (htick : piece'.tick = piece.tick ∧ next'.tick = next.tick)
    (hdirection : piece'.direction = piece.direction ∧ next'.direction = next.direction)
    (hevents : (eventsOf? library state piece).isSome = true ∧
      (eventsOf? library state' piece' = (eventsOf? library state piece).map fun events =>
        events.filter fun event => streamOf? event = some s) ∧
      (eventsOf? library (receivePiece library state piece) next).isSome = true ∧
      eventsOf? library (receivePiece library state' piece') next' =
        (eventsOf? library (receivePiece library state piece) next).map fun events =>
          events.filter fun event => streamOf? event = some s) :
    Carries library s state state' [piece, next] [piece', next'] :=
  ⟨carriesPiece_of_events htick.1 hdirection.1 hevents.1 hevents.2.1,
    carriesPiece_of_events htick.2 hdirection.2 hevents.2.2.1 hevents.2.2.2, trivial⟩

end Checks

/-! ## Small connections -/

def turnMetadata : String :=
  "\x7b\"session_id\":\"s\",\"thread_id\":\"t\",\"turn_id\":\"u\",\"request_kind\":\"turn\"\x7d"

def turnMembers : List (String × Json) :=
  [("session_id", .string "s"), ("thread_id", .string "t"), ("turn_id", .string "u"),
    ("request_kind", .string "turn")]

/-- The block of a Responses call: literal fields, none of which is indexed. -/
def callBlock : Bytes :=
  [0x83, 0x04, 13] ++ asciiBytes "/v1/responses" ++ [0x00, 21] ++
    asciiBytes "x-codex-turn-metadata" ++ [70] ++ asciiBytes turnMetadata

def callHeaders : List (Bytes × Bytes) :=
  [(asciiBytes ":method", asciiBytes "POST"), (asciiBytes ":path", asciiBytes "/v1/responses"),
    (asciiBytes "x-codex-turn-metadata", asciiBytes turnMetadata)]

def callHead (length : String) : Bytes × ParsedHead :=
  requestHead "POST" "/v1/responses"
    [("x-codex-turn-metadata", turnMetadata), ("Content-Length", length)]

def callLibrary : ApplicationLibrary Unit :=
  { knownLibrary [callHead "2", callHead "0"] [responseHead 200 "OK" [("Content-Length", "0")]]
      [(asciiBytes "\x7b\x7d", .object []), (asciiBytes turnMetadata, .object turnMembers)] with
    hpack := {
      new := ()
      decode := fun _ block =>
        if block = callBlock then .ok (callHeaders, ())
        else if block = [0x88] then .ok ([(asciiBytes ":status", asciiBytes "200")], ())
        else .error "InvalidHuffmanCode" } }

def frameOf (kind flags streamId : UInt8) (payload : Bytes) : Bytes :=
  [0, 0, payload.length.toUInt8, kind, flags, 0, 0, 0, streamId] ++ payload

/-- A call with an empty object. -/
def callFrames (streamId : UInt8) : Bytes :=
  frameOf 1 4 streamId callBlock ++ frameOf 0 1 streamId (asciiBytes "\x7b\x7d")

/-- A call without a body, which is no JSON. -/
def emptyCallFrames (streamId : UInt8) : Bytes := frameOf 1 5 streamId callBlock

def okFrame (streamId : UInt8) : Bytes := frameOf 1 5 streamId [0x88]

/-- A call alone on its connection. -/
def ownPieces : List Piece :=
  [clientPiece (CLIENT_PREFACE ++ callFrames 1), serverPiece (okFrame 1)]

/-- Beside another call. -/
def sharedPieces : List Piece :=
  [clientPiece (CLIENT_PREFACE ++ callFrames 1 ++ callFrames 3),
    serverPiece (okFrame 1 ++ okFrame 3)]

/-- Beside a malformed one. -/
def malformedPieces : List Piece :=
  [clientPiece (CLIENT_PREFACE ++ callFrames 1 ++ emptyCallFrames 3),
    serverPiece (okFrame 1 ++ okFrame 3)]

theorem carries_sharedPieces : Carries callLibrary 1 .start .start sharedPieces ownPieces :=
  carries_of_events ⟨rfl, rfl⟩ ⟨rfl, rfl⟩ (by decide +kernel)

theorem carries_malformedPieces : Carries callLibrary 1 .start .start malformedPieces ownPieces :=
  carries_of_events ⟨rfl, rfl⟩ ⟨rfl, rfl⟩ (by decide +kernel)

section Main
variable {η : Type} (library : ApplicationLibrary η)

theorem streamOutputs_of_alone {s : ℕ} {state state' : FlowProtocol η} {pieces pieces' : List Piece}
    (halone : Alone s state.h2Streams state'.h2Streams)
    (hcarries : Carries library s state state' pieces pieces')
    (hothers : Run.Each (receivePiece library) (OthersDecode library s) state pieces) :
    streamOutputs library s state pieces = outputs library state' pieces' := by
  induction pieces generalizing state state' pieces' with
  | nil =>
      cases pieces' with
      | nil => rfl
      | cons piece' pieces' => cases hcarries
  | cons piece pieces ih =>
      cases pieces' with
      | nil => cases hcarries
      | cons piece' pieces' =>
          rw [Run.each_cons] at hothers
          have hreceive := halone.receive hcarries.1 hothers.1
          rw [streamOutputs, outputs, hreceive.1, ih hreceive.2 hcarries.2 hothers.2]

/-- Where no other stream ends the loop, the exchanges of a stream are those of its own
connection. -/
theorem streamOutputs_of_othersDecode (s : ℕ) (pieces pieces' : List Piece)
    (hcarries : Carries library s .start .start pieces pieces')
    (hothers : Run.Each (receivePiece library) (OthersDecode library s) .start pieces) :
    streamOutputs library s .start pieces = outputs library .start pieces' :=
  streamOutputs_of_alone library alone_empty hcarries hothers


end Main

/-- Two calls that end in one segment. -/
theorem streamOutputs_sharedPieces :
    streamOutputs callLibrary 1 .start sharedPieces = outputs callLibrary .start ownPieces ∧
      (outputs callLibrary .start ownPieces).map List.length = [0, 1] := by
  have hrun : Run.Each (receivePiece callLibrary) (OthersDecode callLibrary 1) .start sharedPieces ∧
      (outputs callLibrary .start ownPieces).map List.length = [0, 1] := by decide +kernel
  exact ⟨streamOutputs_of_othersDecode callLibrary 1 sharedPieces ownPieces carries_sharedPieces
    hrun.1, hrun.2⟩

/-- The malformed body of another stream suppresses the exchange. -/
theorem not_streamOutputs_malformedPieces :
    ¬ ∀ s pieces pieces', Carries callLibrary s .start .start pieces pieces' →
      streamOutputs callLibrary s .start pieces = outputs callLibrary .start pieces' := by
  intro h
  have hlength := congrArg (List.map List.length)
    (h 1 malformedPieces ownPieces carries_malformedPieces)
  revert hlength
  decide +kernel

end Codexwatch.Client
