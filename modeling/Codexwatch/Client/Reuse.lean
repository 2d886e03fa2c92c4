import Codexwatch.Client.Stream

/-!
# Reused addresses

A flow is stored under the addresses of its ends and leaves the lane when both directions
are closed. What a second connection on the same addresses yields depends on the lane only
through the flow stored under them and the store. So it is as in a lane that never saw
the first connection if the last segment of the first one closed the flow. A later
segment, even one without payload, opens a new flow, which the second connection
inherits; and so does a flow that was reset from one side.

## Main definitions

* `Closes` — the segment closes the second direction of its flow.
* `SameOutcome` — what a segment yields in two lanes.
* `reused_of_closed` — a second connection after a closed one.
-/
namespace Codexwatch.Client

open Protocol Capture Relational TcpAssembler

/-- A segment as it is received. -/
structure Reception where
  moment : Moment
  attribution : Attribution
  segment : TcpSegment

section Lanes
variable {ι σ : Type} [LinearOrder ι] (parseIp : String → Option ι) (app : Application σ)
  (client : ClientInstance) (codec : Codec) (toVec : List Json → Bytes)

/-- The lane after the segment is ingested. -/
def ingested (lane : Lane (FlowKey ι) (FlowDecoders ι σ)) (event : Reception) :
    Lane (FlowKey ι) (FlowDecoders ι σ) :=
  (ingestInput (flowWire parseIp app) client codec toVec event.moment lane
    (inputOf event.attribution event.segment)).2

/-- The direction that the segment does not have is closed, and the segment closes its own. -/
def Closes (lane : Lane (FlowKey ι) (FlowDecoders ι σ)) (event : Reception) (key : FlowKey ι) :
    Prop :=
  let oriented := found parseIp app event.attribution lane (event.moment, event.segment) key
  (event.segment.fin || event.segment.rst) = true ∧
    (match oriented.1 with
      | .clientToServer => oriented.2.serverClosed
      | .serverToClient => oriented.2.clientClosed) = true

/-- The two lanes produce the same batch, and associate the same tasks with the same process. -/
structure SameOutcome (lane lane' : Lane (FlowKey ι) (FlowDecoders ι σ)) (event : Reception) :
    Prop where
  handled : (handleInput (flowWire parseIp app) client codec toVec event.moment lane
      (inputOf event.attribution event.segment)).1 =
    (handleInput (flowWire parseIp app) client codec toVec event.moment lane'
      (inputOf event.attribution event.segment)).1
  associated : ∃ (processInstanceId : Option Uuid) (tasks : List TaskKey),
    (ingested parseIp app client codec toVec lane event).processTasks =
        tasks.foldl (fun table task => associateTask table processInstanceId task)
          lane.processTasks ∧
      (ingested parseIp app client codec toVec lane' event).processTasks =
        tasks.foldl (fun table task => associateTask table processInstanceId task)
          lane'.processTasks

/-- So does every segment of a connection. -/
def SameOutcomes : Lane (FlowKey ι) (FlowDecoders ι σ) → Lane (FlowKey ι) (FlowDecoders ι σ) →
    List Reception → Prop
  | _, _, [] => True
  | lane, lane', event :: events =>
      SameOutcome parseIp app client codec toVec lane lane' event ∧
        SameOutcomes (ingested parseIp app client codec toVec lane event)
          (ingested parseIp app client codec toVec lane' event) events

end Lanes

/-! ## Two connections, one after the other -/

/-- A pure acknowledgement. -/
def TcpSegment.isAck (segment : TcpSegment) : Bool :=
  segment.payload.isEmpty && !segment.syn && !segment.fin && !segment.rst

/-- Both sides have closed, and then only acknowledge. -/
def EndsByFin {ι : Type} (parseIp : String → Option ι) (a b : Endpoint ι)
    (events : List Reception) : Prop :=
  ∃ before acks, events = before ++ acks ∧
    (∃ event ∈ before, event.segment.fin = true ∧ sourceOf parseIp event.segment = some a) ∧
    (∃ event ∈ before, event.segment.fin = true ∧ sourceOf parseIp event.segment = some b) ∧
    ∀ event ∈ acks, event.segment.isAck = true

/-- One side has reset the connection. -/
def EndsByReset (events : List Reception) : Prop :=
  ∃ event, events.getLast? = some event ∧ event.segment.rst = true

/-- Two connections between the same endpoints, of which the first one has ended. -/
structure Successive {ι : Type} [LinearOrder ι] (parseIp : String → Option ι) (a b : Endpoint ι)
    (first second : List Reception) : Prop where
  between : ∀ event ∈ first ++ second, flowKeyOf parseIp event.segment = some (.new a b)
  ends : EndsByFin parseIp a b first ∨ EndsByReset first
  opens : ∃ event, second.head? = some event ∧ event.segment.syn = true

section Reuse
variable {ι σ : Type} [LinearOrder ι] {parseIp : String → Option ι} {app : Application σ}
  {client : ClientInstance} {codec : Codec} {toVec : List Json → Bytes}
  {lane lane' : Lane (FlowKey ι) (FlowDecoders ι σ)} {event : Reception} {key : FlowKey ι}

theorem handleInput_inputOf (wire : Wire (FlowKey ι) (FlowDecoders ι σ)) (m : Moment)
    (attribution : Attribution) (segment : TcpSegment) :
    handleInput wire client codec toVec m lane (inputOf attribution segment) =
      handleSegment wire client codec toVec m lane segment (attribution.map Prod.fst)
        (attribution.map Prod.snd) := by
  obtain _ | ⟨_, _⟩ := attribution <;> rfl

/-- The lanes agree on the store and on the flow of the key. -/
structure Alike (key : FlowKey ι) (lane lane' : Lane (FlowKey ι) (FlowDecoders ι σ)) : Prop where
  store : lane.store = lane'.store
  flow : lane.flows.get? key = lane'.flows.get? key

/-- What a segment of the key does is the same in lanes that are alike. -/
theorem Alike.segmentOutcome_eq (h : Alike key lane lane') (m : Moment) (segment : TcpSegment)
    (processInstanceId : Option Uuid) (direction : Option ProcessFlowDirection) :
    segmentOutcome (flowWire parseIp app) client codec toVec m lane segment processInstanceId
        direction key =
      segmentOutcome (flowWire parseIp app) client codec toVec m lane' segment processInstanceId
        direction key := by
  have hflow : flowOf (flowWire parseIp app) m lane segment processInstanceId direction key =
      flowOf (flowWire parseIp app) m lane' segment processInstanceId direction key := by
    rw [flowOf, flowOf, h.flow]
  simp only [segmentOutcome, segmentConsumed, hflow, h.store]

/-- Persisting a batch changes the store, and depends on nothing else. -/
theorem ingestInput_store_congr (wire : Wire (FlowKey ι) (FlowDecoders ι σ)) {m : Moment}
    {input : CaptureInput}
    (hhandled : (handleInput wire client codec toVec m lane input).1 =
      (handleInput wire client codec toVec m lane' input).1)
    (hstore : (handleInput wire client codec toVec m lane input).2.store =
      (handleInput wire client codec toVec m lane' input).2.store) :
    (ingestInput wire client codec toVec m lane input).2.store =
      (ingestInput wire client codec toVec m lane' input).2.store := by
  simp only [ingestInput, hhandled, hstore]
  split
  · exact hstore
  · exact hstore
  · split
    · exact hstore
    · rfl

theorem ingestInput_rest (wire : Wire (FlowKey ι) (FlowDecoders ι σ)) (client : ClientInstance)
    (codec : Codec) (toVec : List Json → Bytes) (m : Moment)
    (lane : Lane (FlowKey ι) (FlowDecoders ι σ)) (input : CaptureInput) :
    (ingestInput wire client codec toVec m lane input).2.flows =
        (handleInput wire client codec toVec m lane input).2.flows ∧
      (ingestInput wire client codec toVec m lane input).2.processTasks =
        (handleInput wire client codec toVec m lane input).2.processTasks := by
  rw [ingestInput]
  split
  · exact ⟨rfl, rfl⟩
  · exact ⟨rfl, rfl⟩
  · split <;> exact ⟨rfl, rfl⟩

/-- A segment of the key does the same in lanes that are alike. -/
theorem Alike.handleInput_eq (h : Alike key lane lane')
    (hkey : flowKeyOf parseIp event.segment = some key) (app : Application σ)
    (client : ClientInstance) (codec : Codec) (toVec : List Json → Bytes) :
    ∃ outcome : SegmentOutcome (FlowDecoders ι σ),
      handleInput (flowWire parseIp app) client codec toVec event.moment lane
          (inputOf event.attribution event.segment) = (outcome.handled, lane.after key outcome) ∧
        handleInput (flowWire parseIp app) client codec toVec event.moment lane'
          (inputOf event.attribution event.segment) = (outcome.handled, lane'.after key outcome) := by
  have hwire : (flowWire parseIp app).flowKey event.segment = some key := hkey
  refine ⟨segmentOutcome (flowWire parseIp app) client codec toVec event.moment lane event.segment
    (event.attribution.map Prod.fst) (event.attribution.map Prod.snd) key, ?_, ?_⟩
  · rw [handleInput_inputOf, handleSegment_eq _ _ _ _ _ _ _ _ _ hwire]
  · rw [handleInput_inputOf, handleSegment_eq _ _ _ _ _ _ _ _ _ hwire, h.segmentOutcome_eq]

theorem Alike.step (h : Alike key lane lane') (hkey : flowKeyOf parseIp event.segment = some key)
    (app : Application σ) (client : ClientInstance) (codec : Codec) (toVec : List Json → Bytes) :
    SameOutcome parseIp app client codec toVec lane lane' event ∧
      Alike key (ingested parseIp app client codec toVec lane event)
        (ingested parseIp app client codec toVec lane' event) := by
  obtain ⟨outcome, hleft, hright⟩ := h.handleInput_eq hkey app client codec toVec
  obtain ⟨hflows, htasks⟩ := ingestInput_rest (flowWire parseIp app) client codec toVec
    event.moment lane (inputOf event.attribution event.segment)
  obtain ⟨hflows', htasks'⟩ := ingestInput_rest (flowWire parseIp app) client codec toVec
    event.moment lane' (inputOf event.attribution event.segment)
  constructor
  · refine ⟨by rw [hleft, hright], outcome.processInstanceId, outcome.tasks, ?_, ?_⟩
    · rw [ingested, htasks, hleft, Lane.after]
    · rw [ingested, htasks', hright, Lane.after]
  · constructor
    · refine ingestInput_store_congr _ (by rw [hleft, hright]) ?_
      rw [hleft, hright]
      exact h.store
    · rw [ingested, ingested, hflows, hflows', hleft, hright, Lane.get?_after, Lane.get?_after]
      simp

/-- A connection yields the same in lanes that are alike. -/
theorem Alike.run {events : List Reception} (h : Alike key lane lane')
    (hkey : ∀ event ∈ events, flowKeyOf parseIp event.segment = some key) :
    SameOutcomes parseIp app client codec toVec lane lane' events := by
  induction events generalizing lane lane' with
  | nil => trivial
  | cons event events ih =>
      obtain ⟨hsame, hnext⟩ := h.step (hkey event List.mem_cons_self) app client codec toVec
      exact ⟨hsame, ih hnext fun e he => hkey e (List.mem_cons_of_mem event he)⟩

/-! ## A connection that closed -/

omit [LinearOrder ι] in
theorem closed_accept {d d' : FlowDecoders ι σ} {segment : TcpSegment} {t : Tick}
    {direction : Direction} (h : (d.accept app segment t direction).2 = some d') :
    d'.clientClosed = d.clientClosed ∧ d'.serverClosed = d.serverClosed := by
  have hset : ∀ a, (d.setAssembler a direction).clientClosed = d.clientClosed ∧
      (d.setAssembler a direction).serverClosed = d.serverClosed := by
    intro a
    cases direction <;> exact ⟨rfl, rfl⟩
  rw [FlowDecoders.accept] at h
  split at h
  · obtain ⟨application, -, rfl⟩ := Option.map_eq_some_iff.mp h
    exact hset _
  · cases h
    exact hset _

/-- The flow does not go on after a segment that closes its second direction. -/
theorem push_of_closes {d : FlowDecoders ι σ} {segment : TcpSegment} {t : Tick}
    {attributed : Option ProcessFlowDirection}
    (hclosing : (segment.fin || segment.rst) = true)
    (hopposite : (match (d.orient parseIp segment attributed).1 with
      | .clientToServer => (d.orient parseIp segment attributed).2.serverClosed
      | .serverToClient => (d.orient parseIp segment attributed).2.clientClosed) = true)
    (d' : FlowDecoders ι σ) : (d.push parseIp app segment t attributed).2 ≠ .ready d' := by
  rw [FlowDecoders.push]
  generalize d.orient parseIp segment attributed = oriented at hopposite ⊢
  obtain ⟨direction, d₁⟩ := oriented
  cases haccept : (d₁.accept app segment t direction).2 with
  | none => simp
  | some d₂ =>
      obtain ⟨hclient, hserver⟩ := closed_accept haccept
      cases direction <;>
        simp_all [FlowDecoders.close, FlowDecoders.setClosed, FlowDecoders.setAssembler]

/-- The flow of the key is gone after a segment that closes it. -/
theorem Closes.removed (h : Closes parseIp app lane event key)
    (hkey : flowKeyOf parseIp event.segment = some key) (client : ClientInstance) (codec : Codec)
    (toVec : List Json → Bytes) :
    (ingested parseIp app client codec toVec lane event).flows.get? key = none := by
  have hwire : (flowWire parseIp app).flowKey event.segment = some key := hkey
  rw [ingested, (ingestInput_rest ..).1, handleInput_inputOf,
    handleSegment_eq _ _ _ _ _ _ _ _ _ hwire, Lane.get?_after, if_pos rfl, segmentOutcome]
  split
  · rfl
  · rfl
  · rename_i decoders hpush
    exact absurd hpush (push_of_closes h.1 h.2 decoders)

/-- A second connection yields what it does in the lane before the first one, over the store as
the first one leaves it, if the last segment of the first one closes the flow. -/
theorem reused_of_closed {first second : List Reception} {last : Reception}
    (hfresh : lane.flows.get? key = none)
    (hclosed : Closes parseIp app (Run.run (ingested parseIp app client codec toVec) lane first)
      last key)
    (hlast : flowKeyOf parseIp last.segment = some key)
    (hsecond : ∀ event ∈ second, flowKeyOf parseIp event.segment = some key) :
    SameOutcomes parseIp app client codec toVec
      (Run.run (ingested parseIp app client codec toVec) lane (first ++ [last]))
      { lane with
        store := (Run.run (ingested parseIp app client codec toVec) lane (first ++ [last])).store }
      second := by
  refine Alike.run ⟨rfl, ?_⟩ hsecond
  rw [Run.run_snoc, hclosed.removed hlast client codec toVec]
  exact hfresh.symm

/-- Persisting the batch of a segment does not touch the flow. -/
theorem Finds.ingested {attribution : Attribution} {source destination : Endpoint ι}
    {s : TcpAssembler} {m : Moment} {segment : TcpSegment}
    (h : Finds parseIp app attribution source destination lane s)
    (hbetween : Between parseIp source destination segment)
    (hdecodes : Decodes parseIp app attribution lane (m, segment)) (client : ClientInstance)
    (codec : Codec) (toVec : List Json → Bytes) :
    Finds parseIp app attribution source destination
      (ingested parseIp app client codec toVec lane ⟨m, attribution, segment⟩)
      (s.handle SEQUENCE_SPACE segment.toSegment) := by
  intro m' segment' hbetween'
  have hflows := (ingestInput_rest (flowWire parseIp app) client codec toVec m lane
    (inputOf attribution segment)).1
  have hfound := (h.step client codec toVec hbetween hdecodes).1 m' segment' hbetween'
  rw [flowOf, received, receive] at hfound
  rw [flowOf, Client.ingested, hflows]
  exact hfound

end Reuse

/-! ## A small connection -/

/-- A segment of the client, or of the server. -/
def reception (input sequence : ℕ) (fromClient syn fin : Bool) (payload : Bytes) : Reception where
  moment := momentAt input
  attribution := none
  segment :=
    if fromClient then
      ⟨"192.0.2.1", 50000, "192.0.2.2", 443, sequence, syn, fin, false, payload⟩
    else ⟨"192.0.2.2", 443, "192.0.2.1", 50000, sequence, syn, fin, false, payload⟩

/-- Both sides send one byte and close. -/
def firstConnection : List Reception :=
  [reception 0 999 true true false [], reception 1 4999 false true false [],
    reception 2 1000 true false true [1]]

def lastReception : Reception := reception 3 5000 false false true [2]

/-- The last segment of a connection that closes. -/
def lastAck : Reception := reception 4 1002 true false false []

def opening : Reception := reception 5 50000000 true true false []

def data : Reception := reception 6 50000001 true false false [3]

def secondConnection : List Reception := [opening, data]

theorem flowKeyOf_reception (input sequence : ℕ) (fromClient syn fin : Bool) (payload : Bytes) :
    flowKeyOf sampleIp (reception input sequence fromClient syn fin payload).segment =
      some ⟨⟨1, 50000⟩, ⟨2, 443⟩⟩ := by
  cases fromClient <;>
    simp [reception, flowKeyOf, sourceOf, destinationOf, sampleIp, FlowKey.new, Endpoint.le]

theorem between_reception (input sequence : ℕ) (syn fin : Bool) (payload : Bytes) :
    Between sampleIp ⟨1, 50000⟩ ⟨2, 443⟩
      (reception input sequence true syn fin payload).segment := by
  constructor <;> simp [sourceOf, destinationOf, sampleIp, reception]

theorem reused_of_closed_small :
    SameOutcomes sampleIp silent sampleClient (.numbered []) (fun _ => [])
      (Run.run (ingested sampleIp silent sampleClient (.numbered []) fun _ => []) emptyFlows
        (firstConnection ++ [lastReception]))
      { emptyFlows with
        store := (Run.run (ingested sampleIp silent sampleClient (.numbered []) fun _ => [])
          emptyFlows (firstConnection ++ [lastReception])).store }
      secondConnection := by
  have hclosed : Closes sampleIp silent
      (Run.run (ingested sampleIp silent sampleClient (.numbered []) fun _ => []) emptyFlows
        firstConnection) lastReception ⟨⟨1, 50000⟩, ⟨2, 443⟩⟩ := ⟨rfl, by decide⟩
  refine reused_of_closed rfl hclosed (flowKeyOf_reception ..) ?_
  simp [secondConnection, opening, data, flowKeyOf_reception]

/-- The last segment of a connection is an acknowledgement. -/
theorem successive_acknowledged :
    Successive sampleIp ⟨1, 50000⟩ ⟨2, 443⟩ (firstConnection ++ [lastReception, lastAck])
      secondConnection where
  between := by
    intro event hevent
    simp only [firstConnection, lastReception, lastAck, secondConnection, opening, data,
      List.cons_append, List.nil_append, List.mem_cons, List.not_mem_nil, or_false] at hevent
    obtain rfl | rfl | rfl | rfl | rfl | rfl | rfl := hevent <;> exact flowKeyOf_reception ..
  ends := by
    refine .inl ⟨firstConnection ++ [lastReception], [lastAck], rfl,
      ⟨reception 2 1000 true false true [1], by simp [firstConnection], rfl, rfl⟩,
      ⟨lastReception, by simp, rfl, rfl⟩, ?_⟩
    intro event hevent
    rw [List.mem_singleton.mp hevent]
    decide
  opens := ⟨_, rfl, rfl⟩

/-- The lane after a connection that closed, and after the acknowledgement that follows. -/
def closedFlows : Lane (FlowKey ℕ) (FlowDecoders ℕ Unit) :=
  Run.run (ingested sampleIp silent sampleClient (.numbered []) fun _ => []) emptyFlows
    (firstConnection ++ [lastReception])

def acknowledgedFlows : Lane (FlowKey ℕ) (FlowDecoders ℕ Unit) :=
  ingested sampleIp silent sampleClient (.numbered []) (fun _ => []) closedFlows lastAck

/-- Then the second connection begins with a gap. -/
theorem not_sameOutcomes_acknowledged :
    ¬ ∀ (lane : Lane (FlowKey ℕ) (FlowDecoders ℕ Unit)) (first second : List Reception),
      lane.flows.get? (.new ⟨1, 50000⟩ ⟨2, 443⟩) = none →
      Successive sampleIp ⟨1, 50000⟩ ⟨2, 443⟩ first second →
      SameOutcomes sampleIp silent sampleClient (.numbered []) (fun _ => [])
        (Run.run (ingested sampleIp silent sampleClient (.numbered []) fun _ => []) lane first)
        { lane with
          store := (Run.run (ingested sampleIp silent sampleClient (.numbered []) fun _ => []) lane
            first).store }
        second := by
  intro h
  have hsame := h emptyFlows _ _ rfl successive_acknowledged
  set fresh : Lane (FlowKey ℕ) (FlowDecoders ℕ Unit) := { emptyFlows with
    store := acknowledgedFlows.store }
  have hclosed : Finds sampleIp silent none ⟨1, 50000⟩ ⟨2, 443⟩ closedFlows new :=
    finds_of_none rfl
  have hfresh : Finds sampleIp silent none ⟨1, 50000⟩ ⟨2, 443⟩ fresh new := finds_of_none rfl
  have hstale := ((hclosed.ingested (between_reception 4 1002 false false [])
    (decodes_silent none _ (momentAt 4, _)) sampleClient (.numbered []) fun _ => []).ingested
    (between_reception 5 50000000 true false []) (decodes_silent none _ (momentAt 5, _))
    sampleClient (.numbered []) fun _ => []).step sampleClient (.numbered []) (fun _ => [])
    (between_reception 6 50000001 false false [3]) (decodes_silent none _ (momentAt 6, _))
  have hnew := (hfresh.ingested (between_reception 5 50000000 true false [])
    (decodes_silent none _ (momentAt 5, _)) sampleClient (.numbered []) fun _ => []).step
    sampleClient (.numbered []) (fun _ => [])
    (between_reception 6 50000001 false false [3]) (decodes_silent none _ (momentAt 6, _))
  have hdata : (receive sampleIp silent sampleClient (.numbered []) (fun _ => []) none
        (ingested sampleIp silent sampleClient (.numbered []) (fun _ => []) acknowledgedFlows opening)
        (data.moment, data.segment)).1 =
      (receive sampleIp silent sampleClient (.numbered []) (fun _ => []) none
        (ingested sampleIp silent sampleClient (.numbered []) (fun _ => []) fresh opening)
        (data.moment, data.segment)).1 := hsame.2.1.handled
  have hclean : Clean SEQUENCE_SPACE (new.handle SEQUENCE_SPACE opening.segment.toSegment)
      data.segment.toSegment := ⟨by decide, by decide⟩
  have hreports : (receive sampleIp silent sampleClient (.numbered []) (fun _ => []) none
      (ingested sampleIp silent sampleClient (.numbered []) (fun _ => []) fresh opening)
      (data.moment, data.segment)).1.ReportsNoGap := hnew.2.1.mpr hclean
  rw [← hdata] at hreports
  have hpushed := (hstale.2.1.mp hreports).pushed
  revert hpushed
  decide

end Codexwatch.Client
