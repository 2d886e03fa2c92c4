import Codexwatch.Capture.Closing
import Codexwatch.Client.Flow

/-!
# One direction of a flow

The segments of one direction of a new flow, as the lane receives them. Unless
`process_bytes` fails, the lane reports no gap and hands over the whole stream if and
only if the assembler does well, which it does not when the closing segment comes
before data that it closes.

## Main definitions

* `receive` — a segment of the direction.
* `Unharmed` — no gap, all of the bytes, an assembler that has not given up.
* `unharmed_iff` — when a divided stream comes through.
-/
namespace Codexwatch.Client

open Protocol Capture Relational TcpAssembler

/-- The process and the direction that a segment is attributed to. -/
abbrev Attribution := Option (Uuid × ProcessFlowDirection)

def inputOf (attribution : Attribution) (segment : TcpSegment) : CaptureInput :=
  match attribution with
  | none => .tcpSegment segment
  | some (processInstanceId, direction) => .attributedTcpSegment segment processInstanceId direction

/-- The direction of the segments of a flow that is new. -/
def streamDirection : Attribution → Direction
  | none | some (_, .localToRemote) => .clientToServer
  | some (_, .remoteToLocal) => .serverToClient

def FlowItem.isGap : FlowItem → Bool
  | .gap _ _ => true
  | .exchange _ => false

/-- The batch, if there is one, has no gap. -/
def Handled.ReportsNoGap (handled : Handled) : Prop :=
  ∀ batch, handled = .batch batch → ∀ gap, .captureGap gap ∉ batch.records

section Receive
variable {ι σ : Type} [LinearOrder ι] (parseIp : String → Option ι) (app : Application σ)
  (client : ClientInstance) (codec : Codec) (toVec : List Json → Bytes) (attribution : Attribution)

/-- One segment of the direction, at its moment. -/
def receive (lane : Lane (FlowKey ι) (FlowDecoders ι σ)) (event : Moment × TcpSegment) :
    Handled × Lane (FlowKey ι) (FlowDecoders ι σ) :=
  handleInput (flowWire parseIp app) client codec toVec event.1 lane (inputOf attribution event.2)

/-- The lane after it. -/
def received (lane : Lane (FlowKey ι) (FlowDecoders ι σ)) (event : Moment × TcpSegment) :
    Lane (FlowKey ι) (FlowDecoders ι σ) :=
  (receive parseIp app client codec toVec attribution lane event).2

/-- The flow as the segment finds it, its direction, and what the assembler makes of it. -/
def found (lane : Lane (FlowKey ι) (FlowDecoders ι σ)) (event : Moment × TcpSegment)
    (key : FlowKey ι) : Direction × FlowDecoders ι σ :=
  (flowOf (flowWire parseIp app) event.1 lane event.2 (attribution.map Prod.fst)
    (attribution.map Prod.snd) key).decoders.orient parseIp event.2 (attribution.map Prod.snd)

/-- The bytes that are handed to `process_bytes`. -/
def handedBytes (lane : Lane (FlowKey ι) (FlowDecoders ι σ)) (event : Moment × TcpSegment) :
    Bytes :=
  match flowKeyOf parseIp event.2 with
  | none => []
  | some key =>
      let oriented := found parseIp app attribution lane event key
      ((oriented.2.assembler oriented.1).pushSegment SEQUENCE_SPACE event.2.toSegment).1.bytes

/-- `process_bytes` does not fail on them. -/
def Decodes (lane : Lane (FlowKey ι) (FlowDecoders ι σ)) (event : Moment × TcpSegment) : Prop :=
  ∀ key, flowKeyOf parseIp event.2 = some key →
    let oriented := found parseIp app attribution lane event key
    (oriented.2.accept app event.2 event.1.toTick oriented.1).2 ≠ none

/-- All that is handed over in a run. -/
def handedAll : Lane (FlowKey ι) (FlowDecoders ι σ) → List (Moment × TcpSegment) → Bytes
  | _, [] => []
  | lane, event :: events => handedBytes parseIp app attribution lane event ++
      handedAll (received parseIp app client codec toVec attribution lane event) events

end Receive

/-! ## What a segment reports -/

section Report
variable {κ σ : Type} [DecidableEq κ] {wire : Wire κ σ} {client : ClientInstance} {codec : Codec}
  {toVec : List Json → Bytes} {m : Moment}

/-- The records of a gap report it, and those of an exchange none. -/
theorem exists_captureGap_projectItem_iff {s : Store} {flowId : Uuid} {current : Option TaskKey}
    {index : ℕ} {item : FlowItem} :
    (∃ gap, .captureGap gap ∈
      (projectItem client codec toVec m s flowId current index item).records) ↔
      item.isGap = true := by
  cases item with
  | gap reason lostBytes => exact iff_of_true ⟨_, List.mem_cons_self ..⟩ rfl
  | exchange exchange =>
      simp only [FlowItem.isGap, Bool.false_eq_true, iff_false, not_exists]
      intro gap hgap
      simp only [projectItem, projectExchange] at hgap
      split at hgap
      · simp [exchangeRecords] at hgap
      · simp [CaptureBatch.empty] at hgap

theorem mem_walk_item {s : Store} {current : Option TaskKey} {items : List FlowItem}
    {item : FlowItem} :
    (∃ current', (item, current') ∈ walk client s current items) ↔ item ∈ items := by
  induction items generalizing current with
  | nil => simp [walk]
  | cons first items ih =>
      simp only [walk, List.mem_cons, Prod.mk.injEq, exists_or, ih]
      simp

/-- The records of the items of a segment report a gap when one of the items is one. -/
theorem exists_captureGap_items_iff {s : Store} {flowId : Uuid} {items : List FlowItem}
    {current : Option TaskKey} :
    (∃ gap, .captureGap gap ∈ ((items.zipIdx).foldl (consume client codec toVec m s flowId)
      ⟨current, [], CaptureBatch.empty⟩).batch.records) ↔ ∃ item ∈ items, item.isGap = true := by
  rw [records_foldl_consume, CaptureBatch.empty, List.nil_append]
  constructor
  · intro h
    rcases h with ⟨gap, hgap⟩
    obtain ⟨x, hx, hgap⟩ := List.mem_flatMap.mp hgap
    have hitem := exists_captureGap_projectItem_iff.mp ⟨gap, hgap⟩
    exact ⟨x.1.1, mem_walk_item.mp ⟨x.1.2, List.fst_mem_of_mem_zipIdx hx⟩, hitem⟩
  · intro h
    rcases h with ⟨item, hitem, hisGap⟩
    obtain ⟨current, hwalk⟩ : ∃ current', (item, current') ∈ walk client s current items :=
      mem_walk_item.mpr hitem
    obtain ⟨index, hindex⟩ := List.getElem?_of_mem hwalk
    obtain ⟨gap, hgap⟩ : ∃ gap, .captureGap gap ∈
        (projectItem client codec toVec m s flowId current index item).records :=
      exists_captureGap_projectItem_iff.mpr hisGap
    exact ⟨gap, List.mem_flatMap.mpr ⟨_, List.mk_mem_zipIdx_iff_getElem?.mpr hindex, hgap⟩⟩

/-- A segment after which the flow goes on. -/
theorem handleSegment_ready {lane : Lane κ σ} {segment : TcpSegment}
    {processInstanceId : Option Uuid} {direction : Option ProcessFlowDirection} {key : κ}
    {items : List FlowItem} {decoders : σ} (hkey : wire.flowKey segment = some key)
    (hpush : wire.push m.toTick
      (flowOf wire m lane segment processInstanceId direction key).decoders segment direction =
        (items, .ready decoders)) {handled : Handled} {lane' : Lane κ σ}
    (h : handleSegment wire client codec toVec m lane segment processInstanceId direction =
      (handled, lane')) :
    (handled.ReportsNoGap ↔ ∀ item ∈ items, item.isGap = false) ∧
      ∃ flow, lane'.flows.get? key = some flow ∧ flow.decoders = decoders := by
  simp only [handleSegment, hkey, hpush] at h
  obtain ⟨rfl, rfl⟩ := Prod.mk.inj h
  refine ⟨?_, _, Table.get?_put_self .., rfl⟩
  rw [Handled.ofBatch]
  split
  · rename_i hempty
    rw [CaptureBatch.isEmpty, Bool.and_eq_true, List.isEmpty_iff] at hempty
    refine iff_of_true (fun batch hbatch => by cases hbatch) ?_
    intro item hitem
    rw [← Bool.not_eq_true]
    intro hgap
    obtain ⟨gap, hmem⟩ := exists_captureGap_items_iff.mpr ⟨item, hitem, hgap⟩
    rw [hempty.1] at hmem
    cases hmem
  · constructor
    · intro hreports item hitem
      rw [← Bool.not_eq_true]
      intro hgap
      obtain ⟨gap, hmem⟩ := exists_captureGap_items_iff.mpr ⟨item, hitem, hgap⟩
      exact hreports _ rfl gap hmem
    · intro hitems batch hbatch gap hmem
      cases hbatch
      obtain ⟨item, hitem, hgap⟩ := exists_captureGap_items_iff.mp ⟨gap, hmem⟩
      rw [hitems item hitem] at hgap
      cases hgap

end Report

/-! ## A flow with one direction -/

theorem gapOf_iff {reason : String} {lostBytes : Option ℕ} {r : AssemblerResult} :
    (∀ item ∈ gapOf reason lostBytes r, item.isGap = false) ↔
      r ≠ .gapDetected ∧ r ≠ .conflictDetected := by
  cases r <;> simp [gapOf, FlowItem.isGap]

theorem finish_eq (s : TcpAssembler) :
    s.finish.1 ≠ .gapDetected ∧ s.finish.1 ≠ .conflictDetected ↔ s.finish.1 = .pending := by
  rw [finish]
  split <;> simp

section Flow
variable {ι σ : Type} [LinearOrder ι]

/-- The segment goes from the one endpoint to the other. -/
structure Between (parseIp : String → Option ι) (source destination : Endpoint ι)
    (segment : TcpSegment) : Prop where
  source : sourceOf parseIp segment = some source
  destination : destinationOf parseIp segment = some destination

/-- The flow has this direction, whose assembler is `s`, and the other one is open. -/
structure OneWay (attribution : Attribution) (source destination : Endpoint ι) (s : TcpAssembler)
    (d : FlowDecoders ι σ) : Prop where
  endpoints : (d.client, d.server) = match streamDirection attribution with
    | .clientToServer => (some source, some destination)
    | .serverToClient => (some destination, some source)
  assembler : d.assembler (streamDirection attribution) = s
  opposite : (match streamDirection attribution with
    | .clientToServer => d.serverClosed
    | .serverToClient => d.clientClosed) = false

variable {parseIp : String → Option ι} {app : Application σ} {attribution : Attribution}
  {source destination : Endpoint ι} {s : TcpAssembler} {d : FlowDecoders ι σ}
  {segment : TcpSegment}

/-- A segment of the direction is taken for one, and changes no endpoint. -/
theorem OneWay.orient_eq (h : OneWay attribution source destination s d)
    (hbetween : Between parseIp source destination segment) :
    d.orient parseIp segment (attribution.map Prod.snd) = (streamDirection attribution, d) := by
  have hendpoints := h.endpoints
  obtain _ | ⟨processInstanceId, _ | _⟩ := attribution
  · obtain ⟨hclient, hserver⟩ := Prod.mk.inj hendpoints
    simp [FlowDecoders.orient, hbetween.source, hbetween.destination, hclient, hserver,
      streamDirection]
  · obtain ⟨hclient, hserver⟩ := Prod.mk.inj hendpoints
    simp only [FlowDecoders.orient, Option.map_some, hbetween.source, hbetween.destination,
      ← hclient, ← hserver]
    rfl
  · obtain ⟨hclient, hserver⟩ := Prod.mk.inj hendpoints
    simp only [FlowDecoders.orient, Option.map_some, hbetween.source, hbetween.destination,
      ← hclient, ← hserver]
    rfl

omit [LinearOrder ι] in
theorem oneWay_start (hbetween : Between parseIp source destination segment) :
    OneWay attribution source destination new
      (FlowDecoders.start parseIp app segment (attribution.map Prod.snd)) := by
  obtain _ | ⟨processInstanceId, _ | _⟩ := attribution <;>
    exact ⟨by simp [FlowDecoders.start, streamDirection, hbetween.source, hbetween.destination],
      rfl, rfl⟩

omit [LinearOrder ι] in
theorem OneWay.setAssembler (h : OneWay attribution source destination s d) (s' : TcpAssembler) :
    OneWay attribution source destination s'
      (d.setAssembler s' (streamDirection attribution)) := by
  have hendpoints := h.endpoints
  have hopposite := h.opposite
  constructor
  · cases hdirection : streamDirection attribution <;>
      simpa [hdirection, FlowDecoders.setAssembler] using hendpoints
  · cases streamDirection attribution <;> rfl
  · cases hdirection : streamDirection attribution <;>
      simpa [hdirection, FlowDecoders.setAssembler] using hopposite

omit [LinearOrder ι] in
theorem OneWay.setClosed (h : OneWay attribution source destination s d) :
    OneWay attribution source destination s (d.setClosed (streamDirection attribution)) := by
  have hendpoints := h.endpoints
  have hassembler := h.assembler
  have hopposite := h.opposite
  constructor
  · cases hdirection : streamDirection attribution <;>
      simpa [hdirection, FlowDecoders.setClosed] using hendpoints
  · cases hdirection : streamDirection attribution <;>
      simpa [hdirection, FlowDecoders.setClosed, FlowDecoders.assembler]
        using hassembler
  · cases hdirection : streamDirection attribution <;>
      simpa [hdirection, FlowDecoders.setClosed] using hopposite

omit [LinearOrder ι] in
/-- The delivered bytes change the state of the application, and nothing else of the flow. -/
theorem OneWay.accept (h : OneWay attribution source destination s d) {t : Tick}
    (haccept : (d.accept app segment t (streamDirection attribution)).2 ≠ none) :
    ∃ items d', d.accept app segment t (streamDirection attribution) = (items, some d') ∧
      OneWay attribution source destination (s.next SEQUENCE_SPACE segment.toSegment) d' ∧
      ((∀ item ∈ items, item.isGap = false) ↔
        (s.pushSegment SEQUENCE_SPACE segment.toSegment).1 ≠ .gapDetected ∧
        (s.pushSegment SEQUENCE_SPACE segment.toSegment).1 ≠ .conflictDetected) := by
  have hnext := h.setAssembler (s.next SEQUENCE_SPACE segment.toSegment)
  rw [TcpAssembler.next] at hnext ⊢
  rw [FlowDecoders.accept, h.assembler] at haccept ⊢
  cases hresult : (s.pushSegment SEQUENCE_SPACE segment.toSegment).1 with
  | advanced chunk =>
      simp only [hresult] at haccept ⊢
      obtain ⟨d', hd'⟩ := Option.ne_none_iff_exists'.mp haccept
      rw [hd']
      refine ⟨_, d', rfl, ?_, by simp [FlowItem.isGap]⟩
      obtain ⟨application, -, rfl⟩ := Option.map_eq_some_iff.mp hd'
      exact ⟨hnext.endpoints, hnext.assembler, hnext.opposite⟩
  | pending => exact ⟨_, _, rfl, hnext, gapOf_iff⟩
  | gapDetected => exact ⟨_, _, rfl, hnext, gapOf_iff⟩
  | conflictDetected => exact ⟨_, _, rfl, hnext, gapOf_iff⟩

omit [LinearOrder ι] in
/-- A closing segment finishes the assembler of the direction. -/
theorem OneWay.close (h : OneWay attribution source destination s d) :
    ∃ items d', d.close segment (streamDirection attribution) = (items, d') ∧
      OneWay attribution source destination
        (if segment.fin || segment.rst then s.finish.2 else s) d' ∧
      ((∀ item ∈ items, item.isGap = false) ↔
        ((segment.fin || segment.rst) = true → s.finish.1 = .pending)) := by
  rw [FlowDecoders.close, h.assembler]
  split
  · refine ⟨_, _, rfl, h.setClosed.setAssembler s.finish.2, ?_⟩
    rw [gapOf_iff, finish_eq]
    simp [*]
  · exact ⟨[], d, rfl, h, by simp [*]⟩

/-- A segment of the direction that decodes: what the flow becomes, and when there is a gap. -/
theorem OneWay.push (h : OneWay attribution source destination s d) {t : Tick}
    (hbetween : Between parseIp source destination segment)
    (haccept : (d.accept app segment t (streamDirection attribution)).2 ≠ none) :
    ∃ items d', d.push parseIp app segment t (attribution.map Prod.snd) = (items, .ready d') ∧
      OneWay attribution source destination (s.handle SEQUENCE_SPACE segment.toSegment) d' ∧
      ((∀ item ∈ items, item.isGap = false) ↔ Clean SEQUENCE_SPACE s segment.toSegment) := by
  obtain ⟨accepted, d₁, haccepted, hd₁, hgap₁⟩ := h.accept haccept
  obtain ⟨closed, d₂, hclosed, hd₂, hgap₂⟩ := @OneWay.close _ _ _ _ _ _ _ segment hd₁
  have hopen : (d₂.clientClosed && d₂.serverClosed) = false := by
    have hopposite := hd₂.opposite
    cases hdirection : streamDirection attribution <;> simp_all
  rw [FlowDecoders.push, h.orient_eq hbetween]
  simp only [haccepted, hclosed, hopen]
  refine ⟨accepted ++ closed, d₂, rfl, hd₂, ?_⟩
  have hall : (∀ item ∈ accepted ++ closed, item.isGap = false) ↔
      (∀ item ∈ accepted, item.isGap = false) ∧ ∀ item ∈ closed, item.isGap = false :=
    List.forall_mem_append
  rw [hall, hgap₁, hgap₂]
  constructor
  · intro ⟨hpushed, hfinished⟩
    exact ⟨hpushed, hfinished⟩
  · intro hclean
    exact ⟨hclean.pushed, hclean.finished⟩

end Flow

/-! ## A lane with one direction of a flow -/

section Lane
variable {ι σ : Type} [LinearOrder ι] {parseIp : String → Option ι} {app : Application σ}
  {client : ClientInstance} {codec : Codec} {toVec : List Json → Bytes} {attribution : Attribution}
  {source destination : Endpoint ι} {s : TcpAssembler}
  {lane : Lane (FlowKey ι) (FlowDecoders ι σ)} {event : Moment × TcpSegment}
  {events : List (Moment × TcpSegment)}

theorem Between.flowKeyOf_eq {segment : TcpSegment}
    (h : Between parseIp source destination segment) :
    flowKeyOf parseIp segment = some (.new source destination) := by
  rw [flowKeyOf, h.source, h.destination]

/-- What a segment of the direction finds in the lane. -/
def Finds (parseIp : String → Option ι) (app : Application σ) (attribution : Attribution)
    (source destination : Endpoint ι) (lane : Lane (FlowKey ι) (FlowDecoders ι σ))
    (s : TcpAssembler) : Prop :=
  ∀ (m : Moment) (segment : TcpSegment), Between parseIp source destination segment →
    OneWay attribution source destination s
      (flowOf (flowWire parseIp app) m lane segment (attribution.map Prod.fst)
        (attribution.map Prod.snd) (.new source destination)).decoders

theorem finds_of_none (h : lane.flows.get? (.new source destination) = none) :
    Finds parseIp app attribution source destination lane new := by
  intro m segment hbetween
  rw [flowOf, h]
  exact oneWay_start hbetween

theorem finds_of_some {flow : FlowState (FlowDecoders ι σ)}
    (h : lane.flows.get? (.new source destination) = some flow)
    (hd : OneWay attribution source destination s flow.decoders) :
    Finds parseIp app attribution source destination lane s := by
  intro m segment hbetween
  rw [flowOf, h]
  exact hd

/-- One segment that decodes. -/
theorem Finds.step (client : ClientInstance) (codec : Codec) (toVec : List Json → Bytes)
    (h : Finds parseIp app attribution source destination lane s)
    (hbetween : Between parseIp source destination event.2)
    (hdecodes : Decodes parseIp app attribution lane event) :
    Finds parseIp app attribution source destination
        (received parseIp app client codec toVec attribution lane event)
        (s.handle SEQUENCE_SPACE event.2.toSegment) ∧
      ((receive parseIp app client codec toVec attribution lane event).1.ReportsNoGap ↔
        Clean SEQUENCE_SPACE s event.2.toSegment) ∧
      handedBytes parseIp app attribution lane event =
        (s.pushSegment SEQUENCE_SPACE event.2.toSegment).1.bytes := by
  have hkey : (flowWire parseIp app).flowKey event.2 = some (.new source destination) :=
    hbetween.flowKeyOf_eq
  have hfound := h event.1 event.2 hbetween
  have horient := hfound.orient_eq hbetween
  have haccept := hdecodes _ hkey
  rw [found, horient] at haccept
  obtain ⟨items, d', hpush, hd', hgap⟩ := hfound.push hbetween haccept
  have hinput : receive parseIp app client codec toVec attribution lane event =
      handleSegment (flowWire parseIp app) client codec toVec event.1 lane event.2
        (attribution.map Prod.fst) (attribution.map Prod.snd) := by
    rw [receive]
    obtain _ | ⟨_, _⟩ := attribution <;> rfl
  obtain ⟨hreports, flow, hflow, rfl⟩ :=
    handleSegment_ready hkey hpush hinput.symm
  refine ⟨finds_of_some hflow hd', hreports.trans hgap, ?_⟩
  rw [handedBytes, hbetween.flowKeyOf_eq]
  simp only [found, horient, hfound.assembler]

/-- A run of segments that decode. -/
theorem Finds.run (h : Finds parseIp app attribution source destination lane s)
    (hbetween : ∀ event ∈ events, Between parseIp source destination event.2)
    (hdecodes : Run.Each (received parseIp app client codec toVec attribution)
      (Decodes parseIp app attribution) lane events) :
    (Run.Each (received parseIp app client codec toVec attribution)
        (fun lane event =>
          (receive parseIp app client codec toVec attribution lane event).1.ReportsNoGap) lane events ↔
      Run.Each (TcpAssembler.handle SEQUENCE_SPACE) (Clean SEQUENCE_SPACE) s
        (events.map fun event => event.2.toSegment)) ∧
    handedAll parseIp app client codec toVec attribution lane events =
      (s.handled SEQUENCE_SPACE (events.map fun event => event.2.toSegment)).flatMap
        AssemblerResult.bytes ∧
    Finds parseIp app attribution source destination
      (Run.run (received parseIp app client codec toVec attribution) lane events)
      (Run.run (TcpAssembler.handle SEQUENCE_SPACE) s
        (events.map fun event => event.2.toSegment)) := by
  induction events generalizing lane s with
  | nil => exact ⟨Iff.rfl, rfl, h⟩
  | cons event events ih =>
      obtain ⟨hnext, hreports, hbytes⟩ := h.step client codec toVec
        (hbetween event (by simp)) hdecodes.1
      obtain ⟨heach, hall, hend⟩ :=
        ih hnext (fun e he => hbetween e (List.mem_cons_of_mem event he)) hdecodes.2
      refine ⟨and_congr hreports heach, ?_, hend⟩
      rw [handedAll, hbytes, hall]
      rfl

end Lane

/-! ## The whole stream -/

section Whole
variable {ι σ : Type} [LinearOrder ι] (parseIp : String → Option ι) (app : Application σ)
  (client : ClientInstance) (codec : Codec) (toVec : List Json → Bytes) (attribution : Attribution)

/-- No gap is reported, the whole stream is handed over, and the assembler of the direction has
not given up. -/
structure Unharmed (source destination : Endpoint ι) (S : Bytes)
    (lane : Lane (FlowKey ι) (FlowDecoders ι σ)) (events : List (Moment × TcpSegment)) : Prop where
  noGap : Run.Each (received parseIp app client codec toVec attribution)
    (fun lane event =>
      (receive parseIp app client codec toVec attribution lane event).1.ReportsNoGap) lane events
  bytes : handedAll parseIp app client codec toVec attribution lane events = S
  kept : ∀ flow, (Run.run (received parseIp app client codec toVec attribution) lane
      events).flows.get? (.new source destination) = some flow →
    (flow.decoders.assembler (streamDirection attribution)).degraded = false

/-- The segments of a stream, in the order in which a lane without the flow receives them: the
first one first, none beyond the window. The stream starts at the sequence number `a`. -/
structure StreamRun (a : ℕ) (source destination : Endpoint ι) (parts order : List Segment)
    (lane : Lane (FlowKey ι) (FlowDecoders ι σ)) (events : List (Moment × TcpSegment)) : Prop where
  divides : Divides 0 parts
  perm : order.Perm parts
  head : order.head? = parts.head?
  size : ∀ g ∈ parts, g.payload.length < MAX_SEGMENT
  gap : Run.Each (TcpAssembler.next 0)
    (fun s g => ∀ next, s.nextSeq = some next → g.seq ≤ next + s.maxGap) new order
  segments : (events.map fun event => event.2.toSegment) = order.map (.shift a)
  between : ∀ event ∈ events, Between parseIp source destination event.2
  fresh : lane.flows.get? (.new source destination) = none

variable {parseIp app client codec toVec attribution} {a : ℕ} {source destination : Endpoint ι}
  {parts order : List Segment} {lane : Lane (FlowKey ι) (FlowDecoders ι σ)}
  {events : List (Moment × TcpSegment)}

/-- The order of a stream is an arrival of its first segment and the others. -/
theorem StreamRun.arrival (h : StreamRun parseIp a source destination parts order lane events) :
    ∃ first segments, order = first :: segments ∧ Arrival (streamOf parts) first segments := by
  have hparts := h.divides
  have hhead := h.head
  have horder := h.perm
  have hgap := h.gap
  cases parts with
  | nil => exact hparts.elim
  | cons part parts =>
      cases order with
      | nil => cases hhead
      | cons first segments =>
          cases hhead
          refine ⟨part, segments, rfl, (Divides.cons_iff.mp hparts).1, ?_, ?_, hgap⟩
          · intro g hg
            have hempty : Divides ([] : Bytes).length (part :: parts) := hparts
            exact hempty.consistent (horder.mem_iff.mp hg)
          · refine (horder.pairwise_iff ?_).mpr hparts.pairwise
            intro g g' hapart i hlo hhi hlo'
            by_contra hhi'
            have hstop := hapart i hlo' (not_le.mp hhi') hlo
            omega

/-- Unless `process_bytes` fails, the stream comes through if and only if its segments come in
time. -/
theorem unharmed_iff (h : StreamRun parseIp a source destination parts order lane events)
    (hdecodes : Run.Each (received parseIp app client codec toVec attribution)
      (Decodes parseIp app attribution) lane events) :
    Unharmed parseIp app client codec toVec attribution source destination (streamOf parts) lane
        events ↔ InTime a order := by
  obtain ⟨first, segments, rfl, harrival⟩ := h.arrival
  have hmem : ∀ g ∈ first :: segments, g ∈ parts := fun g hg => h.perm.mem_iff.mp hg
  have hcover : ∀ i, i < (streamOf parts).length → ∃ g ∈ first :: segments,
      g.seq ≤ i ∧ i < g.stop := by
    intro i hi
    obtain ⟨g, hg, hin⟩ := h.divides.covers (Nat.zero_le i) (by omega)
    exact ⟨g, h.perm.mem_iff.mpr hg, hin⟩
  obtain ⟨horderly, hfaithful⟩ := @Arrival.faithful_iff _ a _ _ harrival hcover
    (fun g hg => h.size g (hmem g hg)) fun g hg => h.divides.rst_eq_false (hmem g hg)
  have hnew : Finds parseIp app attribution source destination lane new := finds_of_none h.fresh
  obtain ⟨heach, hbytes, hfinds⟩ := hnew.run h.between hdecodes
  rw [h.segments] at heach hbytes hfinds
  rw [← harrival.inTime_iff]
  constructor
  · intro hunharmed
    exact horderly (heach.mp hunharmed.noGap)
  · intro hin
    have hdone := hfaithful hin
    refine ⟨heach.mpr hdone.clean, hbytes.trans hdone.bytes, ?_⟩
    intro flow hflow
    have hlength := congrArg List.length h.segments
    cases events with
    | nil => simp at hlength
    | cons event events =>
        have hfound := hfinds event.1 event.2 (h.between event (by simp))
        rw [flowOf, hflow] at hfound
        rw [← hdone.kept, ← hfound.assembler]
        rfl

end Whole

/-! ## A small stream -/

/-- Addresses of the two ends. -/
def sampleIp (text : String) : Option ℕ := some (if text = "192.0.2.2" then 2 else 1)

/-- An application that never completes anything. -/
def silent : Application Unit where
  start := ()
  processBytes _ state _ _ := ([], some state)

def flowSegment (sequence : ℕ) (payload : Bytes) (fin : Bool) : TcpSegment :=
  ⟨"192.0.2.1", 50000, "192.0.2.2", 443, sequence, false, fin, false, payload⟩

def emptyFlows : Lane (FlowKey ℕ) (FlowDecoders ℕ Unit) := ⟨.empty, .empty, .empty⟩

theorem between_flowSegment (sequence : ℕ) (payload : Bytes) (fin : Bool) :
    Between sampleIp ⟨1, 50000⟩ ⟨2, 443⟩ (flowSegment sequence payload fin) := by
  constructor <;> simp [sourceOf, destinationOf, sampleIp, flowSegment]

theorem decodes_silent (attribution : Attribution) (lane : Lane (FlowKey ℕ) (FlowDecoders ℕ Unit))
    (event : Moment × TcpSegment) : Decodes sampleIp silent attribution lane event := by
  intro key _
  simp only [FlowDecoders.accept]
  split <;> simp [silent]

def sampleParts : List Segment :=
  [⟨0, [1, 2], false, false⟩, ⟨2, [3], false, false⟩, ⟨3, [4], false, false⟩,
    ⟨4, [5], true, false⟩]

/-- The segments of a stream in this order, one at each moment. -/
def arrivals (order : List Segment) : List (Moment × TcpSegment) :=
  order.zipIdx.map fun r => (momentAt r.2, flowSegment (1000 + r.1.seq) r.1.payload r.1.fin)

instance (s : TcpAssembler) (g : Segment) :
    Decidable (∀ next, s.nextSeq = some next → g.seq ≤ next + s.maxGap) :=
  inferInstanceAs (Decidable (∀ next ∈ s.nextSeq, g.seq ≤ next + s.maxGap))

theorem streamRun_arrivals {order : List Segment} (hperm : order.Perm sampleParts)
    (hhead : order.head? = sampleParts.head?)
    (hgap : Run.Each (TcpAssembler.next 0)
      (fun s g => ∀ next, s.nextSeq = some next → g.seq ≤ next + s.maxGap) new order)
    (hsegments : ((arrivals order).map fun event => event.2.toSegment) = order.map (.shift 1000)) :
    StreamRun sampleIp 1000 ⟨1, 50000⟩ ⟨2, 443⟩ sampleParts order emptyFlows (arrivals order) where
  divides := by simp [Divides, sampleParts]
  perm := hperm
  head := hhead
  size := by simp [sampleParts, MAX_SEGMENT]
  gap := hgap
  segments := hsegments
  between := by
    intro event hevent
    obtain ⟨r, -, rfl⟩ := List.mem_map.mp hevent
    exact between_flowSegment ..
  fresh := rfl

/-- The middle comes in the other order. -/
theorem streamRun_reordered :
    StreamRun sampleIp 1000 ⟨1, 50000⟩ ⟨2, 443⟩ sampleParts
      [⟨0, [1, 2], false, false⟩, ⟨3, [4], false, false⟩, ⟨2, [3], false, false⟩,
        ⟨4, [5], true, false⟩] emptyFlows
      [(momentAt 0, flowSegment 1000 [1, 2] false), (momentAt 1, flowSegment 1003 [4] false),
        (momentAt 2, flowSegment 1002 [3] false), (momentAt 3, flowSegment 1004 [5] true)] :=
  streamRun_arrivals (by decide) rfl (by decide) (by decide)

theorem unharmed_reordered :
    Unharmed sampleIp silent sampleClient (.numbered []) (fun _ => []) none ⟨1, 50000⟩ ⟨2, 443⟩
      [1, 2, 3, 4, 5] emptyFlows
      [(momentAt 0, flowSegment 1000 [1, 2] false), (momentAt 1, flowSegment 1003 [4] false),
        (momentAt 2, flowSegment 1002 [3] false), (momentAt 3, flowSegment 1004 [5] true)] := by
  refine (unharmed_iff streamRun_reordered ?_).mpr ?_
  · exact ⟨decodes_silent none _ _, decodes_silent none _ _, decodes_silent none _ _,
      decodes_silent none _ _, trivial⟩
  · obtain ⟨first, segments, heq, harrival⟩ := streamRun_reordered.arrival
    cases heq
    exact harrival.inTime_iff.mp ⟨⟨by decide, by decide⟩, ⟨by decide, by decide⟩,
      ⟨by decide, by decide⟩, ⟨by decide, by decide⟩, trivial⟩

/-- The closing segment comes before the data in front of it. -/
theorem streamRun_closingFirst :
    StreamRun sampleIp 1000 ⟨1, 50000⟩ ⟨2, 443⟩ sampleParts
      [⟨0, [1, 2], false, false⟩, ⟨2, [3], false, false⟩, ⟨4, [5], true, false⟩,
        ⟨3, [4], false, false⟩] emptyFlows
      [(momentAt 0, flowSegment 1000 [1, 2] false), (momentAt 1, flowSegment 1002 [3] false),
        (momentAt 2, flowSegment 1004 [5] true), (momentAt 3, flowSegment 1003 [4] false)] :=
  streamRun_arrivals (by decide) rfl (by decide) (by decide)

/-- Then a gap is reported, although every byte comes. -/
theorem not_unharmed_closingFirst :
    ¬ ∀ (parts order : List Segment) (events : List (Moment × TcpSegment)),
      StreamRun sampleIp 1000 ⟨1, 50000⟩ ⟨2, 443⟩ parts order emptyFlows events →
      Run.Each (received sampleIp silent sampleClient (.numbered []) (fun _ => []) none)
        (Decodes sampleIp silent none) emptyFlows events →
      Unharmed sampleIp silent sampleClient (.numbered []) (fun _ => []) none ⟨1, 50000⟩ ⟨2, 443⟩
        (streamOf parts) emptyFlows events := by
  intro h
  have hdecodes : Run.Each (received sampleIp silent sampleClient (.numbered []) (fun _ => []) none)
      (Decodes sampleIp silent none) emptyFlows
      [(momentAt 0, flowSegment 1000 [1, 2] false), (momentAt 1, flowSegment 1002 [3] false),
        (momentAt 2, flowSegment 1004 [5] true), (momentAt 3, flowSegment 1003 [4] false)] :=
    ⟨decodes_silent none _ _, decodes_silent none _ _, decodes_silent none _ _,
      decodes_silent none _ _, trivial⟩
  have hunharmed := h _ _ _ streamRun_closingFirst hdecodes
  have hnew : Finds sampleIp silent none ⟨1, 50000⟩ ⟨2, 443⟩ emptyFlows new := finds_of_none rfl
  have hclean := (hnew.run streamRun_closingFirst.between hdecodes).1.mp hunharmed.noGap
  have hfinished := hclean.2.2.1.finished (by decide)
  revert hfinished
  decide

end Codexwatch.Client
