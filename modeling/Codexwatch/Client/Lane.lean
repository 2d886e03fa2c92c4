import Codexwatch.Client.Projection

/-!
# The live capture lane

`LiveCaptureLane` of `client/src/capture_lane.rs`. Everything that one input
completes is projected from the same store, and persisted afterwards in one
transaction.

What the bytes of a segment complete (TCP reassembly and the HTTP/1, HTTP/2 and
WebSocket decoders) is a parameter, so that the results hold for every decoder. A
set of tasks is a list without repetitions; its iteration order is in the `Moment`.

## Main definitions

* `Wire` — the decoders of a flow.
* `Lane` — the store, the flows and the tasks of each process.
* `handleInput`, `ingestInput` — one input.
-/
namespace Codexwatch.Client

open Protocol Capture Relational

structure TcpSegment where
  sourceIp : String
  sourcePort : ℕ
  destinationIp : String
  destinationPort : ℕ
  sequence : ℕ
  syn : Bool
  fin : Bool
  rst : Bool
  payload : Bytes
  deriving DecidableEq

inductive ProcessFlowDirection
  | localToRemote | remoteToLocal
  deriving DecidableEq

/-- What a segment completes. -/
inductive FlowItem
  | exchange (exchange : DecodedExchange)
  | gap (reason : String) (lostBytes : Option ℕ)

/-- What a segment leaves behind: an error, the end of the flow, or its new state. -/
inductive FlowEnd (σ : Type)
  | failed
  | closed
  | ready (state : σ)

/-- The decoders of a flow, with flow keys `κ` and decoder states `σ`. -/
structure Wire (κ σ : Type) where
  /-- `FlowKey::new` of the two endpoints, unless an address does not parse. -/
  flowKey : TcpSegment → Option κ
  start : TcpSegment → Option ProcessFlowDirection → σ
  /-- What the segment completes, in order; after an error nothing more is completed. -/
  push : Tick → σ → TcpSegment → Option ProcessFlowDirection → List FlowItem × FlowEnd σ

structure FlowState (σ : Type) where
  flowId : Uuid
  processInstanceId : Option Uuid
  currentTask : Option TaskKey
  decoders : σ

structure Lane (κ σ : Type) [DecidableEq κ] where
  store : Store
  flows : Table κ (FlowState σ)
  processTasks : Table Uuid (List TaskKey)

inductive CaptureInput
  | tcpSegment (segment : TcpSegment)
  | attributedTcpSegment (segment : TcpSegment) (processInstanceId : Uuid)
      (direction : ProcessFlowDirection)
  | captureGap (flowId : Uuid) (task : Option TaskKey) (observedAt : OffsetDateTime)
      (reason : String) (lostBytes : Option ℕ)
  | processObserved (process : ProcessSummary)
  | processExit (process : ProcessSummary)

/-- What one input takes from outside the lane. -/
structure Moment extends Tick where
  /-- The conversation title index. -/
  title : String → Option String
  /-- The order in which a set of tasks is walked. -/
  order : List TaskKey → List TaskKey
  order_perm : ∀ tasks, (order tasks).Perm tasks

/-- `Result<Option<CaptureBatch>>` -/
inductive Handled
  | error
  | nothing
  | batch (batch : CaptureBatch)

/-- `(!batch.is_empty()).then_some(batch)` -/
def Handled.ofBatch (batch : CaptureBatch) : Handled :=
  if batch.isEmpty then .nothing else .batch batch

theorem eq_of_ofBatch {consumed batch : CaptureBatch}
    (h : Handled.ofBatch consumed = .batch batch) : batch = consumed := by
  rw [Handled.ofBatch] at h
  split at h
  · cases h
  · cases h
    rfl

def summaryRecordTask : SummaryRecord → Option TaskKey
  | .task summary => some summary.task
  | .attempt attempt => some attempt.task
  | .taskTransition transition => some transition.task
  | .session session => some session.task
  | .captureGap gap => gap.task
  | .httpExchange exchange => some exchange.task
  | .process _ | .heartbeat _ => none

section Lane
variable {κ σ : Type} [DecidableEq κ] (wire : Wire κ σ) (client : ClientInstance) (codec : Codec)
  (toVec : List Json → Bytes) (m : Moment)

/-! ## Segments -/

/-- The records of one completed item, which find this current task. -/
def projectItem (s : Store) (flowId : Uuid) (current : Option TaskKey) (index : ℕ) :
    FlowItem → CaptureBatch
  | .exchange exchange => projectExchange client m.title m.toTick index exchange codec toVec s
  | .gap reason lostBytes =>
      projectGap client m.title m.toTick s index flowId current m.now reason lostBytes

/-- The task of an exchange that was projected. -/
def itemTask (batch : CaptureBatch) : FlowItem → Option TaskKey
  | .exchange _ => batch.records.findSome? summaryRecordTask
  | .gap _ _ => none

/-- What the loop over the completed items has gathered. -/
structure Consumed where
  currentTask : Option TaskKey
  tasks : List TaskKey
  batch : CaptureBatch

def consume (s : Store) (flowId : Uuid) (acc : Consumed) (item : FlowItem × ℕ) : Consumed :=
  let projected := projectItem client codec toVec m s flowId acc.currentTask item.2 item.1
  let task := itemTask projected item.1
  { currentTask := task.or acc.currentTask
    tasks := acc.tasks ++ task.toList
    batch := acc.batch.append projected }

def associateTask (processTasks : Table Uuid (List TaskKey)) (processInstanceId : Option Uuid)
    (task : TaskKey) : Table Uuid (List TaskKey) :=
  match processInstanceId with
  | none => processTasks
  | some id => processTasks.put id (((processTasks.get? id).getD []).insert task)

/-- The flow that a segment belongs to, as the segment finds it. -/
def flowOf (lane : Lane κ σ) (segment : TcpSegment) (processInstanceId : Option Uuid)
    (direction : Option ProcessFlowDirection) (key : κ) : FlowState σ :=
  let flow := (lane.flows.get? key).getD
    ⟨m.ids .flow, processInstanceId, none, wire.start segment direction⟩
  { flow with processInstanceId := flow.processInstanceId.or processInstanceId }

def handleSegment (lane : Lane κ σ) (segment : TcpSegment) (processInstanceId : Option Uuid)
    (direction : Option ProcessFlowDirection) : Handled × Lane κ σ :=
  match wire.flowKey segment with
  | none => (.error, lane)
  | some key =>
      let flow := flowOf wire m lane segment processInstanceId direction key
      let (items, finish) := wire.push m.toTick flow.decoders segment direction
      let consumed := items.zipIdx.foldl (consume client codec toVec m lane.store flow.flowId)
        ⟨flow.currentTask, [], CaptureBatch.empty⟩
      let lane := { lane with
        flows := lane.flows.deleteWhere fun k _ => k = key
        processTasks := consumed.tasks.foldl
          (fun tasks task => associateTask tasks flow.processInstanceId task) lane.processTasks }
      match finish with
      | .failed => (.error, lane)
      | .closed => (.ofBatch consumed.batch, lane)
      | .ready decoders =>
          (.ofBatch consumed.batch, { lane with
            flows := lane.flows.put key
              { flow with currentTask := consumed.currentTask, decoders } })

/-! ## Inputs -/

/-- The tasks seen in the flows of a process. -/
def flowTasks (lane : Lane κ σ) (processInstanceId : Uuid) : List TaskKey :=
  (lane.flows.rows.filter fun r => r.2.processInstanceId = some processInstanceId).filterMap
    fun r => r.2.currentTask

def handleInput (lane : Lane κ σ) : CaptureInput → Handled × Lane κ σ
  | .tcpSegment segment => handleSegment wire client codec toVec m lane segment none none
  | .attributedTcpSegment segment processInstanceId direction =>
      handleSegment wire client codec toVec m lane segment (some processInstanceId)
        (some direction)
  | .captureGap flowId task observedAt reason lostBytes =>
      (.ofBatch (projectGap client m.title m.toTick lane.store 0 flowId task observedAt reason
        lostBytes), lane)
  | .processObserved process => (.batch ⟨[.process process], []⟩, lane)
  | .processExit process =>
      let id := process.processInstanceId
      let tasks := ((lane.processTasks.get? id).getD [] ++ flowTasks lane id).dedup
      (.ofBatch (projectProcessExit m.title m.toTick lane.store process (m.order tasks)),
        { lane with processTasks := lane.processTasks.deleteWhere fun k _ => k = id })

/-- The answer is an error, nothing to persist, or the outcome. -/
inductive Ingested
  | error
  | nothing
  | persisted (outcome : PersistOutcome)
  deriving DecidableEq

def ingestInput (lane : Lane κ σ) (input : CaptureInput) : Ingested × Lane κ σ :=
  let handled := handleInput wire client codec toVec m lane input
  match handled.1 with
  | .error => (.error, handled.2)
  | .nothing => (.nothing, handled.2)
  | .batch batch =>
      if batch.isEmpty then (.nothing, handled.2)
      else
        let persisted :=
          persistIngress client codec m.toTick handled.2.store batch.records batch.contents
        (match persisted.1 with
          | none => .error
          | some outcome => .persisted outcome,
          { handled.2 with store := persisted.2 })

end Lane

/-! ## What a segment changes -/

section Outcome
variable {κ σ : Type} [DecidableEq κ]

/-- The answer to a segment, the flow that it leaves, and the tasks of its process. -/
structure SegmentOutcome (σ : Type) where
  handled : Handled
  flow : Option (FlowState σ)
  processInstanceId : Option Uuid
  tasks : List TaskKey

/-- The lane after a segment: the flow is replaced or removed, and tasks are associated. -/
def Lane.after (lane : Lane κ σ) (key : κ) (outcome : SegmentOutcome σ) : Lane κ σ where
  store := lane.store
  flows := match outcome.flow with
    | none => lane.flows.deleteWhere fun k _ => k = key
    | some flow => (lane.flows.deleteWhere fun k _ => k = key).put key flow
  processTasks := outcome.tasks.foldl
    (fun tasks task => associateTask tasks outcome.processInstanceId task) lane.processTasks

@[simp] theorem Lane.store_after (lane : Lane κ σ) (key : κ) (outcome : SegmentOutcome σ) :
    (lane.after key outcome).store = lane.store := rfl

theorem Lane.get?_after (lane : Lane κ σ) (key : κ) (outcome : SegmentOutcome σ) (k : κ) :
    (lane.after key outcome).flows.get? k =
      if k = key then outcome.flow else lane.flows.get? k := by
  have hdeleted : (lane.flows.deleteWhere fun k _ => k = key).get? k =
      if k = key then none else lane.flows.get? k := by
    rw [Table.get?_deleteWhere]
    cases lane.flows.get? k <;> by_cases hk : k = key <;> simp [hk]
  rw [Lane.after]
  cases outcome.flow with
  | none => exact hdeleted
  | some flow =>
      dsimp only
      rw [Table.get?_put, hdeleted]
      by_cases hk : k = key <;> simp [hk]

variable (wire : Wire κ σ) (client : ClientInstance) (codec : Codec) (toVec : List Json → Bytes)
  (m : Moment) (lane : Lane κ σ) (segment : TcpSegment) (processInstanceId : Option Uuid)
  (direction : Option ProcessFlowDirection)

/-- The projections of what the segment completes in the flow of the key. -/
def segmentConsumed (key : κ) : Consumed :=
  let flow := flowOf wire m lane segment processInstanceId direction key
  (wire.push m.toTick flow.decoders segment direction).1.zipIdx.foldl
    (consume client codec toVec m lane.store flow.flowId)
    ⟨flow.currentTask, [], CaptureBatch.empty⟩

def segmentOutcome (key : κ) : SegmentOutcome σ :=
  let flow := flowOf wire m lane segment processInstanceId direction key
  let consumed :=
    segmentConsumed wire client codec toVec m lane segment processInstanceId direction key
  match (wire.push m.toTick flow.decoders segment direction).2 with
  | .failed => ⟨.error, none, flow.processInstanceId, consumed.tasks⟩
  | .closed => ⟨.ofBatch consumed.batch, none, flow.processInstanceId, consumed.tasks⟩
  | .ready decoders => ⟨.ofBatch consumed.batch,
      some { flow with currentTask := consumed.currentTask, decoders }, flow.processInstanceId,
      consumed.tasks⟩

theorem handleSegment_eq {key : κ} (hkey : wire.flowKey segment = some key) :
    handleSegment wire client codec toVec m lane segment processInstanceId direction =
      ((segmentOutcome wire client codec toVec m lane segment processInstanceId direction
          key).handled,
        lane.after key
          (segmentOutcome wire client codec toVec m lane segment processInstanceId direction
            key)) := by
  simp only [handleSegment, hkey, segmentOutcome, segmentConsumed]
  split <;> simp [*, Lane.after]

end Outcome

/-! ## What the items of a segment become -/

section Items
variable {κ σ : Type} [DecidableEq κ] {wire : Wire κ σ} {client : ClientInstance} {codec : Codec}
  {toVec : List Json → Bytes} {m : Moment} {s : Store} {flowId : Uuid}

/-- The current task after an item. -/
def currentAfter (client : ClientInstance) (s : Store) (current : Option TaskKey) :
    FlowItem → Option TaskKey
  | .exchange exchange =>
      if isProjected client exchange s then some (exchangeTask client exchange) else current
  | .gap _ _ => current

/-- The items of a segment, each with the current task that it finds. -/
def walk (client : ClientInstance) (s : Store) :
    Option TaskKey → List FlowItem → List (FlowItem × Option TaskKey)
  | _, [] => []
  | current, item :: items =>
      (item, current) :: walk client s (currentAfter client s current item) items

theorem itemTask_projectItem_or {current : Option TaskKey} {index : ℕ} {item : FlowItem} :
    (itemTask (projectItem client codec toVec m s flowId current index item) item).or current =
      currentAfter client s current item := by
  cases item with
  | exchange exchange =>
      simp only [itemTask, projectItem, projectExchange, currentAfter]
      split
      · rfl
      · rfl
  | gap reason lostBytes => rfl

/-- The records of a segment are those of its items. -/
theorem records_foldl_consume {items : List FlowItem} {n : ℕ} {acc : Consumed} :
    ((items.zipIdx n).foldl (consume client codec toVec m s flowId) acc).batch.records =
      acc.batch.records ++ ((walk client s acc.currentTask items).zipIdx n).flatMap fun x =>
        (projectItem client codec toVec m s flowId x.1.2 x.2 x.1.1).records := by
  induction items generalizing n acc with
  | nil => simp [walk]
  | cons item items ih =>
      rw [List.zipIdx_cons, List.foldl_cons, ih]
      simp only [consume, itemTask_projectItem_or, CaptureBatch.append, walk, List.zipIdx_cons,
        List.flatMap_cons, List.append_assoc]

/-- The items that a segment completes, each with the current task that it finds. -/
def segmentItems (wire : Wire κ σ) (client : ClientInstance) (m : Moment) (lane : Lane κ σ)
    (segment : TcpSegment) (processInstanceId : Option Uuid)
    (direction : Option ProcessFlowDirection) : List (FlowItem × Option TaskKey) :=
  match wire.flowKey segment with
  | none => []
  | some key =>
      let flow := flowOf wire m lane segment processInstanceId direction key
      walk client lane.store flow.currentTask
        (wire.push m.toTick flow.decoders segment direction).1

/-- A segment changes no table, and its batch has the records of the items in order. -/
theorem handleSegment_cases {lane : Lane κ σ} {segment : TcpSegment}
    {processInstanceId : Option Uuid} {direction : Option ProcessFlowDirection}
    {handled : Handled} {lane' : Lane κ σ}
    (h : handleSegment wire client codec toVec m lane segment processInstanceId direction =
      (handled, lane')) :
    lane'.store = lane.store ∧ ∀ batch, handled = .batch batch → ∃ flowId, batch.records =
      ((segmentItems wire client m lane segment processInstanceId direction).zipIdx).flatMap
        fun x => (projectItem client codec toVec m lane.store flowId x.1.2 x.2 x.1.1).records := by
  rw [handleSegment] at h
  rw [segmentItems]
  cases hkey : wire.flowKey segment with
  | none =>
      rw [hkey] at h
      cases h
      exact ⟨rfl, fun batch hbatch => by cases hbatch⟩
  | some key =>
      rw [hkey] at h
      dsimp only at h
      split at h
      · cases h
        exact ⟨rfl, fun batch hb => by cases hb⟩
      · obtain ⟨rfl, rfl⟩ := Prod.mk.inj h
        refine ⟨rfl, fun batch hb => ?_⟩
        rw [eq_of_ofBatch hb, records_foldl_consume]
        exact ⟨_, rfl⟩
      · obtain ⟨rfl, rfl⟩ := Prod.mk.inj h
        refine ⟨rfl, fun batch hb => ?_⟩
        rw [eq_of_ofBatch hb, records_foldl_consume]
        exact ⟨_, rfl⟩

/-- The task that an item carries on: of an exchange that is projected its own, of a gap the
current task, if its row is not terminal. -/
def carries (client : ClientInstance) (s : Store) (item : FlowItem × Option TaskKey) :
    Option String :=
  match item.1 with
  | .exchange exchange =>
      if isProjected client exchange s then some (exchangeTask client exchange).taskRef else none
  | .gap _ _ => item.2.bind fun task =>
      if (liveCursor s task).isSome then some task.taskRef else none

/-- The records of an item: those of an exchange, those of a gap in a live task, or no summary,
attempt or transition at all. -/
theorem projectItem_cases (client : ClientInstance) (codec : Codec) (toVec : List Json → Bytes)
    (m : Moment) (s : Store) (flowId : Uuid) (item : FlowItem × Option TaskKey) (index : ℕ) :
    (∃ exchange, item.1 = .exchange exchange ∧
      carries client s item = some (exchangeTask client exchange).taskRef ∧
      (projectItem client codec toVec m s flowId item.2 index item.1).records =
        exchangeRecords client m.title m.toTick index exchange codec
          (loadTaskCursor s (exchangeTask client exchange))) ∨
    (∃ reason lostBytes task cursor gap, item.1 = .gap reason lostBytes ∧
      carries client s item = some task.taskRef ∧
      loadTaskCursor s task = some cursor ∧ cursor.phase ≠ .terminal ∧
      (projectItem client codec toVec m s flowId item.2 index item.1).records =
        .captureGap gap :: carryOn { cursor.summary m.title task (m.ids (.event index)) m.now with
          completeness := .degraded
          lastError := some (.captureLost ⟨reason, lostBytes⟩) } .captureLost) ∨
    (carries client s item = none ∧
      ((projectItem client codec toVec m s flowId item.2 index item.1).records = [] ∨
        ∃ gap, (projectItem client codec toVec m s flowId item.2 index item.1).records =
          [.captureGap gap])) := by
  obtain ⟨⟨exchange⟩ | ⟨reason, lostBytes⟩, current⟩ := item
  · cases h : isProjected client exchange s with
    | true =>
        exact .inl ⟨exchange, rfl, by simp [carries, h], by simp [projectItem, projectExchange, h]⟩
    | false =>
        exact .inr (.inr ⟨by simp [carries, h],
          .inl (by simp [projectItem, projectExchange, h, CaptureBatch.empty])⟩)
  · cases current with
    | none => exact .inr (.inr ⟨rfl, .inr ⟨_, rfl⟩⟩)
    | some task =>
        cases h : liveCursor s task with
        | none =>
            refine .inr (.inr ⟨by simp [carries, h], .inr ?_⟩)
            simp only [projectItem, projectGap, gapTaskRecords, h, Option.map_some, Option.getD_some]
            exact ⟨_, rfl⟩
        | some cursor =>
            obtain ⟨hcursor, hphase⟩ := Option.filter_eq_some_iff.mp h
            simp only [projectItem, projectGap, gapTaskRecords, h, Option.map_some, Option.getD_some]
            exact .inr (.inl ⟨reason, lostBytes, task, cursor, _, rfl, by simp [carries, h],
              hcursor, by simpa using hphase, rfl⟩)

end Items

/-! ## A small lane -/

/-- Distinct identifiers for the draws of the input with this number. -/
def drawIds (input : ℕ) (draw : Draw) : Uuid :=
  .v7 (.ofNat 64 (1000 * input + match draw with
    | .flow => 1
    | .attempt index => 10 * index + 7
    | .item index => 10 * index + 2
    | .event index => 10 * index + 3
    | .batch chunk => 10 * chunk + 4
    | .record chunk index => 10 * (chunk + index) + 5
    | .snapshot chunk _ => 10 * chunk + 6))

/-- The moment of the input with this number: its second, and no titles. -/
def momentAt (input : ℕ) : Moment where
  now := (100 + input) * 1000000000
  terminalNow := (100 + input) * 1000000000
  ids := drawIds input
  title _ := none
  order := id
  order_perm := List.Perm.refl

/-- Byte one stands for an attempt of the turn `s:t:u` that completes, another byte for one that
fails. -/
def turnExchange (byte : UInt8) : DecodedExchange :=
  if byte = 1 then streamExchange (.v7 2) [completedPayload "r"]
  else streamExchange (.v7 1) [errorPayload "overloaded"]

/-- Decoders that complete one exchange for each byte of a payload. -/
def turnWire : Wire Unit Unit where
  flowKey _ := some ()
  start _ _ := ()
  push _ _ segment _ := (segment.payload.map fun byte => .exchange (turnExchange byte), .ready ())

def emptyLane : Lane Unit Unit := ⟨.empty, .empty, .empty⟩

def serverSegment (payload : Bytes) : TcpSegment :=
  ⟨"192.0.2.2", 443, "192.0.2.1", 50000, 1, false, false, false, payload⟩

end Codexwatch.Client
