import Codexwatch.Client.Application
import Codexwatch.Client.Stream

/-!
# What an error leaves behind

`handle_input` takes a flow out of its map, and the tasks of a process that ends, before
the steps that can fail: the queries of the store, and the decoders. Where it leaves with an
error they are not put back, and what was completed before the error is dropped.

## Main definitions

* `StoreFaults`, `handleInputOn` — an input on a store that may fail.
* `completedExchanges` — what was completed before the error.
* `Returned`, `Wire.Produces` — where an exchange may still be.
* `Contained` — nothing is lost with the error.
* `Spared` — there was nothing to lose.
-/
namespace Codexwatch.Client

open Protocol Capture Relational

/-- The queries that fail in one input. -/
structure StoreFaults where
  noteFlowOpen : Bool
  /-- Those of the projection with this number. -/
  projection : ℕ → Bool
  noteFlowClosed : Bool

def noFaults : StoreFaults := ⟨false, fun _ => false, false⟩

theorem Handled.ofBatch_ne_error (batch : CaptureBatch) : Handled.ofBatch batch ≠ .error := by
  rw [Handled.ofBatch]
  split <;> simp

/-- Whether the projection of an item reads the store. -/
def readsStore (current : Option TaskKey) : FlowItem → Bool
  | .exchange exchange => exchange.attempt.codex.requestKind = "turn"
  | .gap _ _ => current.isSome

section Faults
variable {κ σ : Type} [DecidableEq κ] (wire : Wire κ σ) (client : ClientInstance) (codec : Codec)
  (toVec : List Json → Bytes) (m : Moment) (faults : StoreFaults)

/-- The loop over the completed items, and whether it came to its end. -/
def consumeOn (s : Store) (flowId : Uuid) : Consumed → List (FlowItem × ℕ) → Consumed × Bool
  | acc, [] => (acc, true)
  | acc, item :: items =>
      if readsStore acc.currentTask item.1 && faults.projection item.2 then (acc, false)
      else consumeOn s flowId (consume client codec toVec m s flowId acc item) items

def handleSegmentOn (lane : Lane κ σ) (segment : TcpSegment) (processInstanceId : Option Uuid)
    (direction : Option ProcessFlowDirection) : Handled × Lane κ σ :=
  match wire.flowKey segment with
  | none => (.error, lane)
  | some key =>
      let flow := flowOf wire m lane segment processInstanceId direction key
      let lane := { lane with flows := lane.flows.deleteWhere fun k _ => k = key }
      if faults.noteFlowOpen then (.error, lane)
      else
        let pushed := wire.push m.toTick flow.decoders segment direction
        let consumed := consumeOn client codec toVec m faults lane.store flow.flowId
          ⟨flow.currentTask, [], CaptureBatch.empty⟩ pushed.1.zipIdx
        let lane := { lane with
          processTasks := consumed.1.tasks.foldl
            (fun tasks task => associateTask tasks flow.processInstanceId task)
            lane.processTasks }
        if !consumed.2 then (.error, lane)
        else
          match pushed.2 with
          | .failed => (.error, lane)
          | .closed =>
              if faults.noteFlowClosed then (.error, lane)
              else (.ofBatch consumed.1.batch, lane)
          | .ready decoders =>
              (.ofBatch consumed.1.batch, { lane with
                flows := lane.flows.put key
                  { flow with currentTask := consumed.1.currentTask, decoders } })

/-- The tasks that end with a process, in the order in which they are walked. -/
def tasksAtExit (lane : Lane κ σ) (processInstanceId : Uuid) : List TaskKey :=
  m.order ((((lane.processTasks.get? processInstanceId).getD []) ++
    flowTasks lane processInstanceId).dedup)

def handleInputOn (lane : Lane κ σ) : CaptureInput → Handled × Lane κ σ
  | .tcpSegment segment => handleSegmentOn wire client codec toVec m faults lane segment none none
  | .attributedTcpSegment segment processInstanceId direction =>
      handleSegmentOn wire client codec toVec m faults lane segment (some processInstanceId)
        (some direction)
  | .captureGap flowId task observedAt reason lostBytes =>
      if task.isSome && faults.projection 0 then (.error, lane)
      else (.ofBatch (projectGap client m.title m.toTick lane.store 0 flowId task observedAt reason
        lostBytes), lane)
  | .processObserved process => (.batch ⟨[.process process], []⟩, lane)
  | .processExit process =>
      let id := process.processInstanceId
      let tasks := tasksAtExit m lane id
      let lane' := { lane with processTasks := lane.processTasks.deleteWhere fun k _ => k = id }
      if (List.range tasks.length).any faults.projection then (.error, lane')
      else (.ofBatch (projectProcessExit m.title m.toTick lane.store process tasks), lane')

variable {wire client codec toVec m}

theorem consumeOn_noFaults (s : Store) (flowId : Uuid) (acc : Consumed)
    (items : List (FlowItem × ℕ)) :
    consumeOn client codec toVec m noFaults s flowId acc items =
      (items.foldl (consume client codec toVec m s flowId) acc, true) := by
  induction items generalizing acc with
  | nil => rfl
  | cons item items ih =>
      rw [consumeOn, List.foldl_cons, ← ih]
      simp [noFaults]

/-- Where no query fails, only the decoders do. -/
theorem handleInputOn_noFaults (lane : Lane κ σ) (input : CaptureInput) :
    handleInputOn wire client codec toVec m noFaults lane input =
      handleInput wire client codec toVec m lane input := by
  have hsegment : ∀ segment processInstanceId direction,
      handleSegmentOn wire client codec toVec m noFaults lane segment processInstanceId direction =
        handleSegment wire client codec toVec m lane segment processInstanceId direction := by
    intro segment processInstanceId direction
    rw [handleSegmentOn, handleSegment]
    cases wire.flowKey segment with
    | none => rfl
    | some key =>
        simp only [consumeOn_noFaults]
        rfl
  cases input with
  | tcpSegment segment => exact hsegment ..
  | attributedTcpSegment segment processInstanceId direction => exact hsegment ..
  | captureGap flowId task observedAt reason lostBytes => simp [handleInputOn, handleInput, noFaults]
  | processObserved process => rfl
  | processExit process => simp [handleInputOn, handleInput, noFaults, tasksAtExit]

/-! ## What was completed before an error -/

/-- The items before the one whose projection fails. -/
def reached (client : ClientInstance) (faults : StoreFaults) (s : Store) :
    Option TaskKey → List (FlowItem × ℕ) → List FlowItem
  | _, [] => []
  | current, item :: items =>
      if readsStore current item.1 && faults.projection item.2 then []
      else item.1 :: reached client faults s (currentAfter client s current item.1) items

/-- The exchanges that become records. -/
def projectedOf (client : ClientInstance) (s : Store) (items : List FlowItem) :
    List DecodedExchange :=
  items.filterMap fun item =>
    match item with
    | .exchange exchange => if isProjected client exchange s then some exchange else none
    | .gap _ _ => none

variable (wire client m)

/-- The exchanges of a segment that were projected when it ends. -/
def segmentExchanges (lane : Lane κ σ) (segment : TcpSegment) (processInstanceId : Option Uuid)
    (direction : Option ProcessFlowDirection) : List DecodedExchange :=
  match wire.flowKey segment with
  | none => []
  | some key =>
      let flow := flowOf wire m lane segment processInstanceId direction key
      if faults.noteFlowOpen then []
      else
        projectedOf client lane.store (reached client faults lane.store flow.currentTask
          (wire.push m.toTick flow.decoders segment direction).1.zipIdx)

/-- The exchanges that an input had completed when it failed. -/
def completedExchanges (lane : Lane κ σ) : CaptureInput → List DecodedExchange
  | .tcpSegment segment => segmentExchanges wire client m faults lane segment none none
  | .attributedTcpSegment segment processInstanceId direction =>
      segmentExchanges wire client m faults lane segment (some processInstanceId) (some direction)
  | .captureGap _ _ _ _ _ | .processObserved _ | .processExit _ => []

/-- The tasks of a process. -/
def tasksOf (lane : Lane κ σ) (processInstanceId : Uuid) : List TaskKey :=
  (lane.processTasks.get? processInstanceId).getD []

/-- The answer has the attempt of the exchange among its records. -/
def Returned (exchange : DecodedExchange) (handled : Handled) : Prop :=
  ∃ batch attempt, handled = .batch batch ∧ .attempt attempt ∈ batch.records ∧
    attempt.attemptId = exchange.attempt.attemptId

/-- The decoders can still complete an exchange of the same bodies, with the right segments. -/
inductive Wire.Produces (exchange : DecodedExchange) : σ → Prop
  | now {tick : Tick} {state : σ} {segment : TcpSegment} {direction : Option ProcessFlowDirection}
      {again : DecodedExchange} (h : .exchange again ∈ (wire.push tick state segment direction).1)
      (hrequest : again.requestBody = exchange.requestBody)
      (hresponse : again.responseBody = exchange.responseBody) : Wire.Produces exchange state
  | later {tick : Tick} {state state' : σ} {segment : TcpSegment}
      {direction : Option ProcessFlowDirection}
      (h : (wire.push tick state segment direction).2 = .ready state')
      (hlater : Wire.Produces exchange state') : Wire.Produces exchange state

/-- The key of the flow that an input belongs to. -/
def inputKey : CaptureInput → Option κ
  | .tcpSegment segment | .attributedTcpSegment segment _ _ => wire.flowKey segment
  | .captureGap _ _ _ _ _ | .processObserved _ | .processExit _ => none

/-- The flows and the tasks are still there, and each exchange that was completed is returned, or
the flow that completed it is in the lane and can produce it again. -/
structure Contained (lane : Lane κ σ) (key : Option κ) (completed : List DecodedExchange)
    (result : Handled × Lane κ σ) : Prop where
  flows : ∀ key flow, lane.flows.get? key = some flow → result.2.flows.get? key = some flow
  tasks : ∀ id task, task ∈ tasksOf result.2 id ↔ task ∈ tasksOf lane id
  exchanges : ∀ exchange ∈ completed, Returned exchange result.1 ∨
    ∃ k flow, key = some k ∧ result.2.flows.get? k = some flow ∧
      wire.Produces exchange flow.decoders

/-- A segment of a flow that is not known, and that completes nothing before the error. -/
def segmentSpared (lane : Lane κ σ) (segment : TcpSegment) (processInstanceId : Option Uuid)
    (direction : Option ProcessFlowDirection) : Prop :=
  match wire.flowKey segment with
  | none => True
  | some key => lane.flows.get? key = none ∧
      segmentExchanges wire client m faults lane segment processInstanceId direction = []

/-- The input finds nothing that its error could lose. -/
def Spared (lane : Lane κ σ) : CaptureInput → Prop
  | .tcpSegment segment => segmentSpared wire client m faults lane segment none none
  | .attributedTcpSegment segment processInstanceId direction =>
      segmentSpared wire client m faults lane segment (some processInstanceId) (some direction)
  | .captureGap _ _ _ _ _ | .processObserved _ => True
  | .processExit process => tasksOf lane process.processInstanceId = []

variable {wire client m} {faults} {lane : Lane κ σ} {segment : TcpSegment}
  {processInstanceId : Option Uuid} {direction : Option ProcessFlowDirection}

/-- The tasks that a loop associates are those of the exchanges that it projects. -/
theorem tasks_consumeOn {s : Store} {flowId : Uuid} {acc : Consumed}
    {items : List (FlowItem × ℕ)} :
    (consumeOn client codec toVec m faults s flowId acc items).1.tasks =
      acc.tasks ++ (projectedOf client s (reached client faults s acc.currentTask items)).map
        (exchangeTask client) := by
  induction items generalizing acc with
  | nil => simp [consumeOn, reached, projectedOf]
  | cons item items ih =>
      obtain ⟨item, index⟩ := item
      rw [consumeOn, reached]
      split
      · simp [projectedOf]
      · rw [ih]
        simp only [consume, itemTask_projectItem_or]
        cases item with
        | gap reason lostBytes => simp [itemTask, projectedOf]
        | exchange exchange =>
            have htask : itemTask (projectItem client codec toVec m s flowId acc.currentTask index
                (.exchange exchange)) (.exchange exchange) =
                if isProjected client exchange s then some (exchangeTask client exchange)
                else none := by
              have hor : (itemTask (projectItem client codec toVec m s flowId none index
                  (.exchange exchange)) (.exchange exchange)).or none = _ :=
                itemTask_projectItem_or
              rwa [Option.or_none] at hor
            rw [htask]
            by_cases hprojected : isProjected client exchange s = true
            · simp [projectedOf, hprojected]
            · simp [projectedOf, hprojected]

/-- With its error a segment leaves no flow, and the tasks of what it completed. -/
theorem handleSegmentOn_error {key : κ} (hkey : wire.flowKey segment = some key)
    (h : (handleSegmentOn wire client codec toVec m faults lane segment processInstanceId
      direction).1 = .error) :
    (handleSegmentOn wire client codec toVec m faults lane segment processInstanceId direction).2 =
      { lane with
        flows := lane.flows.deleteWhere fun k _ => k = key
        processTasks := ((segmentExchanges wire client m faults lane segment processInstanceId
          direction).map (exchangeTask client)).foldl
            (fun tasks task => associateTask tasks
              (flowOf wire m lane segment processInstanceId direction key).processInstanceId task)
            lane.processTasks } := by
  rw [handleSegmentOn, hkey] at h ⊢
  rw [segmentExchanges, hkey]
  dsimp only at h ⊢
  by_cases hopen : faults.noteFlowOpen = true
  · rw [if_pos hopen, if_pos hopen]
    rfl
  · rw [if_neg hopen] at h
    rw [if_neg hopen, if_neg hopen]
    simp only [tasks_consumeOn, List.nil_append] at h ⊢
    split at h
    · rename_i hfailed
      rw [if_pos hfailed]
    · rename_i hdone
      rw [if_neg hdone]
      cases hend : (wire.push m.toTick (flowOf wire m lane segment processInstanceId direction
          key).decoders segment direction).2 with
      | failed => rfl
      | closed =>
          rw [hend] at h
          dsimp only at h ⊢
          by_cases hclosed : faults.noteFlowClosed = true
          · rw [if_pos hclosed]
          · rw [if_neg hclosed] at h
            exact absurd h (Handled.ofBatch_ne_error _)
      | ready decoders =>
          rw [hend] at h
          exact absurd h (Handled.ofBatch_ne_error _)

/-- What was completed before the error is neither in the answer nor in a flow of the lane. -/
theorem segmentExchanges_eq_nil {key : κ} (hkey : wire.flowKey segment = some key)
    (h : (handleSegmentOn wire client codec toVec m faults lane segment processInstanceId
      direction).1 = .error)
    (hcontained : Contained wire lane (wire.flowKey segment)
      (segmentExchanges wire client m faults lane segment processInstanceId direction)
      (handleSegmentOn wire client codec toVec m faults lane segment processInstanceId
        direction)) :
    segmentExchanges wire client m faults lane segment processInstanceId direction = [] := by
  rw [List.eq_nil_iff_forall_not_mem]
  intro exchange hexchange
  obtain ⟨batch, -, hbatch, -⟩ | ⟨k, flow, hk, hflow, -⟩ := hcontained.exchanges exchange hexchange
  · rw [h] at hbatch
    cases hbatch
  · obtain rfl := Option.some.inj (hkey.symm.trans hk)
    rw [handleSegmentOn_error hkey h, Table.get?_delete, if_pos rfl] at hflow
    cases hflow

/-- Nothing is lost where the lane stays and nothing was completed. -/
theorem contained_of_eq {key : Option κ} {result : Handled × Lane κ σ} (h : result.2 = lane) :
    Contained wire lane key [] result := by
  refine ⟨?_, ?_, by simp⟩
  · rw [h]
    exact fun _ _ hflow => hflow
  · rw [h]
    exact fun _ _ => Iff.rfl

theorem segment_contained_iff
    (h : (handleSegmentOn wire client codec toVec m faults lane segment processInstanceId
      direction).1 = .error) :
    Contained wire lane (wire.flowKey segment)
        (segmentExchanges wire client m faults lane segment processInstanceId direction)
        (handleSegmentOn wire client codec toVec m faults lane segment processInstanceId
          direction) ↔
      segmentSpared wire client m faults lane segment processInstanceId direction := by
  cases hkey : wire.flowKey segment with
  | none =>
      have hlane : (handleSegmentOn wire client codec toVec m faults lane segment
          processInstanceId direction).2 = lane := by
        rw [handleSegmentOn, hkey]
      have hnone : segmentExchanges wire client m faults lane segment processInstanceId direction =
          [] := by
        rw [segmentExchanges, hkey]
      rw [segmentSpared, hkey, hnone]
      exact iff_of_true (contained_of_eq hlane) trivial
  | some key =>
      have hlane := handleSegmentOn_error hkey h
      have hspared : segmentSpared wire client m faults lane segment processInstanceId direction ↔
          lane.flows.get? key = none ∧
            segmentExchanges wire client m faults lane segment processInstanceId direction = [] := by
        rw [segmentSpared, hkey]
      rw [hspared, ← hkey]
      constructor
      · intro hcontained
        refine ⟨?_, segmentExchanges_eq_nil hkey h hcontained⟩
        -- a flow that was there is gone
        cases hflow : lane.flows.get? key with
        | none => rfl
        | some flow =>
            have hkept := hcontained.flows key flow hflow
            rw [hlane, Table.get?_delete, if_pos rfl] at hkept
            cases hkept
      · intro hspared
        refine ⟨?_, ?_, by simp [hspared.2]⟩
        · intro k flow hflow
          have hne : k ≠ key := by
            rintro rfl
            cases hspared.1.symm.trans hflow
          rw [hlane, Table.get?_delete, if_neg hne]
          exact hflow
        · intro id task
          rw [hlane, hspared.2]
          rfl

/-- An error is contained exactly where there was nothing to lose. -/
theorem contained_iff_spared (wire : Wire κ σ) (client : ClientInstance) (codec : Codec)
    (toVec : List Json → Bytes) (m : Moment) (faults : StoreFaults) (lane : Lane κ σ)
    (input : CaptureInput)
    (h : (handleInputOn wire client codec toVec m faults lane input).1 = .error) :
    Contained wire lane (inputKey wire input)
        (completedExchanges wire client m faults lane input)
        (handleInputOn wire client codec toVec m faults lane input) ↔
      Spared wire client m faults lane input := by
  cases input with
  | tcpSegment segment => exact segment_contained_iff h
  | attributedTcpSegment segment processInstanceId direction => exact segment_contained_iff h
  | captureGap flowId task observedAt reason lostBytes =>
      have hlane : (handleInputOn wire client codec toVec m faults lane
          (.captureGap flowId task observedAt reason lostBytes)).2 = lane := by
        rw [handleInputOn]
        split <;> rfl
      exact iff_of_true (contained_of_eq hlane) trivial
  | processObserved process => cases h
  | processExit process =>
      have hlane : (handleInputOn wire client codec toVec m faults lane
          (.processExit process)).2 = { lane with processTasks :=
            (lane.processTasks.deleteWhere fun k _ => k = process.processInstanceId) } := by
        rw [handleInputOn]
        split <;> rfl
      have htasks : ∀ id, tasksOf { lane with processTasks :=
          (lane.processTasks.deleteWhere fun k _ => k = process.processInstanceId) } id =
          if id = process.processInstanceId then [] else tasksOf lane id := by
        intro id
        rw [tasksOf, tasksOf, Table.get?_deleteWhere]
        cases lane.processTasks.get? id <;> by_cases hid : id = process.processInstanceId <;>
          simp [hid, Option.filter]
      rw [Spared]
      constructor
      · intro hcontained
        rw [List.eq_nil_iff_forall_not_mem]
        intro task htask
        have hkept := (hcontained.tasks process.processInstanceId task).mpr htask
        rw [hlane, htasks, if_pos rfl] at hkept
        cases hkept
      · intro hspared
        refine ⟨fun _ _ hflow => hlane ▸ hflow, ?_, by simp [completedExchanges]⟩
        intro id task
        rw [hlane, htasks]
        split
        · rename_i hid
          rw [hid, hspared]
        · rfl

end Faults

/-! ## A small lane -/

def isError : Handled → Bool
  | .error => true
  | _ => false

theorem eq_error_of_isError {handled : Handled} (h : isError handled = true) :
    handled = .error := by
  cases handled with
  | error => rfl
  | nothing => cases h
  | batch batch => cases h

abbrev ProtocolLane : Type := Lane (FlowKey ℕ) (FlowDecoders ℕ (FlowProtocol Unit))

def protocolWire : Wire (FlowKey ℕ) (FlowDecoders ℕ (FlowProtocol Unit)) :=
  flowWire sampleIp (protocols (knownLibrary [] [] []))

def emptyProtocols : ProtocolLane := ⟨.empty, .empty, .empty⟩

/-- The lane after the first line of the client preface. -/
def prefaceLane : ProtocolLane :=
  (handleInput protocolWire sampleClient (.numbered []) (fun _ => []) (momentAt 0) emptyProtocols
    (.tcpSegment (flowSegment 1000 (CLIENT_PREFACE.take 16) false))).2

/-- The first segment of another connection, with a preface that is not right. -/
def wrongPreface : TcpSegment :=
  { flowSegment 1000 (CLIENT_PREFACE.take 16 ++ [0]) false with sourcePort := 50001 }

/-- A preface that is wrong from the beginning loses nothing of the flow that is there. -/
theorem contained_iff_spared_other :
    Contained protocolWire prefaceLane (inputKey protocolWire (.tcpSegment wrongPreface))
      (completedExchanges protocolWire sampleClient (momentAt 1) noFaults prefaceLane
        (.tcpSegment wrongPreface))
      (handleInputOn protocolWire sampleClient (.numbered []) (fun _ => []) (momentAt 1) noFaults
        prefaceLane (.tcpSegment wrongPreface)) := by
  refine (contained_iff_spared protocolWire sampleClient (.numbered []) (fun _ => []) (momentAt 1)
    noFaults prefaceLane _ (eq_error_of_isError ?_)).mpr ?_
  · decide +kernel
  · have hnew : (prefaceLane.flows.get? ⟨⟨1, 50001⟩, ⟨2, 443⟩⟩).isNone = true := by decide +kernel
    exact ⟨Option.isNone_iff_eq_none.mp hnew, rfl⟩

/-- Where it goes wrong in the second segment, the flow is gone. -/
theorem not_contained_preface :
    ¬ ∀ (lane : ProtocolLane) (input : CaptureInput),
      (handleInputOn protocolWire sampleClient (.numbered []) (fun _ => []) (momentAt 1) noFaults
        lane input).1 = .error →
      Contained protocolWire lane (inputKey protocolWire input)
        (completedExchanges protocolWire sampleClient (momentAt 1) noFaults lane input)
        (handleInputOn protocolWire sampleClient (.numbered []) (fun _ => []) (momentAt 1) noFaults
          lane input) := by
  intro h
  have hcontained := h prefaceLane (.tcpSegment (flowSegment 1016 [0] false))
    (eq_error_of_isError (by decide +kernel))
  have hbefore : (prefaceLane.flows.get? ⟨⟨1, 50000⟩, ⟨2, 443⟩⟩).isSome = true := by
    decide +kernel
  have hafter : ((handleInputOn protocolWire sampleClient (.numbered []) (fun _ => [])
      (momentAt 1) noFaults prefaceLane
      (.tcpSegment (flowSegment 1016 [0] false))).2.flows.get? ⟨⟨1, 50000⟩, ⟨2, 443⟩⟩).isSome =
        false := by
    decide +kernel
  obtain ⟨flow, hflow⟩ := Option.isSome_iff_exists.mp hbefore
  rw [hcontained.flows _ flow hflow] at hafter
  cases hafter

end Codexwatch.Client
