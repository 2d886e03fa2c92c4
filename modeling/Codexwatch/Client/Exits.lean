import Codexwatch.Client.Application
import Codexwatch.Client.LastStep

/-!
# The tasks that end with a process

`ProcessExit` in `handle_input` of `client/src/capture_lane.rs`. The lane looks for the
tasks of a process in two places: among those that it has associated with the process, and
among the current tasks of its flows.

It misses a task whose exchange was projected before its flow was attributed, when another
exchange has followed, and every task that an earlier exit has taken out of the
map, even if that exit was not persisted.

## Main definitions

* `LaneHistory` — the tasks of the exchanges projected so far, by flow and by process.
* `EndsTasks` — the effect of an exit on the tasks of a process.
* `Kept` — the inputs that forget no task of a process.

## Main results

* `captures_flowWire` — the decoders of the flows complete exchanges of the one provider.
* `endsTasks_iff` — every reachable state.
-/
namespace Codexwatch.Client

open Protocol Capture Relational

/-! ## What an exit is for -/

/-- The tasks of the projected exchanges, of each flow and of the flows of each process. -/
structure LaneHistory (κ : Type) where
  onFlow : κ → List TaskKey
  ofProcess : Uuid → List TaskKey

def LaneHistory.empty {κ : Type} : LaneHistory κ := ⟨fun _ => [], fun _ => []⟩

section Lanes
variable {κ σ : Type} [DecidableEq κ] (wire : Wire κ σ) (client : ClientInstance) (codec : Codec)
  (toVec : List Json → Bytes)

/-- The history after an input. A flow that is attributed brings the tasks of its past along. -/
def LaneHistory.after (history : LaneHistory κ) (lane : Lane κ σ) (input : Moment × CaptureInput) :
    LaneHistory κ :=
  match segmentOf input.2 with
  | none => history
  | some (segment, processInstanceId, direction) =>
      match wire.flowKey segment with
      | none => history
      | some key =>
          let flow := flowOf wire input.1 lane segment processInstanceId direction key
          let earlier := if (lane.flows.get? key).isSome then history.onFlow key else []
          let tasks := earlier ++ (segmentConsumed wire client codec toVec input.1 lane segment
            processInstanceId direction key).tasks
          { onFlow := Function.update history.onFlow key tasks
            ofProcess := match flow.processInstanceId with
              | none => history.ofProcess
              | some id =>
                  Function.update history.ofProcess id (history.ofProcess id ++ tasks) }

/-- One input of a run that is recorded. -/
def recordedStep (x : LaneHistory κ × Lane κ σ) (input : Moment × CaptureInput) :
    LaneHistory κ × Lane κ σ :=
  (x.1.after wire client codec toVec x.2 input, step wire client codec toVec x.2 input)

/-- The exit ends these tasks where they are open, tells it once of each, changes no other task,
and does nothing when it is repeated. -/
structure EndsTasks (lane : Lane κ σ) (m : Moment) (process : ProcessSummary)
    (tasks : List TaskKey) : Prop where
  ended : ∀ task ∈ tasks, ∀ row, lane.store.activeTasks.get? task.taskRef = some row →
    row.phase ≠ .terminal →
      (∃ row', (step wire client codec toVec lane
          (m, .processExit process)).store.activeTasks.get? task.taskRef = some row' ∧
        EndedBy m.title process (process.exitedAt.getD m.now) task row row') ∧
      ∃ event, eventsFor wire client codec toVec lane (m, .processExit process) task.taskRef =
          [event] ∧ event.validate = .ok () ∧ event.sequence = row.sequence + 1 ∧
        event.phase = .terminal ∧ event.terminal = some (mapOutcome (lastOutcome process))
  others : ∀ taskRef, (∀ task ∈ tasks, task.taskRef = taskRef →
      (liveCursor lane.store task).isSome = false) →
    (step wire client codec toVec lane (m, .processExit process)).store.activeTasks.get? taskRef =
      lane.store.activeTasks.get? taskRef
  repeated : ∀ m', (step wire client codec toVec
      (step wire client codec toVec lane (m, .processExit process))
      (m', .processExit process)).store.activeTasks =
    (step wire client codec toVec lane (m, .processExit process)).store.activeTasks

/-- No exit of the process, and no flow with a projected exchange that becomes its own. -/
structure Kept (id : Uuid) (lane : Lane κ σ) (input : Moment × CaptureInput) : Prop where
  running : ∀ process, input.2 = .processExit process → process.processInstanceId ≠ id
  early : ∀ segment direction key flow, input.2 = .attributedTcpSegment segment id direction →
    wire.flowKey segment = some key → lane.flows.get? key = some flow →
    flow.processInstanceId = none → flow.currentTask = none

end Lanes

/-! ## What the lane remembers -/

section History
variable {κ σ : Type} [DecidableEq κ] {wire : Wire κ σ} {client : ClientInstance} {codec : Codec}
  {toVec : List Json → Bytes} {lane : Lane κ σ} {m : Moment} {s : Store} {flowId : Uuid}

theorem Stamped.step (h : Stamped lane.store) (input : Moment × CaptureInput) :
    Stamped (Client.step wire client codec toVec lane input).store := by
  intro taskRef row hrow
  rcases step_cases wire client codec toVec lane input with
    ⟨-, hsame⟩ | ⟨batch, -, -, -, hwritten⟩
  · rw [hsame] at hrow
    exact h taskRef row hrow
  · rw [hwritten] at hrow
    exact h.applyRecords (batch.records.map (normalizeRecord codec)) taskRef row hrow

/-- The current task after the items is one of theirs, or that from before when they have none. -/
theorem currentTask_foldl_consume (items : List (FlowItem × ℕ)) (acc : Consumed) :
    let consumed := items.foldl (consume client codec toVec m s flowId) acc
    (∀ task, consumed.currentTask = some task → task ∈ consumed.tasks ∨
        acc.currentTask = some task) ∧
      (consumed.currentTask = none → consumed.tasks = acc.tasks ∧ acc.currentTask = none) ∧
      ∀ task ∈ acc.tasks, task ∈ consumed.tasks := by
  induction items generalizing acc with
  | nil => exact ⟨fun _ => .inr, fun h => ⟨rfl, h⟩, fun _ => id⟩
  | cons item items ih =>
      rw [List.foldl_cons]
      rcases ih (consume client codec toVec m s flowId acc item) with ⟨hsome, hnone, hkept⟩
      simp only [consume] at hsome hnone hkept ⊢
      generalize itemTask (projectItem client codec toVec m s flowId acc.currentTask item.2 item.1)
        item.1 = task at hsome hnone hkept ⊢
      cases task with
      | none =>
          simp only [Option.none_or, Option.toList_none, List.append_nil] at hsome hnone hkept ⊢
          exact ⟨hsome, hnone, hkept⟩
      | some task =>
          simp only [Option.some_or, Option.toList_some] at hsome hnone hkept ⊢
          refine ⟨fun other hother => ?_, fun h => ?_, fun other hother =>
            hkept other (List.mem_append_left _ hother)⟩
          · rcases hsome other hother with hmem | hlast
            · exact .inl hmem
            · obtain rfl := Option.some.inj hlast
              exact .inl (hkept task (List.mem_append_right _ List.mem_cons_self))
          · cases (hnone h).2

theorem step_rest (wire : Wire κ σ) (client : ClientInstance) (codec : Codec)
    (toVec : List Json → Bytes) (lane : Lane κ σ) (input : Moment × CaptureInput) :
    (Client.step wire client codec toVec lane input).flows =
        (handleInput wire client codec toVec input.1 lane input.2).2.flows ∧
      (Client.step wire client codec toVec lane input).processTasks =
        (handleInput wire client codec toVec input.1 lane input.2).2.processTasks := by
  rw [Client.step, ingestInput]
  split
  · exact ⟨rfl, rfl⟩
  · exact ⟨rfl, rfl⟩
  · split <;> exact ⟨rfl, rfl⟩

theorem handleInput_of_segmentOf {input : CaptureInput} {segment : TcpSegment}
    {processInstanceId : Option Uuid} {direction : Option ProcessFlowDirection}
    (hof : segmentOf input = some (segment, processInstanceId, direction)) :
    handleInput wire client codec toVec m lane input =
      handleSegment wire client codec toVec m lane segment processInstanceId direction := by
  cases input with
  | tcpSegment segment => cases hof; rfl
  | attributedTcpSegment segment processInstanceId direction => cases hof; rfl
  | captureGap flowId task observedAt reason lostBytes => cases hof
  | processObserved process => cases hof
  | processExit process => cases hof

theorem mem_tasksOf_associate {table : Table Uuid (List TaskKey)} {processInstanceId : Option Uuid}
    {tasks : List TaskKey} {id : Uuid} {task : TaskKey} :
    task ∈ ((tasks.foldl (fun table task => associateTask table processInstanceId task)
        table).get? id).getD [] ↔
      task ∈ (table.get? id).getD [] ∨ processInstanceId = some id ∧ task ∈ tasks := by
  induction tasks generalizing table with
  | nil => simp
  | cons first tasks ih =>
      rw [List.foldl_cons, ih, List.mem_cons]
      cases processInstanceId with
      | none => simp [associateTask]
      | some process =>
          rw [associateTask, Table.get?_put]
          by_cases hid : id = process
          · subst hid
            simp [List.mem_insert_iff]
            tauto
          · simp [hid, Ne.symm hid]

section Segment
variable {input : Moment × CaptureInput} {segment : TcpSegment} {processInstanceId : Option Uuid}
  {direction : Option ProcessFlowDirection} {key : κ}

variable (client codec toVec lane) in
/-- What a segment does with the flows and with the tasks of the processes. -/
theorem step_segment (hof : segmentOf input.2 = some (segment, processInstanceId, direction))
    (hkey : wire.flowKey segment = some key) :
    (∀ k, (Client.step wire client codec toVec lane input).flows.get? k =
      if k = key then (segmentOutcome wire client codec toVec input.1 lane segment
        processInstanceId direction key).flow
      else lane.flows.get? k) ∧
    ∀ id task, task ∈ tasksOf (Client.step wire client codec toVec lane input) id ↔
      task ∈ tasksOf lane id ∨
        (flowOf wire input.1 lane segment processInstanceId direction key).processInstanceId =
            some id ∧
          task ∈ (segmentConsumed wire client codec toVec input.1 lane segment processInstanceId
            direction key).tasks := by
  have hrest := step_rest wire client codec toVec lane input
  rw [handleInput_of_segmentOf hof, handleSegment_eq _ _ _ _ _ _ _ _ _ hkey] at hrest
  have houtcome : (segmentOutcome wire client codec toVec input.1 lane segment processInstanceId
      direction key).processInstanceId =
        (flowOf wire input.1 lane segment processInstanceId direction key).processInstanceId ∧
      (segmentOutcome wire client codec toVec input.1 lane segment processInstanceId direction
        key).tasks = (segmentConsumed wire client codec toVec input.1 lane segment
          processInstanceId direction key).tasks := by
    simp only [segmentOutcome]
    split <;> exact ⟨rfl, rfl⟩
  refine ⟨fun k => ?_, fun id task => ?_⟩
  · rw [hrest.1, Lane.get?_after]
  · rw [tasksOf, hrest.2, Lane.after, mem_tasksOf_associate, houtcome.1, houtcome.2, tasksOf]

/-- The flow that a segment leaves. -/
theorem flow_segmentOutcome {flow : FlowState σ}
    (h : (segmentOutcome wire client codec toVec m lane segment processInstanceId direction
      key).flow = some flow) :
    flow.processInstanceId =
        (flowOf wire m lane segment processInstanceId direction key).processInstanceId ∧
      flow.currentTask = (segmentConsumed wire client codec toVec m lane segment processInstanceId
        direction key).currentTask := by
  simp only [segmentOutcome] at h
  split at h
  · cases h
  · cases h
  · cases h
    exact ⟨rfl, rfl⟩

theorem mem_of_mem_reached {faults : StoreFaults} {current : Option TaskKey} {item : FlowItem}
    {items : List (FlowItem × ℕ)} (h : item ∈ reached client faults s current items) :
    ∃ n, (item, n) ∈ items := by
  induction items generalizing current with
  | nil => cases h
  | cons first items ih =>
      rw [reached] at h
      split at h
      · cases h
      · rcases List.mem_cons.mp h with rfl | hmem
        · exact ⟨first.2, List.mem_cons_self⟩
        · rcases ih hmem with ⟨n, hn⟩
          exact ⟨n, List.mem_cons_of_mem _ hn⟩

/-- The tasks of a segment are those of exchanges that it completes. -/
theorem exists_exchange_of_mem {task : TaskKey}
    (h : task ∈ (segmentConsumed wire client codec toVec m lane segment processInstanceId direction
      key).tasks) :
    ∃ exchange, .exchange exchange ∈ (wire.push m.toTick
        (flowOf wire m lane segment processInstanceId direction key).decoders segment direction).1 ∧
      task = exchangeTask client exchange := by
  have htasks := @tasks_consumeOn client codec toVec m noFaults lane.store
    (flowOf wire m lane segment processInstanceId direction key).flowId
    ⟨(flowOf wire m lane segment processInstanceId direction key).currentTask, [],
      CaptureBatch.empty⟩
    (wire.push m.toTick (flowOf wire m lane segment processInstanceId direction key).decoders segment
      direction).1.zipIdx
  rw [consumeOn_noFaults, List.nil_append] at htasks
  rw [segmentConsumed, htasks] at h
  rcases List.mem_map.mp h with ⟨exchange, hmem, rfl⟩
  refine ⟨exchange, ?_, rfl⟩
  rcases List.mem_filterMap.mp hmem with ⟨item, hitem, hexchange⟩
  cases item with
  | gap reason lostBytes => cases hexchange
  | exchange other =>
      obtain rfl : other = exchange := by
        dsimp only at hexchange
        split at hexchange
        · exact Option.some.inj hexchange
        · cases hexchange
      rcases mem_of_mem_reached hitem with ⟨n, hn⟩
      exact List.fst_mem_of_mem_zipIdx hn

end Segment

/-- The client's own task. -/
def OwnTask (client : ClientInstance) (task : TaskKey) : Prop :=
  task.clientId = client.clientId ∧ task.provider = "codex"

/-- The decoders complete exchanges of the one provider that is captured. -/
def Wire.Captures (wire : Wire κ σ) : Prop :=
  ∀ t state segment direction exchange,
    .exchange exchange ∈ (wire.push t state segment direction).1 →
      exchange.attempt.identity.provider = "codex"

/-- The decoders of the flows do. -/
theorem captures_flowWire {ι η : Type} [LinearOrder ι] (parseIp : String → Option ι)
    (library : ApplicationLibrary η) : (flowWire parseIp (protocols library)).Captures := by
  intro t d segment direction exchange hmem
  have hgap (reason : String) (lostBytes : Option ℕ) (result : Capture.AssemblerResult) :
      .exchange exchange ∉ gapOf reason lostBytes result := by
    cases result <;> simp [gapOf]
  have haccepted (d : FlowDecoders ι (FlowProtocol η)) (direction : Direction)
      (hmem : .exchange exchange ∈ (d.accept (protocols library) segment t direction).1) :
      exchange.attempt.identity.provider = "codex" := by
    simp only [FlowDecoders.accept] at hmem
    split at hmem
    · obtain ⟨completed, hcompleted, heq⟩ := List.mem_map.mp hmem
      cases heq
      exact (ofDecoded_provider library).processBytes t _ _ _ exchange hcompleted
    · exact absurd hmem (hgap _ _ _)
  simp only [flowWire, FlowDecoders.push] at hmem
  split at hmem
  · exact haccepted _ _ hmem
  · obtain hmem | hmem := List.mem_append.mp hmem
    · exact haccepted _ _ hmem
    · rw [FlowDecoders.close] at hmem
      split at hmem
      · exact absurd hmem (hgap _ _ _)
      · cases hmem

/-- All that the lane has of a process is in the history. -/
structure Covers (client : ClientInstance) (x : LaneHistory κ × Lane κ σ) : Prop where
  stamped : Stamped x.2.store
  ownFlow : ∀ key, ∀ task ∈ x.1.onFlow key, OwnTask client task
  ownProcess : ∀ id, ∀ task ∈ x.1.ofProcess id, OwnTask client task
  tasks : ∀ id, ∀ task ∈ tasksOf x.2 id, task ∈ x.1.ofProcess id
  current : ∀ key flow task, x.2.flows.get? key = some flow → flow.currentTask = some task →
    task ∈ x.1.onFlow key
  flows : ∀ key flow id, x.2.flows.get? key = some flow → flow.processInstanceId = some id →
    ∀ task ∈ x.1.onFlow key, task ∈ x.1.ofProcess id

/-- The lane has all that the history has of the process. -/
structure Remembers (id : Uuid) (x : LaneHistory κ × Lane κ σ) : Prop where
  tasks : ∀ task ∈ x.1.ofProcess id, task ∈ tasksOf x.2 id
  idle : ∀ key flow, x.2.flows.get? key = some flow → flow.currentTask = none →
    x.1.onFlow key = []

variable {x : LaneHistory κ × Lane κ σ} {input : Moment × CaptureInput}

/-- An input that is no segment leaves the flows, and takes tasks at most. -/
theorem step_of_segmentOf_none (h : segmentOf input.2 = none) :
    (Client.step wire client codec toVec lane input).flows = lane.flows ∧
      ∀ id, ((∀ process, input.2 = .processExit process → process.processInstanceId ≠ id) →
          tasksOf (Client.step wire client codec toVec lane input) id = tasksOf lane id) ∧
        ∀ task ∈ tasksOf (Client.step wire client codec toVec lane input) id,
          task ∈ tasksOf lane id := by
  have hrest := step_rest wire client codec toVec lane input
  rcases input with ⟨m, input⟩
  cases input with
  | tcpSegment segment => cases h
  | attributedTcpSegment segment processInstanceId direction => cases h
  | captureGap flowId task observedAt reason lostBytes =>
      have hsame (id : Uuid) : tasksOf (Client.step wire client codec toVec lane
          (m, .captureGap flowId task observedAt reason lostBytes)) id = tasksOf lane id :=
        congrArg (fun table => (Table.get? table id).getD []) hrest.2
      exact ⟨hrest.1, fun id => ⟨fun _ => hsame id, fun task hmem => hsame id ▸ hmem⟩⟩
  | processObserved process =>
      have hsame (id : Uuid) : tasksOf (Client.step wire client codec toVec lane
          (m, .processObserved process)) id = tasksOf lane id :=
        congrArg (fun table => (Table.get? table id).getD []) hrest.2
      exact ⟨hrest.1, fun id => ⟨fun _ => hsame id, fun task hmem => hsame id ▸ hmem⟩⟩
  | processExit process =>
      refine ⟨hrest.1, fun id => ?_⟩
      have htasks : tasksOf (Client.step wire client codec toVec lane (m, .processExit process)) id =
          if id = process.processInstanceId then [] else tasksOf lane id := by
        rw [tasksOf, hrest.2, handleInput_exit, Table.get?_deleteWhere, tasksOf]
        cases lane.processTasks.get? id <;> by_cases hid : id = process.processInstanceId <;>
          simp [hid, Option.filter]
      rw [htasks]
      refine ⟨fun hother => if_neg (hother process rfl).symm, fun task hmem => ?_⟩
      split at hmem
      · cases hmem
      · exact hmem

/-- The tasks that a segment finds on its flow. -/
def earlierTasks (x : LaneHistory κ × Lane κ σ) (key : κ) : List TaskKey :=
  if (x.2.flows.get? key).isSome then x.1.onFlow key else []

section Segment
variable {segment : TcpSegment} {processInstanceId : Option Uuid}
  {direction : Option ProcessFlowDirection} {key : κ}

variable (client codec toVec x) in
/-- The history after a segment. -/
theorem after_segment (hof : segmentOf input.2 = some (segment, processInstanceId, direction))
    (hkey : wire.flowKey segment = some key) :
    (∀ k, (recordedStep wire client codec toVec x input).1.onFlow k =
      if k = key then earlierTasks x key ++ (segmentConsumed wire client codec toVec input.1 x.2
        segment processInstanceId direction key).tasks
      else x.1.onFlow k) ∧
    ∀ id, (recordedStep wire client codec toVec x input).1.ofProcess id =
      if (flowOf wire input.1 x.2 segment processInstanceId direction key).processInstanceId = some id
      then x.1.ofProcess id ++ (earlierTasks x key ++ (segmentConsumed wire client codec toVec
        input.1 x.2 segment processInstanceId direction key).tasks)
      else x.1.ofProcess id := by
  simp only [recordedStep, LaneHistory.after, hof, hkey, earlierTasks]
  refine ⟨fun k => ?_, fun id => ?_⟩
  · rw [Function.update_apply]
  · cases (flowOf wire input.1 x.2 segment processInstanceId direction key).processInstanceId with
    | none => rfl
    | some process =>
        dsimp only
        rw [Function.update_apply]
        by_cases hid : id = process
        · rw [hid, if_pos rfl, if_pos rfl]
        · rw [if_neg hid, if_neg fun h => hid (Option.some.inj h).symm]

/-- The current task that a segment finds was projected on its flow. -/
theorem Covers.mem_earlierTasks (h : Covers client x) {task : TaskKey}
    (hcurrent : (flowOf wire m x.2 segment processInstanceId direction key).currentTask =
      some task) : task ∈ earlierTasks x key := by
  cases hflow : x.2.flows.get? key with
  | none =>
      rw [flowOf, hflow] at hcurrent
      cases hcurrent
  | some flow =>
      rw [flowOf, hflow] at hcurrent
      rw [earlierTasks, hflow, Option.isSome_some, if_pos rfl]
      exact h.current key flow task hflow hcurrent

theorem Covers.step_segment (hprovider : wire.Captures) (h : Covers client x)
    (hof : segmentOf input.2 = some (segment, processInstanceId, direction))
    (hkey : wire.flowKey segment = some key) :
    Covers client (recordedStep wire client codec toVec x input) := by
  have hown (task : TaskKey) (hmem : task ∈ earlierTasks x key ++ (segmentConsumed wire client
      codec toVec input.1 x.2 segment processInstanceId direction key).tasks) :
      OwnTask client task := by
    rcases List.mem_append.mp hmem with hearlier | hnew
    · rw [earlierTasks] at hearlier
      split at hearlier
      · exact h.ownFlow key task hearlier
      · cases hearlier
    · rcases exists_exchange_of_mem hnew with ⟨exchange, hexchange, rfl⟩
      exact ⟨rfl, hprovider _ _ _ _ exchange hexchange⟩
  rcases after_segment client codec toVec x hof hkey with ⟨honFlow, hofProcess⟩
  have hgrows (id : Uuid) (task : TaskKey) (hmem : task ∈ x.1.ofProcess id) :
      task ∈ (recordedStep wire client codec toVec x input).1.ofProcess id := by
    rw [hofProcess]
    split
    · exact List.mem_append_left _ hmem
    · exact hmem
  rcases Client.step_segment client codec toVec x.2 hof hkey with ⟨hflows, htasks⟩
  refine ⟨h.stamped.step input, ?_, ?_, ?_, ?_, ?_⟩
  · intro k task hmem
    rw [honFlow] at hmem
    split at hmem
    · exact hown task hmem
    · exact h.ownFlow k task hmem
  · intro id task hmem
    rw [hofProcess] at hmem
    split at hmem
    · exact (List.mem_append.mp hmem).elim (h.ownProcess id task) (hown task)
    · exact h.ownProcess id task hmem
  · intro id task hmem
    rcases (htasks id task).mp hmem with hold | ⟨hprocess, hnew⟩
    · exact hgrows id task (h.tasks id task hold)
    · rw [hofProcess, if_pos hprocess]
      exact List.mem_append_right _ (List.mem_append_right _ hnew)
  · intro k flow task hflow hcurrent
    replace hflow := (hflows k).symm.trans hflow
    rw [honFlow]
    split at hflow
    · rw [if_pos ‹_›]
      rw [(flow_segmentOutcome hflow).2, segmentConsumed] at hcurrent
      rcases (currentTask_foldl_consume _ _).1 task hcurrent with hnew | hold
      · exact List.mem_append_right _ hnew
      · exact List.mem_append_left _ (h.mem_earlierTasks hold)
    · rw [if_neg ‹_›]
      exact h.current k flow task hflow hcurrent
  · intro k flow id hflow hprocess task hmem
    replace hflow := (hflows k).symm.trans hflow
    rw [honFlow] at hmem
    split at hflow
    · rw [if_pos ‹_›] at hmem
      rw [hofProcess, if_pos ((flow_segmentOutcome hflow).1.symm.trans hprocess)]
      exact List.mem_append_right _ hmem
    · rw [if_neg ‹_›] at hmem
      exact hgrows id task (h.flows k flow id hflow hprocess task hmem)

/-- A flow that a segment of the process joins late has no tasks yet. -/
theorem Remembers.mem_of_mem_earlierTasks {id : Uuid} (h : Covers client x) (h' : Remembers id x)
    (hkept : Kept wire id x.2 input)
    (hof : segmentOf input.2 = some (segment, processInstanceId, direction))
    (hkey : wire.flowKey segment = some key)
    (hprocess : (flowOf wire input.1 x.2 segment processInstanceId direction
      key).processInstanceId = some id) {task : TaskKey} (hmem : task ∈ earlierTasks x key) :
    task ∈ x.1.ofProcess id := by
  rw [earlierTasks] at hmem
  cases hflow : x.2.flows.get? key with
  | none =>
      rw [hflow] at hmem
      cases hmem
  | some flow =>
      rw [hflow, Option.isSome_some, if_pos rfl] at hmem
      rw [flowOf, hflow, Option.getD_some] at hprocess
      cases hjoined : flow.processInstanceId with
      | some other =>
          rw [hjoined, Option.some_or] at hprocess
          exact h.flows key flow id hflow (hjoined.trans hprocess) task hmem
      | none =>
          rw [hjoined, Option.none_or] at hprocess
          have hinput : ∃ d, input.2 = .attributedTcpSegment segment id d := by
            cases hcase : input.2 with
            | attributedTcpSegment other process d =>
                rw [hcase] at hof
                cases hof
                cases hprocess
                exact ⟨d, rfl⟩
            | tcpSegment other =>
                rw [hcase] at hof
                cases hof
                cases hprocess
            | _ =>
                rw [hcase] at hof
                cases hof
          rcases hinput with ⟨d, hinput⟩
          have hidle := hkept.early segment d key flow hinput hkey hflow hjoined
          rw [h'.idle key flow hflow hidle] at hmem
          cases hmem

theorem Remembers.step_segment {id : Uuid} (h : Covers client x) (h' : Remembers id x)
    (hkept : Kept wire id x.2 input)
    (hof : segmentOf input.2 = some (segment, processInstanceId, direction))
    (hkey : wire.flowKey segment = some key) :
    Remembers id (recordedStep wire client codec toVec x input) := by
  rcases after_segment client codec toVec x hof hkey with ⟨honFlow, hofProcess⟩
  rcases Client.step_segment client codec toVec x.2 hof hkey with ⟨hflows, htasks⟩
  constructor
  · intro task hmem
    refine (htasks id task).mpr ?_
    rw [hofProcess] at hmem
    split at hmem
    · rename_i hprocess
      rcases List.mem_append.mp hmem with hold | hmem
      · exact .inl (h'.tasks task hold)
      · rcases List.mem_append.mp hmem with hearlier | hnew
        · exact .inl (h'.tasks task
            (h'.mem_of_mem_earlierTasks h hkept hof hkey hprocess hearlier))
        · exact .inr ⟨hprocess, hnew⟩
    · exact .inl (h'.tasks task hmem)
  · intro k flow hflow hcurrent
    replace hflow := (hflows k).symm.trans hflow
    rw [honFlow]
    split at hflow
    · rw [if_pos ‹_›]
      rw [(flow_segmentOutcome hflow).2, segmentConsumed] at hcurrent
      have hnone := (currentTask_foldl_consume _ _).2.1 hcurrent
      rw [segmentConsumed, hnone.1, List.append_nil, earlierTasks]
      cases hfound : x.2.flows.get? key with
      | none => rfl
      | some old =>
          rw [Option.isSome_some, if_pos rfl]
          have hold := hnone.2
          rw [flowOf, hfound] at hold
          exact h'.idle key old hfound hold
    · rw [if_neg ‹_›]
      exact h'.idle k flow hflow hcurrent

end Segment

variable (client codec toVec x) in
/-- An input that is no segment, or one whose addresses do not parse. -/
theorem recordedStep_of_none (h : ∀ segment processInstanceId direction,
    segmentOf input.2 = some (segment, processInstanceId, direction) →
      wire.flowKey segment = none) :
    (recordedStep wire client codec toVec x input).1 = x.1 ∧
      (recordedStep wire client codec toVec x input).2.flows = x.2.flows ∧
      ∀ id, ((∀ process, input.2 = .processExit process → process.processInstanceId ≠ id) →
          tasksOf (recordedStep wire client codec toVec x input).2 id = tasksOf x.2 id) ∧
        ∀ task ∈ tasksOf (recordedStep wire client codec toVec x input).2 id,
          task ∈ tasksOf x.2 id := by
  cases hof : segmentOf input.2 with
  | none =>
      refine ⟨?_, step_of_segmentOf_none hof⟩
      simp only [recordedStep, LaneHistory.after, hof]
  | some found =>
      rcases found with ⟨segment, processInstanceId, direction⟩
      have hkey := h segment processInstanceId direction hof
      have hrest := step_rest wire client codec toVec x.2 input
      rw [handleInput_of_segmentOf hof, handleSegment, hkey] at hrest
      have hsame (id : Uuid) : tasksOf (recordedStep wire client codec toVec x input).2 id =
          tasksOf x.2 id := congrArg (fun table => (Table.get? table id).getD []) hrest.2
      refine ⟨?_, hrest.1, fun id => ⟨fun _ => hsame id, fun task hmem => hsame id ▸ hmem⟩⟩
      simp only [recordedStep, LaneHistory.after, hof, hkey]

omit [DecidableEq κ] in
theorem segment_or_none (wire : Wire κ σ) (input : Moment × CaptureInput) :
    (∃ segment processInstanceId direction key,
      segmentOf input.2 = some (segment, processInstanceId, direction) ∧
        wire.flowKey segment = some key) ∨
    ∀ segment processInstanceId direction,
      segmentOf input.2 = some (segment, processInstanceId, direction) →
        wire.flowKey segment = none := by
  by_contra! hneither
  rcases hneither with ⟨hnone, segment, processInstanceId, direction, hof, hkey⟩
  rcases Option.ne_none_iff_exists'.mp hkey with ⟨key, hkey⟩
  exact hnone segment processInstanceId direction key hof hkey

theorem Covers.step (hprovider : wire.Captures) (h : Covers client x)
    (input : Moment × CaptureInput) :
    Covers client (recordedStep wire client codec toVec x input) := by
  rcases segment_or_none wire input with ⟨segment, processInstanceId, direction, key, hof, hkey⟩ |
    hnone
  · exact h.step_segment hprovider hof hkey
  · rcases recordedStep_of_none client codec toVec x hnone with ⟨hhistory, hflows, htasks⟩
    refine ⟨h.stamped.step input, hhistory ▸ h.ownFlow, hhistory ▸ h.ownProcess, ?_, ?_, ?_⟩
    · exact fun id task hmem => hhistory ▸ h.tasks id task ((htasks id).2 task hmem)
    · exact fun key flow task hflow => hhistory ▸ h.current key flow task (hflows ▸ hflow)
    · exact fun key flow id hflow => hhistory ▸ h.flows key flow id (hflows ▸ hflow)

theorem Remembers.step {id : Uuid} (h : Covers client x) (h' : Remembers id x)
    {input : Moment × CaptureInput} (hkept : Kept wire id x.2 input) :
    Remembers id (recordedStep wire client codec toVec x input) := by
  rcases segment_or_none wire input with ⟨segment, processInstanceId, direction, key, hof, hkey⟩ |
    hnone
  · exact h'.step_segment h hkept hof hkey
  · rcases recordedStep_of_none client codec toVec x hnone with ⟨hhistory, hflows, htasks⟩
    refine ⟨fun task hmem => ?_, fun key flow hflow hcurrent => ?_⟩
    · rw [(htasks id).1 hkept.running]
      exact h'.tasks task (hhistory ▸ hmem)
    · rw [hhistory]
      exact h'.idle key flow (hflows ▸ hflow) hcurrent

end History

/-! ## Every reachable state -/

/-- Ids that make the reference of a task unique. -/
def PlainIds (task : TaskKey) : Prop :=
  ':' ∉ task.sessionId.toList ∧ ':' ∉ task.threadId.toList ∧ ':' ∉ task.turnId.toList

instance (task : TaskKey) : Decidable (PlainIds task) := inferInstanceAs (Decidable (_ ∧ _))

theorem eq_of_taskRef_eq {client : ClientInstance} {task other : TaskKey}
    (hown : OwnTask client task) (hown' : OwnTask client other) (hids : PlainIds task)
    (hids' : PlainIds other) (h : task.taskRef = other.taskRef) : task = other := by
  have hchars := congrArg String.toList h
  have hcolon : (":" : String).toList = [':'] := rfl
  simp only [TaskKey.taskRef, String.toList_append, hcolon, List.append_assoc,
    List.cons_append, List.nil_append] at hchars
  rcases Text.append_cons_inj hids.1 hids'.1 hchars with ⟨hsession, hrest⟩
  rcases Text.append_cons_inj hids.2.1 hids'.2.1 hrest with ⟨hthread, hturn⟩
  rcases task with ⟨clientId, provider, sessionId, threadId, turnId⟩
  rcases other with ⟨clientId', provider', sessionId', threadId', turnId'⟩
  simp only [TaskKey.mk.injEq]
  exact ⟨hown.1.trans hown'.1.symm, hown.2.trans hown'.2.symm, String.toList_injective hsession,
    String.toList_injective hthread, String.toList_injective hturn⟩

section Main
variable {κ σ : Type} [DecidableEq κ] (wire : Wire κ σ) (client : ClientInstance) (codec : Codec)
  (toVec : List Json → Bytes)

/-- A run of a fresh lane over the store, with its history. -/
def recordedRun (s : Store) (inputs : List (Moment × CaptureInput)) : LaneHistory κ × Lane κ σ :=
  Run.run (recordedStep wire client codec toVec) (.empty, ⟨s, .empty, .empty⟩) inputs

/-- Recording does not disturb the lane. -/
theorem lane_recordedRun (x : LaneHistory κ × Lane κ σ) (inputs : List (Moment × CaptureInput)) :
    (Run.run (recordedStep wire client codec toVec) x inputs).2 =
      Run.run (step wire client codec toVec) x.2 inputs := by
  induction inputs generalizing x with
  | nil => rfl
  | cons input inputs ih => exact ih _

variable {wire client codec toVec} {x : LaneHistory κ × Lane κ σ} {m : Moment}
  {process : ProcessSummary} {s : Store}

theorem covers_start (hstamped : Stamped s) :
    Covers client ((.empty, ⟨s, .empty, .empty⟩) : LaneHistory κ × Lane κ σ) where
  stamped := hstamped
  ownFlow _ _ h := by cases h
  ownProcess _ _ h := by cases h
  tasks _ _ h := by cases h
  current _ _ _ h := by cases h
  flows _ _ _ h := by cases h

variable (client codec toVec) in
theorem covers_recordedRun (hprovider : wire.Captures) (hstamped : Stamped s)
    (inputs : List (Moment × CaptureInput)) :
    Covers client (recordedRun wire client codec toVec s inputs) :=
  Run.invariant (fun _ input h => h.step hprovider input) (covers_start hstamped) inputs

theorem mem_exitTasks {lane : Lane κ σ} {task : TaskKey} : task ∈ exitTasks lane process ↔
    task ∈ tasksOf lane process.processInstanceId ∨
      task ∈ flowTasks lane process.processInstanceId := by
  rw [exitTasks, List.mem_dedup, List.mem_append, tasksOf]

theorem Covers.mem_of_mem_exitTasks (h : Covers client x) {task : TaskKey}
    (hmem : task ∈ exitTasks x.2 process) : task ∈ x.1.ofProcess process.processInstanceId := by
  rcases mem_exitTasks.mp hmem with hassociated | hseen
  · exact h.tasks _ task hassociated
  · rcases List.mem_filterMap.mp hseen with ⟨⟨key, flow⟩, hrow, hcurrent⟩
    rcases List.mem_filter.mp hrow with ⟨hrow, hprocess⟩
    have hflow := Table.mem_rows_iff.mp hrow
    exact h.flows key flow _ hflow (of_decide_eq_true hprocess) task
      (h.current key flow task hflow hcurrent)

theorem Covers.identified (h : Covers client x)
    (hids : ∀ task ∈ x.1.ofProcess process.processInstanceId, PlainIds task) :
    Identified (x.1.ofProcess process.processInstanceId) :=
  fun task hmem other hother => eq_of_taskRef_eq (h.ownProcess _ task hmem)
    (h.ownProcess _ other hother) (hids task hmem) (hids other hother)

/-- The tasks that the exit walks are ended, and no others. -/
theorem endsTasks_of_forall (h : Covers client x)
    (hids : Identified (x.1.ofProcess process.processInstanceId)) {outcome : PersistOutcome}
    (hpersisted : (ingestInput wire client codec toVec m x.2 (.processExit process)).1 =
      .persisted outcome)
    (hkept : ∀ task ∈ x.1.ofProcess process.processInstanceId,
      (liveCursor x.2.store task).isSome = true → task ∈ exitTasks x.2 process) :
    EndsTasks wire client codec toVec x.2 m process
      (x.1.ofProcess process.processInstanceId) := by
  have hidentified : Identified (exitTasks x.2 process) := fun task hmem other hother =>
    hids task (h.mem_of_mem_exitTasks hmem) other (h.mem_of_mem_exitTasks hother)
  have hended (task : TaskKey) (hmem : task ∈ exitTasks x.2 process) (row : TaskRow)
      (hrow : x.2.store.activeTasks.get? task.taskRef = some row) (hphase : row.phase ≠ .terminal) :=
    acceptedRecords_exit hidentified hpersisted hmem hrow hphase
  have hlive (task : TaskKey) (row : TaskRow)
      (hrow : x.2.store.activeTasks.get? task.taskRef = some row) (hphase : row.phase ≠ .terminal) :
      (liveCursor x.2.store task).isSome = true := by
    simp [liveCursor, loadTaskCursor, hrow, Option.filter_some, TaskRow.cursor, hphase]
  refine ⟨fun task hmem row hrow hphase => ?_, fun taskRef hnone => ?_, fun m' => ?_⟩
  · rcases hended task (hkept task hmem (hlive task row hrow hphase)) row hrow hphase with
      ⟨eventId, errorId, hstored, hevents⟩
    refine ⟨⟨_, hstored, endedBy_withSummary (h.stamped _ row hrow)⟩, _, hevents, ?_, rfl, rfl,
      congrArg (fun outcome => some (mapOutcome outcome)) (fst_exitOutcome process)⟩
    have hevent := hevents ▸ List.mem_cons_self
    rw [eventsFor, (step_exit hpersisted).2.1] at hevent
    rcases List.mem_flatMap.mp hevent with ⟨upload, hupload, hmem⟩
    exact (valid_of_mem_persistedUploads (List.mem_of_mem_filter hupload)).event _ hmem
  · exact get?_step_exit_of_ne hpersisted taskRef fun task hmem =>
      hnone task (h.mem_of_mem_exitTasks hmem)
  · refine activeTasks_step_exit fun task hmem => ?_
    have hbefore : task ∈ exitTasks x.2 process := by
      rw [mem_exitTasks, tasksOf_step_exit, flowTasks, flows_step_exit] at hmem
      exact mem_exitTasks.mpr (.inr (hmem.resolve_left (by simp)))
    cases hcursor : liveCursor x.2.store task with
    | some cursor =>
        rcases exists_row_of_liveCursor hcursor with ⟨row, hrow, -, hphase⟩
        rcases hended task hbefore row hrow hphase with ⟨eventId, errorId, hstored, -⟩
        rw [liveCursor, loadTaskCursor, hstored]
        rfl
    | none =>
        have hsame := get?_step_exit_of_ne hpersisted task.taskRef
          fun other hother href => by
            rw [hidentified other hother task hbefore href, hcursor]
            rfl
        rwa [liveCursor, loadTaskCursor, hsame]

theorem remembers_start {id : Uuid} :
    Remembers id ((.empty, ⟨s, .empty, .empty⟩) : LaneHistory κ × Lane κ σ) where
  tasks _ h := by cases h
  idle _ _ h := by cases h

/-- A run that forgets no task of a process. -/
theorem remembers_run {id : Uuid} (hprovider : wire.Captures) (h : Covers client x)
    (h' : Remembers id x) {inputs : List (Moment × CaptureInput)}
    (hkept : Run.Each (step wire client codec toVec) (Kept wire id) x.2 inputs) :
    Remembers id (Run.run (recordedStep wire client codec toVec) x inputs) := by
  induction inputs generalizing x with
  | nil => exact h'
  | cons input inputs ih => exact ih (h.step hprovider input) (h'.step h hkept.1) hkept.2

/-- In every reachable state an exit that is persisted ends the tasks of its process exactly where
the lane still has those that are open. It has them after a run that forgets none. -/
theorem endsTasks_iff (wire : Wire κ σ) (client : ClientInstance) (codec : Codec)
    (toVec : List Json → Bytes) (hprovider : wire.Captures) (s : Store) (hstamped : Stamped s)
    (inputs : List (Moment × CaptureInput)) (m : Moment) (process : ProcessSummary)
    (hids : ∀ task ∈ (recordedRun wire client codec toVec s inputs).1.ofProcess
      process.processInstanceId, PlainIds task)
    (outcome : PersistOutcome)
    (hpersisted : (ingestInput wire client codec toVec m
      (recordedRun wire client codec toVec s inputs).2 (.processExit process)).1 =
        .persisted outcome) :
    (EndsTasks wire client codec toVec (recordedRun wire client codec toVec s inputs).2 m process
        ((recordedRun wire client codec toVec s inputs).1.ofProcess process.processInstanceId) ↔
      ∀ task ∈ (recordedRun wire client codec toVec s inputs).1.ofProcess
          process.processInstanceId,
        (liveCursor (recordedRun wire client codec toVec s inputs).2.store task).isSome = true →
          task ∈ exitTasks (recordedRun wire client codec toVec s inputs).2 process) ∧
    (Run.Each (step wire client codec toVec) (Kept wire process.processInstanceId)
        ⟨s, .empty, .empty⟩ inputs →
      EndsTasks wire client codec toVec (recordedRun wire client codec toVec s inputs).2 m process
        ((recordedRun wire client codec toVec s inputs).1.ofProcess
          process.processInstanceId)) := by
  have hcovers := covers_recordedRun client codec toVec hprovider hstamped inputs
  have hidentified := hcovers.identified hids
  refine ⟨⟨fun h task hmem hlive => ?_, endsTasks_of_forall hcovers hidentified hpersisted⟩,
    fun hkept => endsTasks_of_forall hcovers hidentified hpersisted fun task hmem _ => ?_⟩
  · -- a task that is not walked keeps its row
    by_contra hforgotten
    rcases Option.isSome_iff_exists.mp hlive with ⟨cursor, hcursor⟩
    rcases exists_row_of_liveCursor hcursor with ⟨row, hrow, -, hphase⟩
    rcases (h.ended task hmem row hrow hphase).1 with ⟨row', hrow', hended⟩
    rw [get?_step_exit_of_ne hpersisted task.taskRef fun other hother href => ?_] at hrow'
    · obtain rfl := Option.some.inj (hrow.symm.trans hrow')
      exact hphase hended.phase
    · have hsame := hidentified other (hcovers.mem_of_mem_exitTasks hother) task hmem href
      exact absurd (hsame ▸ hother) hforgotten
  · have hremembers : Remembers process.processInstanceId
        (recordedRun wire client codec toVec s inputs) :=
      remembers_run hprovider (covers_start hstamped) remembers_start hkept
    exact mem_exitTasks.mpr (.inl (hremembers.tasks task hmem))

end Main

/-! ## Two exits of one process -/

/-- Decoders as those of a turn, for a flow that ends with its first FIN. -/
def endingWire : Wire Unit Unit where
  flowKey _ := some ()
  start _ _ := ()
  push _ _ segment _ := (segment.payload.map fun byte => .exchange (turnExchange byte),
    if segment.fin then .closed else .ready ())

theorem captures_endingWire : endingWire.Captures := by
  intro t state segment direction exchange hmem
  rcases List.mem_map.mp hmem with ⟨byte, -, heq⟩
  cases heq
  rw [turnExchange]
  split <;> rfl

/-- A failed attempt on the only flow of the process, which ends with it. -/
def onlyExchange : Moment × CaptureInput :=
  (momentAt 1, .attributedTcpSegment { serverSegment [0] with fin := true } (.v7 8) .localToRemote)

/-- The process has failed at this second. -/
def failedProcess (second : ℕ) : ProcessSummary :=
  ⟨.v7 8, .v7 0, 1, "sha", none, 0, some (second * 1000000000), some 1, none⟩

theorem stamped_empty : Stamped Store.empty := fun _ _ h => by cases h

theorem endsTasks_onlyExchange :
    EndsTasks endingWire sampleClient (.numbered []) (fun _ => [])
      (recordedRun endingWire sampleClient (.numbered []) (fun _ => []) Store.empty
        [onlyExchange]).2 (momentAt 3) (failedProcess 103)
      [⟨"a", "codex", "s", "t", "u"⟩] := by
  refine (endsTasks_iff endingWire sampleClient (.numbered []) (fun _ => []) captures_endingWire
    Store.empty stamped_empty [onlyExchange] (momentAt 3) (failedProcess 103) ?_ ⟨1, 0, 0⟩ ?_).2 ?_
  · decide +kernel
  · decide +kernel
  · refine ⟨⟨fun process h => ?_, fun segment direction key flow _ _ h => ?_⟩, trivial⟩
    · cases h
    · cases h

/-- An exit from before the start of the task is refused by the checks, and the next one finds
nothing. -/
theorem not_endsTasks_droppedExit :
    (ingestInput endingWire sampleClient (.numbered []) (fun _ => []) (momentAt 3)
      (recordedRun endingWire sampleClient (.numbered []) (fun _ => []) Store.empty
        [onlyExchange, (momentAt 2, .processExit (failedProcess 0))]).2
      (.processExit (failedProcess 103))).1 = .persisted ⟨0, 0, 0⟩ ∧
    ¬ EndsTasks endingWire sampleClient (.numbered []) (fun _ => [])
      (recordedRun endingWire sampleClient (.numbered []) (fun _ => []) Store.empty
        [onlyExchange, (momentAt 2, .processExit (failedProcess 0))]).2 (momentAt 3)
      (failedProcess 103)
      ((recordedRun endingWire sampleClient (.numbered []) (fun _ => []) Store.empty
        [onlyExchange, (momentAt 2, .processExit (failedProcess 0))]).1.ofProcess (.v7 8)) := by
  refine ⟨by decide +kernel, fun h => ?_⟩
  have hopen : ((step endingWire sampleClient (.numbered []) (fun _ => [])
      (recordedRun endingWire sampleClient (.numbered []) (fun _ => []) Store.empty
        [onlyExchange, (momentAt 2, .processExit (failedProcess 0))]).2
      (momentAt 3, .processExit (failedProcess 103))).store.activeTasks.get? "s:t:u").map
        TaskRow.phase = some .retrying := by decide +kernel
  have hrow : ((recordedRun endingWire sampleClient (.numbered []) (fun _ => []) Store.empty
      [onlyExchange, (momentAt 2, .processExit (failedProcess 0))]).2.store.activeTasks.get?
        "s:t:u").map TaskRow.phase = some .retrying := by decide +kernel
  rcases Option.map_eq_some_iff.mp hrow with ⟨row, hrow, hphase⟩
  rcases (h.ended ⟨"a", "codex", "s", "t", "u"⟩ (by decide +kernel) row hrow
    (by simp [hphase])).1 with ⟨row', hrow', hended⟩
  have hlast := congrArg (Option.map TaskRow.phase) hrow'
  rw [Option.map_some, hended.phase] at hlast
  cases hopen.symm.trans hlast

end Codexwatch.Client
