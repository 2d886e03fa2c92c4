import Codexwatch.Client.Degradation

/-!
# The lineage of a turn

The metadata of a turn can name its parent and its root. `project_exchange` of
`client/src/capture_lane.rs` puts both into the session record of an exchange, and
`merge_session_tx` writes them into the row of the task, if there is one. The session record
stands before the summary that makes the row: what the first exchange of a task carries is
written nowhere, and comes in only with a later exchange that carries it too.

## Main definitions

* `Ancestor` — the parent or the root, in metadata, records, rows and snapshots.
* `projectedExchanges`, `lateExchanges` — the exchanges of an input that are projected, and
  those among them that find the row of their task.
* `Inherits` — what an input must do with lineage.
* `HandedDown` — the condition.

## Main result

* `each_inherits_iff` — in every run, input by input.
-/
namespace Codexwatch.Client

open Protocol Capture Relational

/-! ## Parent and root -/

inductive Ancestor
  | parent | root
  deriving DecidableEq

namespace Ancestor

def ofTurn : Ancestor → CodexTaskMetadata → Option String
  | .parent, codex => codex.parentTurnId
  | .root, codex => codex.rootTurnId

def ofExchange (ancestor : Ancestor) (exchange : DecodedExchange) : Option String :=
  ancestor.ofTurn exchange.attempt.codex

def ofSession : Ancestor → SessionSummary → Option String
  | .parent, session => session.parentTurnId
  | .root, session => session.rootTurnId

def ofRow : Ancestor → TaskRow → Option String
  | .parent, row => row.parentTurnId
  | .root, row => row.rootTurnId

def ofSnapshot (ancestor : Ancestor) (snapshot : TaskSnapshot) : Option String :=
  ancestor.ofTurn snapshot.codex

@[simp] theorem ofSnapshot_snapshot (ancestor : Ancestor) (row : TaskRow) (errorId : Uuid)
    (taskRef : String) : ancestor.ofSnapshot (row.snapshot errorId taskRef) = ancestor.ofRow row := by
  cases ancestor <;> rfl

@[simp] theorem ofSession_sessionSummaryOf (ancestor : Ancestor) (exchange : DecodedExchange)
    (summary : TaskSummary) :
    ancestor.ofSession (sessionSummaryOf exchange summary) = ancestor.ofExchange exchange := by
  cases ancestor <;> rfl

end Ancestor

/-! ## The lineage of a row -/

/-- What a record does to the lineage of a row; `none` stands for a task without a row. -/
def inherit (ancestor : Ancestor) (taskRef : String) (lineage : Option (Option String)) :
    SummaryRecord → Option (Option String)
  | .session session =>
      if session.task.taskRef = taskRef then lineage.map (ancestor.ofSession session).or
      else lineage
  | .task summary =>
      if summary.task.taskRef = taskRef then some (lineage.getD none) else lineage
  | .taskTransition transition =>
      if transition.task.taskRef = taskRef then some (lineage.getD none) else lineage
  | _ => lineage

/-- What an exchange of the task does to it: the first one makes the row, the others write. -/
def hand (ancestor : Ancestor) (lineage : Option (Option String)) (exchange : DecodedExchange) :
    Option (Option String) :=
  some (lineage.elim none (ancestor.ofExchange exchange).or)

section Records
variable {ancestor : Ancestor} {taskRef : String} {s : Store}

/-- The lineage in the row of a task. -/
def Store.lineage (s : Store) (ancestor : Ancestor) (taskRef : String) : Option (Option String) :=
  (s.activeTasks.get? taskRef).map ancestor.ofRow

theorem lineage_upsert {task : TaskKey} {row : TaskRow} {f : TaskRow → TaskRow}
    (hrow : ancestor.ofRow row = none) (hf : ∀ row, ancestor.ofRow (f row) = ancestor.ofRow row) :
    Store.lineage { s with activeTasks := s.activeTasks.upsert task.taskRef row f } ancestor taskRef =
      if task.taskRef = taskRef then some ((s.lineage ancestor taskRef).getD none)
      else s.lineage ancestor taskRef := by
  rw [Store.lineage, Store.lineage]
  dsimp only
  by_cases htask : task.taskRef = taskRef
  · rw [if_pos htask, htask, Table.get?_upsert_self]
    cases s.activeTasks.get? taskRef <;> simp [hrow, hf]
  · rw [if_neg htask, Table.get?_upsert_of_ne (Ne.symm htask)]

theorem lineage_modify {task : TaskKey} {f : TaskRow → TaskRow} {g : Option String → Option String}
    (hf : ∀ row, ancestor.ofRow (f row) = g (ancestor.ofRow row)) :
    Store.lineage { s with activeTasks := s.activeTasks.modify task.taskRef f } ancestor taskRef =
      if task.taskRef = taskRef then (s.lineage ancestor taskRef).map g
      else s.lineage ancestor taskRef := by
  rw [Store.lineage, Store.lineage]
  dsimp only
  rw [Table.get?_modify]
  by_cases htask : task.taskRef = taskRef
  · cases s.activeTasks.get? taskRef <;> simp [htask, hf]
  · rw [if_neg htask, if_neg (Ne.symm htask)]

/-- A row that is not replaced is there. -/
theorem some_getD_of_isSome {lineage : Option (Option String)} (h : lineage.isSome = true) :
    some (lineage.getD none) = lineage := by
  cases lineage with
  | none => cases h
  | some value => rfl

theorem lineage_applyRecord (record : SummaryRecord) :
    (applyRecord s record).2.lineage ancestor taskRef =
      inherit ancestor taskRef (s.lineage ancestor taskRef) record := by
  have hthere : ∀ {task : TaskKey} {p : TaskRow → Bool},
      (s.activeTasks.get? task.taskRef).any p = true → s.lineage ancestor taskRef =
        if task.taskRef = taskRef then some ((s.lineage ancestor taskRef).getD none)
        else s.lineage ancestor taskRef := by
    intro task p hany
    split
    · rename_i htask
      rw [some_getD_of_isSome]
      rw [htask] at hany
      rw [Store.lineage]
      cases hrow : s.activeTasks.get? taskRef <;> simp [hrow] at hany ⊢
    · rfl
  cases record with
  | session session =>
      refine lineage_modify ?_
      intro row
      cases ancestor <;> rfl
  | task summary =>
      simp only [applyRecord, upsertTaskSummary, inherit]
      split
      · rename_i hany
        exact hthere hany
      · exact lineage_upsert (by cases ancestor <;> rfl) (by cases ancestor <;> exact fun _ => rfl)
  | taskTransition transition =>
      simp only [applyRecord, upsertTransition, inherit]
      split
      · rename_i hany
        exact hthere hany
      · exact lineage_upsert (by cases ancestor <;> rfl) (by cases ancestor <;> exact fun _ => rfl)
  | attempt attempt =>
      simp only [applyRecord, upsertAttempt, inherit]
      split
      · rfl
      · have hmodify := @lineage_modify ancestor taskRef s attempt.task
          (TaskRow.withAttempt attempt) id (by cases ancestor <;> exact fun _ => rfl)
        rw [Option.map_id, id_eq, ite_self] at hmodify
        exact hmodify
  | captureGap gap =>
      simp only [applyRecord, upsertGap]
      split <;> rfl
  | process process => rfl
  | httpExchange exchange => rfl
  | heartbeat heartbeat => rfl

theorem lineage_applyRecords (records : List SummaryRecord) :
    (applyRecords s records).2.lineage ancestor taskRef =
      records.foldl (inherit ancestor taskRef) (s.lineage ancestor taskRef) := by
  induction records generalizing s with
  | nil => rfl
  | cons record records ih => rw [applyRecords, ih, lineage_applyRecord, List.foldl_cons]

theorem inherit_normalizeRecord {codec : Codec} (lineage : Option (Option String))
    (record : SummaryRecord) : inherit ancestor taskRef lineage (normalizeRecord codec record) =
      inherit ancestor taskRef lineage record := by
  cases record <;> rfl

end Records

/-! ## The exchanges of an input -/

/-- The exchanges of one task. -/
def ofTask (client : ClientInstance) (taskRef : String) (exchanges : List DecodedExchange) :
    List DecodedExchange :=
  exchanges.filter fun exchange => (exchangeTask client exchange).taskRef = taskRef

section Items
variable {ancestor : Ancestor} {taskRef : String} {client : ClientInstance} {codec : Codec}
  {toVec : List Json → Bytes} {m : Moment} {s : Store} {flowId : Uuid}
  {lineage : Option (Option String)}

/-- The session record finds the row or not, and the summary makes it. -/
theorem foldl_exchangeRecords (exchange : DecodedExchange) (index : ℕ)
    (cursor : Option TaskCursor) :
    ((exchangeRecords client m.title m.toTick index exchange codec cursor).foldl
      (inherit ancestor taskRef) lineage) =
        if (exchangeTask client exchange).taskRef = taskRef then hand ancestor lineage exchange
        else lineage := by
  have htask : (taskSummaryOf m.title m.toTick index exchange (exchangeTask client exchange)
      cursor).task = exchangeTask client exchange := rfl
  simp only [exchangeRecords, List.foldl_cons, List.foldl_nil, inherit, taskTransitionOf, htask]
  have hsession : ∀ summary : TaskSummary, (sessionSummaryOf exchange summary).task =
      summary.task := fun _ => rfl
  rw [hsession, htask]
  split
  · rw [Ancestor.ofSession_sessionSummaryOf, hand]
    cases lineage <;> rfl
  · rfl

/-- The task of a cursor has a row. -/
theorem isSome_lineage_of_cursor {task : TaskKey} {cursor : TaskCursor}
    (hcursor : loadTaskCursor s task = some cursor) (htask : task.taskRef = taskRef) :
    (s.lineage ancestor taskRef).isSome = true := by
  obtain ⟨row, hrow, -⟩ := Option.map_eq_some_iff.mp hcursor
  rw [Store.lineage, ← htask, hrow]
  rfl

/-- A gap carries on a task that has a row, and leaves its lineage. -/
theorem foldl_carryOn {summary : TaskSummary} {cause : TransitionCause}
    (h : summary.task.taskRef = taskRef → lineage.isSome = true) :
    (carryOn summary cause).foldl (inherit ancestor taskRef) lineage = lineage := by
  simp only [carryOn, List.foldl_cons, List.foldl_nil, inherit]
  by_cases htask : summary.task.taskRef = taskRef
  · simp [htask, some_getD_of_isSome (h htask)]
  · simp [htask]

/-- Of all items only the projected exchanges of the task do something. -/
theorem foldl_projectItem (hrow : (s.lineage ancestor taskRef).isSome = true → lineage.isSome = true)
    (item : FlowItem × Option TaskKey) (index : ℕ) :
    (projectItem client codec toVec m s flowId item.2 index item.1).records.foldl
        (inherit ancestor taskRef) lineage =
      (ofTask client taskRef (projectedOf client s [item.1])).foldl (hand ancestor) lineage := by
  obtain ⟨item, current⟩ := item
  cases item with
  | exchange exchange =>
      cases hprojected : isProjected client exchange s with
      | false => simp [projectItem, projectExchange, hprojected, projectedOf, ofTask,
          CaptureBatch.empty]
      | true =>
          have hrecords : (projectItem client codec toVec m s flowId current index
              (.exchange exchange)).records = exchangeRecords client m.title m.toTick index exchange
                codec (loadTaskCursor s (exchangeTask client exchange)) := by
            simp [projectItem, projectExchange, hprojected]
          rw [hrecords, foldl_exchangeRecords]
          by_cases htask : (exchangeTask client exchange).taskRef = taskRef <;>
            simp [projectedOf, hprojected, ofTask, htask]
  | gap reason lostBytes =>
      have hnone : ofTask client taskRef (projectedOf client s [.gap reason lostBytes]) = [] := rfl
      rw [hnone, List.foldl_nil]
      obtain ⟨exchange, hexchange, -⟩ | ⟨_, _, task, cursor, gap, -, -, hcursor, -, hrecords⟩ |
        ⟨-, hrecords | ⟨gap, hrecords⟩⟩ := projectItem_cases client codec toVec m s flowId
          (.gap reason lostBytes, current) index
      · cases hexchange
      · rw [hrecords, List.foldl_cons]
        apply foldl_carryOn
        intro htask
        exact hrow (isSome_lineage_of_cursor hcursor htask)
      · rw [hrecords]
        rfl
      · rw [hrecords]
        rfl

theorem isSome_foldl_hand {exchanges : List DecodedExchange} (h : lineage.isSome = true) :
    (exchanges.foldl (hand ancestor) lineage).isSome = true := by
  induction exchanges generalizing lineage with
  | nil => exact h
  | cons exchange exchanges ih => exact ih rfl

theorem foldl_items (items : List (FlowItem × Option TaskKey)) (n : ℕ)
    (hrow : (s.lineage ancestor taskRef).isSome = true → lineage.isSome = true) :
    ((items.zipIdx n).flatMap fun x => (projectItem client codec toVec m s flowId x.1.2 x.2
        x.1.1).records).foldl (inherit ancestor taskRef) lineage =
      (ofTask client taskRef (projectedOf client s (items.map Prod.fst))).foldl (hand ancestor)
        lineage := by
  induction items generalizing n lineage with
  | nil => rfl
  | cons item items ih =>
      have hfilter : ofTask client taskRef (projectedOf client s ((item :: items).map Prod.fst)) =
          ofTask client taskRef (projectedOf client s [item.1]) ++
            ofTask client taskRef (projectedOf client s (items.map Prod.fst)) := by
        rw [ofTask, ofTask, ofTask, ← List.filter_append, projectedOf, projectedOf, projectedOf,
          ← List.filterMap_append]
        rfl
      rw [List.zipIdx_cons, List.flatMap_cons, List.foldl_append, hfilter, List.foldl_append,
        foldl_projectItem hrow, ih]
      intro hstored
      exact isSome_foldl_hand (hrow hstored)

theorem foldl_gapTaskRecords {title : String → Option String} {t : Tick} {index : ℕ} {task : TaskKey}
    {observedAt : OffsetDateTime} {loss : CaptureLoss} :
    (gapTaskRecords title t s index task observedAt loss).foldl (inherit ancestor taskRef)
      (s.lineage ancestor taskRef) = s.lineage ancestor taskRef := by
  rw [gapTaskRecords]
  cases hlive : liveCursor s task with
  | none => rfl
  | some cursor =>
      apply foldl_carryOn
      exact isSome_lineage_of_cursor (Option.filter_eq_some_iff.mp hlive).1

theorem foldl_exitTaskRecords {title : String → Option String} {t : Tick} {process : ProcessSummary}
    {observedAt : OffsetDateTime} (task : TaskKey × ℕ) :
    (exitTaskRecords title t s process observedAt task).foldl (inherit ancestor taskRef)
      (s.lineage ancestor taskRef) = s.lineage ancestor taskRef := by
  rw [exitTaskRecords]
  cases hlive : liveCursor s task.1 with
  | none => rfl
  | some cursor =>
      apply foldl_carryOn
      exact isSome_lineage_of_cursor (Option.filter_eq_some_iff.mp hlive).1

/-- The last value that finds the row. -/
theorem foldl_hand_some (exchanges : List DecodedExchange) (value : Option String) :
    exchanges.foldl (hand ancestor) (some value) =
      some ((exchanges.filterMap ancestor.ofExchange).getLast?.or value) := by
  induction exchanges generalizing value with
  | nil => rfl
  | cons exchange exchanges ih =>
      have hhand : hand ancestor (some value) exchange =
          some ((ancestor.ofExchange exchange).or value) := rfl
      rw [List.foldl_cons, hhand, ih]
      cases hvalue : ancestor.ofExchange exchange with
      | none => simp [hvalue]
      | some given =>
          rw [List.filterMap_cons_some hvalue]
          cases hlast : (exchanges.filterMap ancestor.ofExchange).getLast? <;>
            simp [List.getLast?_cons, hlast]

/-- What a batch with a value for the task leaves: the last value that finds the row. -/
theorem foldl_hand_eq_iff {exchanges : List DecodedExchange} {exchange : DecodedExchange}
    {given value : String} (hmem : exchange ∈ exchanges)
    (hgiven : ancestor.ofExchange exchange = some given) :
    exchanges.foldl (hand ancestor) lineage = some (some value) ↔
      ((if lineage.isSome then exchanges else exchanges.tail).filterMap
        ancestor.ofExchange).getLast? = some value := by
  cases lineage with
  | none =>
      cases exchanges with
      | nil => cases hmem
      | cons first exchanges =>
          have hfirst : hand ancestor none first = some none := rfl
          rw [List.foldl_cons, hfirst, foldl_hand_some, Option.or_none]
          simp
  | some stored =>
      have hne : exchanges.filterMap ancestor.ofExchange ≠ [] :=
        List.ne_nil_of_mem (List.mem_filterMap.mpr ⟨exchange, hmem, hgiven⟩)
      obtain ⟨last, hlast⟩ := Option.isSome_iff_exists.mp (List.getLast?_isSome.mpr hne)
      rw [foldl_hand_some, hlast]
      simp [hlast]

end Items

/-! ## Inputs -/

section Inputs
variable {κ σ : Type} [DecidableEq κ] (wire : Wire κ σ) (client : ClientInstance) (codec : Codec)
  (toVec : List Json → Bytes) (lane : Lane κ σ) (input : Moment × CaptureInput)

/-- The exchanges of the batch of an input, in order. -/
def projectedExchanges : List DecodedExchange :=
  match segmentOf input.2 with
  | none => []
  | some (segment, processInstanceId, direction) =>
      projectedOf client lane.store
        ((segmentItems wire client input.1 lane segment processInstanceId direction).map Prod.fst)

/-- The exchanges of a task that find its row: it was stored before, or the first one made it. -/
def lateExchanges (taskRef : String) : List DecodedExchange :=
  if (lane.store.activeTasks.get? taskRef).isSome then
    ofTask client taskRef (projectedExchanges wire client lane input)
  else (ofTask client taskRef (projectedExchanges wire client lane input)).tail

/-- The row of the task has the value, and the input uploads the task, with the value. -/
structure Arrives (ancestor : Ancestor) (taskRef value : String) : Prop where
  row : ∃ row, (step wire client codec toVec lane input).store.activeTasks.get? taskRef = some row ∧
    ancestor.ofRow row = some value
  uploaded : ∃ upload ∈ inputUploads wire client codec toVec lane input,
    upload.snapshot.taskRef = taskRef
  snapshots : ∀ upload ∈ inputUploads wire client codec toVec lane input,
    upload.snapshot.taskRef = taskRef → ancestor.ofSnapshot upload.snapshot = some value

/-- What an exchange that is persisted carries arrives, and what no exchange carries stays. -/
structure Inherits : Prop where
  arrives : ∀ outcome, (ingestInput wire client codec toVec input.1 lane input.2).1 =
      .persisted outcome →
    ∀ exchange ∈ projectedExchanges wire client lane input, ∀ ancestor value,
      Ancestor.ofExchange ancestor exchange = some value →
        Arrives wire client codec toVec lane input ancestor (exchangeTask client exchange).taskRef
          value
  stays : ∀ ancestor taskRef row value, lane.store.activeTasks.get? taskRef = some row →
    Ancestor.ofRow ancestor row = some value →
    (∀ exchange ∈ ofTask client taskRef (projectedExchanges wire client lane input),
      ancestor.ofExchange exchange = none) →
    ∃ row', (step wire client codec toVec lane input).store.activeTasks.get? taskRef = some row' ∧
      ancestor.ofRow row' = some value

/-- What an exchange that is persisted carries is what the last one carries that carries
anything and finds the row of the task. -/
def HandedDown : Prop :=
  ∀ outcome, (ingestInput wire client codec toVec input.1 lane input.2).1 = .persisted outcome →
    ∀ exchange ∈ projectedExchanges wire client lane input, ∀ ancestor value,
      Ancestor.ofExchange ancestor exchange = some value →
        ((lateExchanges wire client lane input (exchangeTask client exchange).taskRef).filterMap
          ancestor.ofExchange).getLast? = some value

end Inputs

section Step
variable {κ σ : Type} [DecidableEq κ] {wire : Wire κ σ} {client : ClientInstance} {codec : Codec}
  {toVec : List Json → Bytes} {lane : Lane κ σ} {input : Moment × CaptureInput}
  {ancestor : Ancestor} {taskRef : String} {batch : CaptureBatch} {exchange : DecodedExchange}

/-- The records of an input hand down what its exchanges carry. -/
theorem foldl_records
    (hbatch : (handleInput wire client codec toVec input.1 lane input.2).1 = .batch batch) :
    batch.records.foldl (inherit ancestor taskRef) (lane.store.lineage ancestor taskRef) =
      (ofTask client taskRef (projectedExchanges wire client lane input)).foldl (hand ancestor)
        (lane.store.lineage ancestor taskRef) := by
  cases hof : segmentOf input.2 with
  | some segment =>
      obtain ⟨segment, processInstanceId, direction⟩ := segment
      rw [handleInput_of_segmentOf hof] at hbatch
      obtain ⟨flowId, hrecords⟩ := (handleSegment_cases rfl).2 batch hbatch
      rw [hrecords, projectedExchanges, hof]
      exact foldl_items _ 0 id
  | none =>
      have hnone : projectedExchanges wire client lane input = [] := by
        rw [projectedExchanges, hof]
      rw [hnone]
      obtain ⟨m, input⟩ := input
      cases input with
      | tcpSegment segment => cases hof
      | attributedTcpSegment segment processInstanceId direction => cases hof
      | captureGap flowId task observedAt reason lostBytes =>
          simp only [handleInput] at hbatch
          rw [eq_of_ofBatch hbatch, projectGap, List.foldl_cons]
          cases task with
          | none => rfl
          | some task => exact foldl_gapTaskRecords
      | processObserved process =>
          cases hbatch
          rfl
      | processExit process =>
          simp only [handleInput] at hbatch
          rw [eq_of_ofBatch hbatch, projectProcessExit, List.foldl_cons, List.foldl_flatMap]
          exact List.foldl_fixed' foldl_exitTaskRecords _

/-- A transaction hands them down. -/
theorem lineage_writtenStore
    (hbatch : (handleInput wire client codec toVec input.1 lane input.2).1 = .batch batch) :
    (writtenStore codec lane.store batch.records batch.contents).lineage ancestor taskRef =
      (ofTask client taskRef (projectedExchanges wire client lane input)).foldl (hand ancestor)
        (lane.store.lineage ancestor taskRef) := by
  have happlied : (writtenStore codec lane.store batch.records batch.contents).lineage ancestor
      taskRef = (applyRecords lane.store
        (batch.records.map (normalizeRecord codec))).2.lineage ancestor taskRef := rfl
  rw [happlied, lineage_applyRecords, List.foldl_map, ← foldl_records hbatch]
  simp only [inherit_normalizeRecord]

/-- What no exchange of a batch carries stays, whether or not the batch is persisted. -/
theorem lineage_step_of_forall {value : String}
    (hstored : lane.store.lineage ancestor taskRef = some (some value))
    (h : ∀ exchange ∈ ofTask client taskRef (projectedExchanges wire client lane input),
      ancestor.ofExchange exchange = none) :
    (step wire client codec toVec lane input).store.lineage ancestor taskRef =
      some (some value) := by
  obtain ⟨-, hsame⟩ | ⟨batch, hbatch, -, -, htasks⟩ :=
    step_cases wire client codec toVec lane input
  · rw [Store.lineage, hsame]
    exact hstored
  · have hwritten := @lineage_writtenStore κ σ _ wire client codec toVec lane input ancestor taskRef
      batch hbatch
    have hnone : (ofTask client taskRef (projectedExchanges wire client lane input)).filterMap
        ancestor.ofExchange = [] := List.filterMap_eq_nil_iff.mpr h
    rw [hstored, foldl_hand_some, hnone] at hwritten
    rw [Store.lineage, htasks]
    exact hwritten

/-! ## The upload of an exchange -/

/-- A record that every store accepts is accepted among others. -/
theorem mem_applyRecords {s : Store} {records : List SummaryRecord} {record : SummaryRecord}
    (haccepted : ∀ s, (applyRecord s record).1 = true) (hmem : record ∈ records) :
    record ∈ (applyRecords s records).1 := by
  induction records generalizing s with
  | nil => cases hmem
  | cons first records ih =>
      rw [applyRecords]
      cases List.mem_cons.mp hmem with
      | inl hfirst =>
          rw [← hfirst]
          simp [haccepted]
      | inr hrest =>
          dsimp only
          split
          · exact List.mem_cons_of_mem first (ih hrest)
          · exact ih hrest

/-- The attempt of a projected exchange is in the batch of the input. -/
theorem exists_attempt
    (hbatch : (handleInput wire client codec toVec input.1 lane input.2).1 = .batch batch)
    (hmem : exchange ∈ projectedExchanges wire client lane input) :
    ∃ attempt, .attempt attempt ∈ batch.records ∧ attempt.task = exchangeTask client exchange := by
  cases hof : segmentOf input.2 with
  | none =>
      rw [projectedExchanges, hof] at hmem
      cases hmem
  | some segment =>
      obtain ⟨segment, processInstanceId, direction⟩ := segment
      rw [handleInput_of_segmentOf hof] at hbatch
      obtain ⟨flowId, hrecords⟩ := (handleSegment_cases rfl).2 batch hbatch
      rw [projectedExchanges, hof] at hmem
      obtain ⟨item, hmapped, hprojected⟩ := List.mem_filterMap.mp hmem
      obtain ⟨⟨item, current⟩, hitem, rfl⟩ := List.mem_map.mp hmapped
      cases item with
      | gap reason lostBytes => cases hprojected
      | exchange other =>
          dsimp only at hprojected
          split at hprojected
          · rename_i hexchange
            obtain rfl := Option.some.inj hprojected
            obtain ⟨index, hindex⟩ := List.mem_iff_getElem?.mp hitem
            refine ⟨attemptSummaryOf input.1.toTick other (taskSummaryOf input.1.title
              input.1.toTick index other (exchangeTask client other)
              (loadTaskCursor lane.store (exchangeTask client other))), ?_, rfl⟩
            rw [hrecords]
            apply List.mem_flatMap.mpr
            refine ⟨((.exchange other, current), index),
              List.mem_zipIdx_iff_getElem?.mpr hindex, ?_⟩
            simp only [projectItem, projectExchange, if_pos hexchange, exchangeRecords]
            exact List.mem_cons_of_mem _ List.mem_cons_self
          · cases hprojected

variable {outcome : PersistOutcome} {value : String}

/-- Whether a value arrives is a question about the row alone. -/
theorem arrives_iff
    (hpersisted : (ingestInput wire client codec toVec input.1 lane input.2).1 =
      .persisted outcome)
    (hmem : exchange ∈ projectedExchanges wire client lane input) :
    Arrives wire client codec toVec lane input ancestor (exchangeTask client exchange).taskRef
        value ↔
      (step wire client codec toVec lane input).store.lineage ancestor
        (exchangeTask client exchange).taskRef = some (some value) := by
  obtain ⟨batch, hbatch, hdone, huploads, -, htasks⟩ := step_persisted hpersisted
  have hstep : (step wire client codec toVec lane input).store.activeTasks =
      (writtenStore codec lane.store batch.records batch.contents).activeTasks := htasks
  constructor
  · intro harrives
    obtain ⟨row, hrow, hvalue⟩ := harrives.row
    rw [Store.lineage, hrow, Option.map_some, hvalue]
  · intro hlineage
    obtain ⟨row, hrow, hvalue⟩ := Option.map_eq_some_iff.mp hlineage
    refine ⟨⟨row, hrow, hvalue⟩, ?_, ?_⟩
    · obtain ⟨attempt, hattempt, htask⟩ := exists_attempt hbatch hmem
      have haccepted : normalizeRecord codec (.attempt attempt) ∈ (applyRecords lane.store
          (batch.records.map (normalizeRecord codec))).1 :=
        mem_applyRecords (fun _ => rfl) (List.mem_map_of_mem hattempt)
      have hupload : (normalizeRecord codec (.attempt attempt)).uploadTask =
          some (exchangeTask client exchange).taskRef := by
        rw [uploadTask_normalizeRecord, SummaryRecord.uploadTask, htask]
      rw [hstep] at hrow
      obtain ⟨sent, hsent, upload, hmem, errorId, hsnapshot⟩ :=
        exists_mem_wireBatches client input.1.toTick haccepted hupload hrow
      refine ⟨upload, ?_, ?_⟩
      · rw [huploads, persistedUploads, if_pos hdone]
        exact List.mem_flatMap.mpr ⟨sent, hsent, hmem⟩
      · rw [hsnapshot]
        rfl
    · intro upload hupload htask
      rw [huploads] at hupload
      obtain ⟨row', errorId, hrow', hsnapshot⟩ := row_of_mem_persistedUploads hupload
      rw [htask, ← hstep, hrow] at hrow'
      obtain rfl := Option.some.inj hrow'
      rw [hsnapshot, Ancestor.ofSnapshot_snapshot, hvalue]

/-- A value that a persisted exchange carries arrives exactly where it is the last one. -/
theorem lineage_step_eq_iff
    (hpersisted : (ingestInput wire client codec toVec input.1 lane input.2).1 =
      .persisted outcome)
    (hmem : exchange ∈ projectedExchanges wire client lane input)
    (hvalue : ancestor.ofExchange exchange = some value) :
    (step wire client codec toVec lane input).store.lineage ancestor
        (exchangeTask client exchange).taskRef = some (some value) ↔
      ((lateExchanges wire client lane input (exchangeTask client exchange).taskRef).filterMap
        ancestor.ofExchange).getLast? = some value := by
  obtain ⟨batch, hbatch, -, -, -, htasks⟩ := step_persisted hpersisted
  have hwritten := @lineage_writtenStore κ σ _ wire client codec toVec lane input ancestor
    (exchangeTask client exchange).taskRef batch hbatch
  have hstep : (step wire client codec toVec lane input).store.lineage ancestor
      (exchangeTask client exchange).taskRef = (writtenStore codec lane.store batch.records
        batch.contents).lineage ancestor (exchangeTask client exchange).taskRef := by
    rw [Store.lineage, Store.lineage, htasks]
  have hof : exchange ∈ ofTask client (exchangeTask client exchange).taskRef
      (projectedExchanges wire client lane input) := List.mem_filter.mpr ⟨hmem, by simp⟩
  rw [hstep, hwritten, foldl_hand_eq_iff hof hvalue, Store.lineage, Option.isSome_map,
    lateExchanges]

/-- One input hands down lineage exactly under the condition. -/
theorem inherits_iff : Inherits wire client codec toVec lane input ↔
    HandedDown wire client codec toVec lane input := by
  constructor
  · intro hinherits outcome hpersisted exchange hmem ancestor value hvalue
    have harrives := hinherits.arrives outcome hpersisted exchange hmem ancestor value hvalue
    exact (lineage_step_eq_iff hpersisted hmem hvalue).mp
      ((arrives_iff hpersisted hmem).mp harrives)
  · intro hhanded
    refine ⟨?_, ?_⟩
    · intro outcome hpersisted exchange hmem ancestor value hvalue
      apply (arrives_iff hpersisted hmem).mpr
      exact (lineage_step_eq_iff hpersisted hmem hvalue).mpr
        (hhanded outcome hpersisted exchange hmem ancestor value hvalue)
    · intro ancestor taskRef row value hrow hvalue hnone
      have hstored : lane.store.lineage ancestor taskRef = some (some value) := by
        rw [Store.lineage, hrow, Option.map_some, hvalue]
      exact Option.map_eq_some_iff.mp (@lineage_step_of_forall κ σ _ wire client codec toVec lane
        input ancestor taskRef value hstored hnone)

end Step

/-- In a run lineage reaches the rows and the uploads exactly where the condition holds. -/
theorem each_inherits_iff {κ σ : Type} [DecidableEq κ] (wire : Wire κ σ) (client : ClientInstance)
    (codec : Codec) (toVec : List Json → Bytes) (lane : Lane κ σ)
    (inputs : List (Moment × CaptureInput)) :
    Run.Each (step wire client codec toVec) (Inherits wire client codec toVec) lane inputs ↔
      Run.Each (step wire client codec toVec) (HandedDown wire client codec toVec) lane inputs := by
  constructor
  · intro h
    exact h.mono fun _ _ => inherits_iff.mp
  · intro h
    exact h.mono fun _ _ => inherits_iff.mpr

/-! ## The first exchange of a task -/

/-- A completed exchange of the turn `s:t:u`, whose parent is `p`. -/
def childExchange : DecodedExchange where
  attempt := decodeHttpExchange (.v7 2) ⟨"s", "t", "u", "turn", some "p", none⟩ (.object []) true
    true (.stream [completedPayload "r"]) 1000
  requestBody := []
  responseBody := []
  requestHeaders := []
  responseHeaders := []
  responseStatus := some 200

/-- Decoders that complete it with each byte. -/
def childWire : Wire Unit Unit where
  flowKey _ := some ()
  start _ _ := ()
  push _ _ segment _ := (segment.payload.map fun _ => .exchange childExchange, .ready ())

/-- The row of the first exchange has no parent. -/
theorem not_inherits_childExchange :
    ¬ ∀ (lane : Lane Unit Unit) (inputs : List (Moment × CaptureInput)),
      Run.Each (step childWire sampleClient (.numbered []) fun _ => [])
        (Inherits childWire sampleClient (.numbered []) fun _ => []) lane inputs := by
  intro h
  have hfirst := (h emptyLane [attributedInput 1 1]).1
  have hmem : childExchange ∈ projectedExchanges childWire sampleClient emptyLane
      (attributedInput 1 1) := List.mem_singleton_self childExchange
  have hpersisted : (ingestInput childWire sampleClient (.numbered []) (fun _ => [])
      (attributedInput 1 1).1 emptyLane (attributedInput 1 1).2).1 = .persisted ⟨1, 2, 1⟩ := by
    decide +kernel
  have harrives := hfirst.arrives _ hpersisted childExchange hmem .parent "p" rfl
  have hlineage : (step childWire sampleClient (.numbered []) (fun _ => []) emptyLane
      (attributedInput 1 1)).store.lineage .parent "s:t:u" = some none := by
    decide +kernel
  have hvalue := (arrives_iff hpersisted hmem).mp harrives
  have htask : (exchangeTask sampleClient childExchange).taskRef = "s:t:u" := by decide
  rw [htask, hlineage] at hvalue
  cases hvalue

end Codexwatch.Client
