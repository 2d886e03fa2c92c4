import Mathlib.Data.Set.List
import Codexwatch.Client.Exits

/-!
# What a capture gap leaves of a task

`project_gap` of `client/src/capture_lane.rs` reads the cursor of the task and writes the
whole row again. A gap that is persisted changes the completeness, the sequence and the last
error of an open task, and enqueues one event. It leaves a task that is terminal or unknown
alone, and all others.

Two gaps of one segment read the same cursor and take the same sequence, which no upload may
have twice. A segment that persists has one gap of an open task.

## Main definitions

* `DegradedBy` — a row before and after a gap.
* `Loses` — the inputs that lose bytes of a task.
* `Degrades` — what such an input does.

## Main results

* `lt_of_transitions` — the transitions of an upload count up.
* `degrades_of_loses` — every gap that is persisted, in every run.
-/
namespace Codexwatch.Client

open Protocol Capture Relational

/-- The columns of a row before and after a gap. -/
structure DegradedBy (row row' : TaskRow) : Prop where
  phase : row'.phase = row.phase
  outcome : row'.outcome = row.outcome
  attemptCount : row'.attemptCount = row.attemptCount
  model : row'.model = row.model
  toolNames : row'.toolNames = row.toolNames
  responseIds : row'.responseIds = row.responseIds
  usage : row'.usage = row.usage
  startedAt : row'.startedAt = row.startedAt
  completeness : row'.completeness = .degraded
  sequence : row'.sequence = row.sequence + 1

section Inputs
variable {κ σ : Type} [DecidableEq κ] (wire : Wire κ σ) (client : ClientInstance) (codec : Codec)
  (toVec : List Json → Bytes)

/-- A gap is reported for the task, or a segment of a flow with this current task has gaps
alone. -/
inductive Loses (lane : Lane κ σ) (m : Moment) (task : TaskKey) : CaptureInput → Prop
  | reported (flowId : Uuid) (observedAt : OffsetDateTime) (reason : String)
      (lostBytes : Option ℕ) :
      Loses lane m task (.captureGap flowId (some task) observedAt reason lostBytes)
  | reassembled (input : CaptureInput) (segment : TcpSegment) (processInstanceId : Option Uuid)
      (direction : Option ProcessFlowDirection)
      (hof : segmentOf input = some (segment, processInstanceId, direction))
      (hsome : segmentItems wire client m lane segment processInstanceId direction ≠ [])
      (hgaps : ∀ item ∈ segmentItems wire client m lane segment processInstanceId direction,
        ∃ reason lostBytes, item = (.gap reason lostBytes, some task)) :
      Loses lane m task input

/-- An open task is degraded by one event that is enqueued. Otherwise no task changes. -/
structure Degrades (lane : Lane κ σ) (input : Moment × CaptureInput) (task : TaskKey) : Prop where
  live : ∀ row, lane.store.activeTasks.get? task.taskRef = some row → row.phase ≠ .terminal →
    ∃ row' upload event batch,
      (step wire client codec toVec lane input).store.activeTasks.get? task.taskRef = some row' ∧
      DegradedBy row row' ∧
      (inputUploads wire client codec toVec lane input).filter
        (fun upload => upload.snapshot.taskRef = task.taskRef) = [upload] ∧
      upload.events = [event] ∧ event.kind = .captureGap ∧ event.sequence = row.sequence + 1 ∧
      upload.validate = .ok () ∧ upload ∈ batch.tasks ∧
      Holds codec (step wire client codec toVec lane input).store.outbox batch
  idle : (∀ row, lane.store.activeTasks.get? task.taskRef = some row → row.phase = .terminal) →
    (step wire client codec toVec lane input).store.activeTasks = lane.store.activeTasks
  others : ∀ taskRef, taskRef ≠ task.taskRef →
    (step wire client codec toVec lane input).store.activeTasks.get? taskRef =
      lane.store.activeTasks.get? taskRef

end Inputs

/-! ## The transitions of one upload -/

section Transitions
variable {client : ClientInstance} {codec : Codec} {t : Tick} {s : Store}
  {records : List SummaryRecord} {contents : List StoredContentInput} {taskRef : String}

theorem transitionsOf_append {records' : List SummaryRecord} :
    transitionsOf taskRef (records ++ records') =
      transitionsOf taskRef records ++ transitionsOf taskRef records' :=
  List.filterMap_append

/-- Every transition is accepted. -/
theorem transitionsOf_accepted :
    transitionsOf taskRef (applyRecords s records).1 = transitionsOf taskRef records := by
  induction records generalizing s with
  | nil => rfl
  | cons record records ih =>
      have hrest := @ih (applyRecord s record).2
      simp only [transitionsOf] at hrest ⊢
      rw [applyRecords]
      dsimp only
      split
      · rw [List.filterMap_cons, List.filterMap_cons, hrest]
      · rename_i hrefused
        rw [hrest]
        cases record with
        | taskTransition transition => exact absurd rfl hrefused
        | _ => rfl

/-- The first batch of a transaction. -/
theorem mem_wireBatches (hne : records ≠ []) :
    buildWireBatch client t s 0 (records.take 128) ∈ wireBatches client t s records := by
  rw [wireBatches, splitRecords, Chunks.chunks_of_ne_nil (by decide) hne, List.zipIdx_cons]
  exact List.mem_map.mpr ⟨_, List.mem_cons_self, rfl⟩

/-- The first two transitions of the first chunk count up, when it is uploaded. -/
theorem lt_of_transitions
    (hdone : (persistIngress client codec t s records contents).1.isSome = true)
    (hrow : ((writtenStore codec s records contents).activeTasks.get? taskRef).isSome = true)
    {first second : TaskTransition} {others : List TaskTransition}
    (h : transitionsOf taskRef ((acceptedRecords codec s records).take 128) =
      first :: second :: others) : first.sequence < second.sequence := by
  have hne : acceptedRecords codec s records ≠ [] := by
    rintro hnil
    rw [hnil] at h
    cases h
  have hevents := events_buildWireBatch client t 0 ((acceptedRecords codec s records).take 128) hrow
  rw [h] at hevents
  rcases List.forall₂_cons_right_iff.mp hevents with ⟨event, rest, ⟨errorId, rfl⟩, hrest, hlist⟩
  rcases List.forall₂_cons_right_iff.mp hrest with ⟨event', rest', ⟨errorId', rfl⟩, -, rfl⟩
  -- both events are in one upload, which has been checked
  have hupload := @uploadsFor_buildWireBatch client t (writtenStore codec s records contents) 0
    ((acceptedRecords codec s records).take 128) taskRef
  rw [hupload] at hlist
  split at hlist
  · rename_i hnamed
    rw [if_pos hnamed] at hupload
    cases hbuild : buildUpload t (writtenStore codec s records contents) 0
        ((acceptedRecords codec s records).take 128) taskRef with
    | none =>
        rw [hbuild] at hlist
        cases hlist
    | some upload =>
        rw [hbuild, Option.toList_some] at hlist hupload
        rw [List.flatMap_singleton] at hlist
        have hmem := List.mem_of_mem_filter (hupload ▸ List.mem_singleton_self upload)
        have huploaded : upload ∈ persistedUploads client codec t s records contents := by
          rw [persistedUploads, if_pos hdone]
          exact List.mem_flatMap.mpr ⟨_, mem_wireBatches hne, hmem⟩
        have hvalid := valid_of_mem_persistedUploads huploaded
        have horder := hvalid.eventOrder
        rw [hlist] at horder
        exact (List.isChain_cons_cons.mp horder).1.2
  · cases hlist

end Transitions

/-! ## The records of the gaps -/

section Losses
variable {client : ClientInstance} {codec : Codec} {title : String → Option String} {t : Tick}
  {s : Store} {flowId : Uuid} {task : TaskKey} {observedAt : OffsetDateTime}

/-- The records of gaps that find the same current task. -/
def lossRecords (client : ClientInstance) (title : String → Option String) (t : Tick) (s : Store)
    (flowId : Uuid) (task : TaskKey) (observedAt : OffsetDateTime) (losses : List CaptureLoss)
    (n : ℕ) : List SummaryRecord :=
  (losses.zipIdx n).flatMap fun loss => (projectGap client title t s loss.2 flowId (some task)
    observedAt loss.1.reason loss.1.lostBytes).records

/-- The record of a gap itself. -/
def gapRecordOf (client : ClientInstance) (t : Tick) (flowId : Uuid) (task : TaskKey)
    (observedAt : OffsetDateTime) (loss : CaptureLoss) (n : ℕ) : CaptureGapSummary where
  gapId := t.ids (.item n)
  clientInstanceId := client.instanceId
  task := some task
  observedAt := observedAt
  reason := loss.reason
  lostBytes := loss.lostBytes
  flowId := some flowId

theorem lossRecords_cons (loss : CaptureLoss) (losses : List CaptureLoss) (n : ℕ) :
    lossRecords client title t s flowId task observedAt (loss :: losses) n =
      .captureGap (gapRecordOf client t flowId task observedAt loss n) ::
        (gapTaskRecords title t s n task observedAt loss ++
          lossRecords client title t s flowId task observedAt losses (n + 1)) := by
  rw [lossRecords, List.zipIdx_cons, List.flatMap_cons]
  rfl

/-- Of a task that is not open there is nothing to carry on. -/
theorem gapTaskRecords_of_none {loss : CaptureLoss} {n : ℕ} (h : liveCursor s task = none) :
    gapTaskRecords title t s n task observedAt loss = [] := by
  simp only [gapTaskRecords, h]

theorem gapTaskRecords_eq {row : TaskRow} (loss : CaptureLoss) (n : ℕ)
    (hrow : s.activeTasks.get? task.taskRef = some row) (hphase : row.phase ≠ .terminal) :
    gapTaskRecords title t s n task observedAt loss =
      carryOn (gapSummary title row.cursor task (t.ids (.event n)) observedAt loss)
        .captureLost := by
  have hlive : liveCursor s task = some row.cursor := by
    rw [liveCursor, loadTaskCursor, hrow, Option.map_some, Option.filter_some, if_pos]
    exact decide_eq_true hphase
  simp only [gapTaskRecords, hlive]
  rfl

/-- The records name the task alone. -/
theorem writes_lossRecords {losses : List CaptureLoss} {n : ℕ} {record : SummaryRecord}
    (h : record ∈ lossRecords client title t s flowId task observedAt losses n) :
    record.writes = none ∨ record.writes = some task.taskRef := by
  rcases List.mem_flatMap.mp h with ⟨loss, -, hmem⟩
  rcases List.mem_cons.mp hmem with rfl | hmem
  · exact .inl rfl
  · rw [Option.map_some, Option.getD_some] at hmem
    cases hlive : liveCursor s task with
    | none =>
        rw [gapTaskRecords_of_none hlive] at hmem
        cases hmem
    | some cursor =>
        simp only [gapTaskRecords, hlive, carryOn, List.mem_cons, List.not_mem_nil, or_false]
          at hmem
        rcases hmem with rfl | rfl <;> exact .inr rfl

theorem writes_lossRecords_of_none {losses : List CaptureLoss} {n : ℕ} {record : SummaryRecord}
    (hlive : liveCursor s task = none)
    (h : record ∈ lossRecords client title t s flowId task observedAt losses n) :
    record.writes = none := by
  rcases List.mem_flatMap.mp h with ⟨loss, -, hmem⟩
  rcases List.mem_cons.mp hmem with rfl | hmem
  · rfl
  · rw [Option.map_some, Option.getD_some, gapTaskRecords_of_none hlive] at hmem
    cases hmem

/-- Records without a row leave the table alone. -/
theorem activeTasks_applyRecords_of_none {records : List SummaryRecord}
    (h : ∀ record ∈ records, record.writes = none) :
    (applyRecords s records).2.activeTasks = s.activeTasks := by
  induction records generalizing s with
  | nil => rfl
  | cons record records ih =>
      rw [applyRecords, ih fun other hmem => h other (List.mem_cons_of_mem record hmem)]
      have hrecord := h record List.mem_cons_self
      cases record with
      | captureGap gap =>
          simp only [applyRecord, upsertGap]
          split <;> rfl
      | process process => rfl
      | httpExchange exchange => rfl
      | heartbeat heartbeat => rfl
      | _ => cases hrecord

/-- The transitions of the gaps of an open task, each with the next sequence. -/
theorem transitionsOf_lossRecords {row : TaskRow} (losses : List CaptureLoss) (n : ℕ)
    (hrow : s.activeTasks.get? task.taskRef = some row) (hphase : row.phase ≠ .terminal) :
    transitionsOf task.taskRef ((lossRecords client title t s flowId task observedAt losses n).map
      (normalizeRecord codec)) = (losses.zipIdx n).map fun loss => carriedTransition
        (normalizeSummary codec
          (gapSummary title row.cursor task (t.ids (.event loss.2)) observedAt loss.1))
        .captureLost := by
  induction losses generalizing n with
  | nil => rfl
  | cons loss losses ih =>
      rw [lossRecords_cons, gapTaskRecords_eq loss n hrow hphase, List.map_cons, List.map_append,
        List.zipIdx_cons, List.map_cons, ← ih (n + 1)]
      simp [transitionsOf, carryOn, normalizeRecord, normalizeSummary, carriedTransition,
        gapSummary, TaskCursor.summary]

/-- A row stays, whatever the records are. -/
theorem isSome_applyRecords {taskRef : String} (records : List SummaryRecord)
    (h : (s.activeTasks.get? taskRef).isSome = true) :
    ((applyRecords s records).2.activeTasks.get? taskRef).isSome = true := by
  induction records generalizing s with
  | nil => exact h
  | cons record records ih =>
      refine ih ?_
      by_cases hwrites : record.writes = some taskRef
      · cases record with
        | task summary =>
            obtain rfl := Option.some.inj hwrites
            simp only [applyRecord, upsertTaskSummary]
            split
            · exact h
            · rw [Table.get?_upsert_self]
              rfl
        | taskTransition transition =>
            obtain rfl := Option.some.inj hwrites
            simp only [applyRecord, upsertTransition]
            split
            · exact h
            · rw [Table.get?_upsert_self]
              rfl
        | attempt attempt =>
            simp only [applyRecord, upsertAttempt]
            split
            · exact h
            · rw [Table.get?_modify]
              split <;> simpa using h
        | session session =>
            simp only [applyRecord, mergeSession]
            rw [Table.get?_modify]
            split <;> simpa using h
        | captureGap gap => cases hwrites
        | process process => cases hwrites
        | httpExchange exchange => cases hwrites
        | heartbeat heartbeat => cases hwrites
      · rw [get?_applyRecord_of_ne hwrites]
        exact h

/-- Two gaps of an open task take the same sequence, so that no batch of theirs is enqueued. -/
theorem length_losses_le_one {contents : List StoredContentInput} {row : TaskRow}
    {losses : List CaptureLoss} (hrow : s.activeTasks.get? task.taskRef = some row)
    (hphase : row.phase ≠ .terminal)
    (hdone : (persistIngress client codec t s
      (lossRecords client title t s flowId task observedAt losses 0) contents).1.isSome = true) :
    losses.length ≤ 1 := by
  rcases losses with _ | ⟨first, _ | ⟨second, losses⟩⟩
  · exact Nat.zero_le 1
  · exact le_rfl
  · exfalso
    have hsplit : lossRecords client title t s flowId task observedAt (first :: second :: losses) 0 =
        lossRecords client title t s flowId task observedAt [first, second] 0 ++
          lossRecords client title t s flowId task observedAt losses 2 := by
      simp only [lossRecords_cons]
      simp [lossRecords]
    have hkept : ((writtenStore codec s (lossRecords client title t s flowId task observedAt
        (first :: second :: losses) 0) contents).activeTasks.get? task.taskRef).isSome = true :=
      isSome_applyRecords _ (by rw [hrow]; rfl)
    -- the records of both are in the first chunk
    have haccepted := @accepted_append s
      ((lossRecords client title t s flowId task observedAt [first, second] 0).map
        (normalizeRecord codec))
      ((lossRecords client title t s flowId task observedAt losses 2).map (normalizeRecord codec))
    have hlength := @length_accepted_le s
      ((lossRecords client title t s flowId task observedAt [first, second] 0).map
        (normalizeRecord codec))
    have hsix : (lossRecords client title t s flowId task observedAt [first, second] 0).length =
        6 := by
      rw [lossRecords_cons, lossRecords_cons, gapTaskRecords_eq _ _ hrow hphase,
        gapTaskRecords_eq _ _ hrow hphase]
      rfl
    rw [List.length_map, hsix] at hlength
    have hfirst := @transitionsOf_lossRecords client codec title t s flowId task observedAt row
      [first, second] 0 hrow hphase
    rw [← @transitionsOf_accepted s] at hfirst
    have hlt := lt_of_transitions hdone hkept (by
      rw [acceptedRecords, hsplit, List.map_append, haccepted, List.take_append,
        List.take_of_length_le (by omega), transitionsOf_append, hfirst]
      rfl)
    exact absurd hlt (lt_irrefl _)

theorem degradedBy_withSummary {row : TaskRow} {eventId : Uuid} {loss : CaptureLoss}
    (hstarted : ts (fromMs row.startedAt) = row.startedAt) :
    DegradedBy row (row.withSummary
      (normalizeSummary codec (gapSummary title row.cursor task eventId observedAt loss))) where
  phase := rfl
  outcome := rfl
  attemptCount := rfl
  model := rfl
  toolNames := rfl
  responseIds := rfl
  usage := rfl
  startedAt := hstarted
  completeness := rfl
  sequence := rfl

/-- The event of a gap in an open task. -/
theorem transitionKind_gap {row : TaskRow} {eventId : Uuid} {loss : CaptureLoss}
    (hphase : row.phase ≠ .terminal) :
    transitionKind (carriedTransition (normalizeSummary codec
      (gapSummary title row.cursor task eventId observedAt loss)) .captureLost) = .captureGap := by
  simp only [transitionKind, carriedTransition, normalizeSummary, gapSummary, TaskCursor.summary,
    TaskRow.cursor]
  cases hcase : row.phase with
  | terminal => exact absurd hcase hphase
  | _ => rfl

/-- A gap of an open task that is persisted. -/
theorem degraded_of_persisted (hstamped : Stamped s) {contents : List StoredContentInput}
    {row : TaskRow} {loss : CaptureLoss} (hrow : s.activeTasks.get? task.taskRef = some row)
    (hphase : row.phase ≠ .terminal) {records : List SummaryRecord}
    (hrecords : records = lossRecords client title t s flowId task observedAt [loss] 0)
    (hdone : (persistIngress client codec t s records contents).1.isSome = true) :
    ∃ row' upload event,
      (writtenStore codec s records contents).activeTasks.get? task.taskRef = some row' ∧
      DegradedBy row row' ∧
      (persistedUploads client codec t s records contents).filter
        (fun upload => upload.snapshot.taskRef = task.taskRef) = [upload] ∧
      upload.events = [event] ∧ event.kind = .captureGap ∧
      event.sequence = row.sequence + 1 := by
  generalize hsummary : gapSummary title row.cursor task (t.ids (.event 0)) observedAt loss =
    summary
  generalize hgap : gapRecordOf client t flowId task observedAt loss 0 = gap
  have hcarried : records = [.captureGap gap] ++ carryOn summary .captureLost := by
    rw [hrecords, lossRecords_cons, gapTaskRecords_eq loss 0 hrow hphase, hsummary, hgap]
    exact congrArg _ (List.append_nil _)
  have hlead : ∀ record ∈ [SummaryRecord.captureGap gap], record.advances = none := by
    simp [SummaryRecord.advances]
  have htask : summary.task.taskRef = task.taskRef := by rw [← hsummary]; rfl
  have hsequence : summary.sequence = row.sequence + 1 := by rw [← hsummary]; rfl
  have hstored : storedSequence s summary.task.taskRef < summary.sequence := by
    rw [htask, storedSequence, hrow, hsequence]
    exact Nat.lt_succ_self _
  rcases persistedUploads_of_carried client t hdone hcarried (by simp) hlead hstored with
    ⟨upload, -, errorId, huploads, hevents, -⟩
  -- the record of the gap leaves the row for the summary
  have hmap : records.map (normalizeRecord codec) =
      [.captureGap gap] ++ carryOn (normalizeSummary codec summary) .captureLost := by
    rw [hcarried]
    rfl
  have hafter : (applyRecords s [SummaryRecord.captureGap gap]).2.activeTasks.get?
      (normalizeSummary codec summary).task.taskRef = some row := by
    rw [get?_applyRecords_of_ne (by simp [SummaryRecord.writes])]
    exact htask ▸ hrow
  have hrow' := (applyRecords_carryOn .captureLost hafter
    (hsequence ▸ Nat.lt_succ_self _)).2
  rw [htask] at huploads
  refine ⟨row.withSummary (normalizeSummary codec summary), upload, _, ?_, ?_, huploads, hevents,
    ?_, hsequence⟩
  · rw [writtenStore, hmap, applyRecords_append, ← htask]
    exact hrow'
  · rw [← hsummary]
    exact degradedBy_withSummary (hstamped _ row hrow)
  · rw [← hsummary]
    exact transitionKind_gap hphase

end Losses

/-! ## Runs -/

section Runs
variable {κ σ : Type} [DecidableEq κ] {wire : Wire κ σ} {client : ClientInstance} {codec : Codec}
  {toVec : List Json → Bytes} {lane : Lane κ σ} {m : Moment} {input : CaptureInput}
  {task : TaskKey}

/-- The batch of an input that loses bytes. -/
theorem records_of_loses (h : Loses wire client lane m task input) {batch : CaptureBatch}
    (hbatch : (handleInput wire client codec toVec m lane input).1 = .batch batch) :
    ∃ flowId observedAt loss losses, batch.records = lossRecords client m.title m.toTick lane.store
      flowId task observedAt (loss :: losses) 0 := by
  cases h with
  | reported flowId observedAt reason lostBytes =>
      simp only [handleInput] at hbatch
      rw [eq_of_ofBatch hbatch]
      exact ⟨flowId, observedAt, ⟨reason, lostBytes⟩, [], (List.append_nil _).symm⟩
  | reassembled _ segment processInstanceId direction hof hsome hgaps =>
      rw [handleInput_of_segmentOf hof] at hbatch
      rcases (handleSegment_cases rfl).2 batch hbatch with ⟨flowId, hrecords⟩
      have hitems : segmentItems wire client m lane segment processInstanceId direction ∈
          Set.range (List.map fun loss : CaptureLoss =>
            (FlowItem.gap loss.reason loss.lostBytes, some task)) := by
        rw [Set.range_list_map]
        intro item hmem
        rcases hgaps item hmem with ⟨reason, lostBytes, rfl⟩
        exact ⟨⟨reason, lostBytes⟩, rfl⟩
      rcases hitems with ⟨losses, hlosses⟩
      rw [← hlosses] at hrecords hsome
      rcases losses with _ | ⟨loss, losses⟩
      · exact absurd rfl hsome
      · refine ⟨flowId, m.now, loss, losses, hrecords.trans ?_⟩
        rw [List.zipIdx_map, List.flatMap_map]
        rfl

/-- A gap that is persisted. -/
theorem degrades_step (hstamped : Stamped lane.store) (hloses : Loses wire client lane m task input)
    {outcome : PersistOutcome}
    (hpersisted : (ingestInput wire client codec toVec m lane input).1 = .persisted outcome) :
    Degrades wire client codec toVec lane (m, input) task := by
  rcases step_persisted hpersisted with ⟨batch, hbatch, hdone, huploads, hstore, htasks⟩
  rcases records_of_loses hloses hbatch with ⟨flowId, observedAt, loss, losses, hrecords⟩
  refine ⟨fun row hrow hphase => ?_, fun hclosed => ?_, fun taskRef hne => ?_⟩
  · have hone : (loss :: losses).length ≤ 1 := length_losses_le_one hrow hphase (hrecords ▸ hdone)
    obtain rfl : losses = [] := by simpa using hone
    rcases degraded_of_persisted hstamped hrow hphase hrecords hdone with
      ⟨row', upload, event, hrow', hdegraded, hupload, hevents, hkind, hsequence⟩
    have hmem := List.mem_of_mem_filter (hupload ▸ List.mem_singleton_self upload)
    rcases enqueued_persistedUploads hmem with ⟨sent, hsent, hholds⟩
    refine ⟨row', upload, event, sent, htasks ▸ hrow', hdegraded, huploads ▸ hupload, hevents, hkind,
      hsequence, ?_, hsent, hstore ▸ hholds⟩
    exact TaskUpload.validate_eq_ok.mpr (valid_of_mem_persistedUploads hmem)
  · rw [htasks]
    refine activeTasks_applyRecords_of_none fun record hmem => ?_
    rcases List.mem_map.mp hmem with ⟨original, horiginal, rfl⟩
    rw [writes_normalizeRecord]
    refine writes_lossRecords_of_none ?_ (hrecords ▸ horiginal)
    cases hlive : liveCursor lane.store task with
    | none => rfl
    | some cursor =>
        rcases exists_row_of_liveCursor hlive with ⟨row, hrow, -, hphase⟩
        exact absurd (hclosed row hrow) hphase
  · rw [htasks]
    refine get?_applyRecords_of_ne fun record hmem hwrites => ?_
    rcases List.mem_map.mp hmem with ⟨original, horiginal, rfl⟩
    rw [writes_normalizeRecord] at hwrites
    rcases writes_lossRecords (hrecords ▸ horiginal) with hnone | hsome
    · cases hnone.symm.trans hwrites
    · exact hne (Option.some.inj (hwrites.symm.trans hsome))

/-- In every run a gap that is persisted only degrades its task, if that is open. -/
theorem degrades_of_loses (wire : Wire κ σ) (client : ClientInstance) (codec : Codec)
    (toVec : List Json → Bytes) (lane : Lane κ σ) (hstamped : Stamped lane.store)
    (inputs : List (Moment × CaptureInput)) (m : Moment) (input : CaptureInput) (task : TaskKey)
    (hloses : Loses wire client (Run.run (step wire client codec toVec) lane inputs) m task input)
    (outcome : PersistOutcome)
    (hpersisted : (ingestInput wire client codec toVec m
      (Run.run (step wire client codec toVec) lane inputs) input).1 = .persisted outcome) :
    Degrades wire client codec toVec (Run.run (step wire client codec toVec) lane inputs)
      (m, input) task :=
  have hreached : Stamped (Run.run (step wire client codec toVec) lane inputs).store :=
    Run.invariant (I := fun lane : Lane κ σ => Stamped lane.store)
      (fun _ input h => h.step input) hstamped inputs
  degrades_step hreached hloses hpersisted

end Runs

/-- The exchange fails, and bytes of the open turn are lost. -/
theorem degrades_gapInput :
    ((Run.run (step turnWire sampleClient (.numbered []) fun _ => []) emptyLane
        [attributedInput 1 0]).store.activeTasks.get? "s:t:u").any
          (fun row => row.phase ≠ .terminal) = true ∧
      Degrades turnWire sampleClient (.numbered []) (fun _ => [])
        (Run.run (step turnWire sampleClient (.numbered []) fun _ => []) emptyLane
          [attributedInput 1 0]) (gapInput 2) ⟨"a", "codex", "s", "t", "u"⟩ :=
  ⟨by decide +kernel, degrades_of_loses turnWire sampleClient (.numbered []) (fun _ => []) emptyLane
    stamped_empty [attributedInput 1 0] (gapInput 2).1 (gapInput 2).2 _ (.reported ..) ⟨1, 0, 0⟩
    (by decide +kernel)⟩

end Codexwatch.Client
