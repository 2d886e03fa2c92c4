import Codexwatch.Client.Containment
import Codexwatch.Client.Refinement

/-!
# How a task ends with its process

`project_process_exit` of `client/src/capture_lane.rs`, and what is left of its records when
they are persisted: each open task that it walks has the row of one summary and one
event more, and all other rows are as before.

## Main definitions

* `EndedBy` — a row before and after the end of its process.
* `eventsFor` — the events that an input enqueues for a task.
* `Stamped` — the start times of a store.

## Main results

* `applyRecords_exit` — the records of an exit, task by task.
* `acceptedRecords_exit`, `get?_step_exit_of_ne` — an exit that is persisted.
-/
namespace Codexwatch.Client

open Protocol Capture Relational

/-- The columns of a row that an exit leaves alone. -/
def TaskRow.accumulated (row : TaskRow) : TaskKey × ℤ × ℕ × Option String × List String ×
    List String × TokenUsage × Completeness × Option String × Option String × Option ℤ :=
  (row.task, row.startedAt, row.attemptCount, row.model, row.toolNames, row.responseIds, row.usage,
    row.completeness, row.parentTurnId, row.rootTurnId, row.firstSeenAt)

/-- How a task ends with its process. -/
def lastOutcome (process : ProcessSummary) : TaskOutcome :=
  if process.signal.isSome ∨ ∃ code ∈ process.exitCode, code ≠ 0 then .terminated else .lost

structure EndedBy (title : String → Option String) (process : ProcessSummary)
    (observedAt : OffsetDateTime) (task : TaskKey) (row row' : TaskRow) : Prop where
  phase : row'.phase = .terminal
  outcome : row'.outcome = some (lastOutcome process)
  sequence : row'.sequence = row.sequence + 1
  updatedAt : row'.updatedAt = ts observedAt
  terminalAt : row'.terminalAt = some (ts observedAt)
  title : row'.conversationTitle = (title task.sessionId).or row.conversationTitle
  accumulated : row'.accumulated = row.accumulated

section Events
variable {κ σ : Type} [DecidableEq κ] (wire : Wire κ σ) (client : ClientInstance) (codec : Codec)
  (toVec : List Json → Bytes)

/-- The events that an input enqueues for a task. -/
def eventsFor (lane : Lane κ σ) (input : Moment × CaptureInput) (taskRef : String) :
    List TaskEvent :=
  ((inputUploads wire client codec toVec lane input).filter
    fun upload => upload.snapshot.taskRef = taskRef).flatMap TaskUpload.events

end Events

/-! ## The records of an exit -/

section Records
variable {title : String → Option String} {t : Tick} {s s' : Store} {process : ProcessSummary}
  {observedAt : OffsetDateTime} {codec : Codec}

theorem fst_exitOutcome (process : ProcessSummary) :
    (exitOutcome process).1 = lastOutcome process := by
  rw [exitOutcome, lastOutcome]
  cases process.exitCode <;> simp only [Option.any, Option.mem_def] <;> split <;> simp_all

/-- The summary with which a task ends. -/
def lastSummary (title : String → Option String) (codec : Codec) (process : ProcessSummary)
    (observedAt : OffsetDateTime) (task : TaskKey) (row : TaskRow) (eventId : Uuid) : TaskSummary :=
  normalizeSummary codec (exitSummary title row.cursor task eventId observedAt process)

theorem endedBy_withSummary {task : TaskKey} {row : TaskRow} {eventId : Uuid}
    (hstarted : ts (fromMs row.startedAt) = row.startedAt) :
    EndedBy title process observedAt task row
      (row.withSummary (lastSummary title codec process observedAt task row eventId)) where
  phase := rfl
  outcome := congrArg some (fst_exitOutcome process)
  sequence := rfl
  updatedAt := rfl
  terminalAt := rfl
  title := by
    simp [TaskRow.withSummary, lastSummary, normalizeSummary, exitSummary, TaskCursor.summary,
      TaskRow.cursor, Option.or_assoc]
  accumulated := by
    simp [TaskRow.accumulated, TaskRow.withSummary, lastSummary, rowOfSummary, normalizeSummary,
      exitSummary, TaskCursor.summary, TaskRow.cursor, hstarted]

/-- The records of one task. -/
theorem exitTaskRecords_eq {task : TaskKey} {row : TaskRow} (n : ℕ)
    (hrow : s.activeTasks.get? task.taskRef = some row) (hphase : row.phase ≠ .terminal) :
    (exitTaskRecords title t s process observedAt (task, n)).map (normalizeRecord codec) =
      carryOn (lastSummary title codec process observedAt task row (t.ids (.event n)))
        .processExited := by
  have hlive : liveCursor s task = some row.cursor := by
    rw [liveCursor, loadTaskCursor, hrow, Option.map_some, Option.filter_some, if_pos]
    exact decide_eq_true hphase
  simp only [exitTaskRecords, hlive]
  rfl

theorem exitTaskRecords_of_none {task : TaskKey} {n : ℕ} (h : liveCursor s task = none) :
    exitTaskRecords title t s process observedAt (task, n) = [] := by
  simp only [exitTaskRecords, h]

/-- The records name open tasks only. -/
theorem names_of_mem_exitRecords {tasks : List TaskKey} {n : ℕ} {record : SummaryRecord}
    (h : record ∈ ((tasks.zipIdx n).flatMap (exitTaskRecords title t s process observedAt)).map
      (normalizeRecord codec)) :
    ∃ task ∈ tasks, (liveCursor s task).isSome = true ∧
      record.uploadTask = some task.taskRef ∧ record.writes = some task.taskRef := by
  rcases List.mem_map.mp h with ⟨original, horiginal, rfl⟩
  rcases List.mem_flatMap.mp horiginal with ⟨⟨task, index⟩, htask, hmem⟩
  refine ⟨task, List.fst_mem_of_mem_zipIdx htask, ?_⟩
  rw [uploadTask_normalizeRecord, writes_normalizeRecord]
  cases hlive : liveCursor s task with
  | none =>
      rw [exitTaskRecords_of_none hlive] at hmem
      cases hmem
  | some cursor =>
      simp only [exitTaskRecords, hlive, carryOn, List.mem_cons, List.not_mem_nil, or_false] at hmem
      rcases hmem with rfl | rfl <;> exact ⟨rfl, rfl, rfl⟩

/-- One task that goes on: both records are accepted, and the row takes the summary. -/
theorem applyRecords_carryOn (cause : TransitionCause) {summary : TaskSummary} {row : TaskRow}
    (hrow : s.activeTasks.get? summary.task.taskRef = some row)
    (hnext : row.sequence < summary.sequence) :
    (applyRecords s (carryOn summary cause)).1 = carryOn summary cause ∧
      (applyRecords s (carryOn summary cause)).2.activeTasks.get? summary.task.taskRef =
        some (row.withSummary summary) := by
  have hstored : storedSequence s summary.task.taskRef < summary.sequence := by
    rwa [storedSequence, hrow, Option.map_some, Option.getD_some]
  have hsummary := get?_upsertTaskSummary_of_lt hstored
  rw [hrow, Option.elim_some] at hsummary
  have haccepted := accepted_of_lt hstored
  have hskip : upsertTransition (upsertTaskSummary s summary).2 (carriedTransition summary cause) =
      (upsertTaskSummary s summary).2 := by
    refine upsertTransition_of_progress summary.phase summary.outcome ?_
    rw [Store.progress, carriedTransition, hsummary, Option.map_some]
    rfl
  simp only [applyRecord] at haccepted
  rw [carriedTransition] at hskip
  simp only [carryOn, applyRecords, applyRecord, haccepted, hskip, if_true]
  exact ⟨trivial, hsummary⟩

theorem transitionsOf_of_ne {taskRef : String} {records : List SummaryRecord}
    (h : ∀ record ∈ records, record.uploadTask ≠ some taskRef) :
    transitionsOf taskRef records = [] := by
  refine List.filterMap_eq_nil_iff.mpr fun record hmem => ?_
  cases record with
  | taskTransition transition =>
      exact if_neg fun htask => h _ hmem (congrArg some htask)
  | _ => rfl

/-- All records are accepted, and an open task has one transition and the row of its summary. -/
theorem applyRecords_exit (title : String → Option String) (t : Tick) (s s' : Store)
    (process : ProcessSummary) (observedAt : OffsetDateTime) (codec : Codec)
    {tasks : List TaskKey} (hnodup : (tasks.map TaskKey.taskRef).Nodup) (n : ℕ)
    (hsame : ∀ task ∈ tasks, s'.activeTasks.get? task.taskRef = s.activeTasks.get? task.taskRef) :
    let records := ((tasks.zipIdx n).flatMap
      (exitTaskRecords title t s process observedAt)).map (normalizeRecord codec)
    (applyRecords s' records).1 = records ∧
      ∀ task ∈ tasks, ∀ row, s.activeTasks.get? task.taskRef = some row → row.phase ≠ .terminal →
        ∃ eventId,
          (applyRecords s' records).2.activeTasks.get? task.taskRef = some
            (row.withSummary (lastSummary title codec process observedAt task row eventId)) ∧
          transitionsOf task.taskRef records = [carriedTransition
            (lastSummary title codec process observedAt task row eventId) .processExited] := by
  induction tasks generalizing n s' with
  | nil => exact ⟨rfl, fun task hmem => by cases hmem⟩
  | cons first tasks ih =>
      rw [List.map_cons, List.nodup_cons] at hnodup
      have hothers (task : TaskKey) (hmem : task ∈ tasks) : first.taskRef ≠ task.taskRef :=
        fun h => hnodup.1 (h ▸ List.mem_map_of_mem hmem)
      simp only [List.zipIdx_cons, List.flatMap_cons, List.map_append]
      cases hlive : liveCursor s first with
      | none =>
          rw [exitTaskRecords_of_none hlive, List.map_nil, List.nil_append]
          rcases ih s' hnodup.2 (n + 1) fun task hmem => hsame task (List.mem_cons_of_mem _ hmem) with
            ⟨haccepted, hrows⟩
          refine ⟨haccepted, fun task hmem row hrow hphase => ?_⟩
          rcases List.mem_cons.mp hmem with rfl | hmem
          · simp [liveCursor, loadTaskCursor, hrow, Option.filter_some, TaskRow.cursor, hphase]
              at hlive
          · exact hrows task hmem row hrow hphase
      | some cursor =>
          rcases exists_row_of_liveCursor hlive with ⟨row, hrow, rfl, hphase⟩
          rw [exitTaskRecords_eq n hrow hphase]
          generalize hsummary : lastSummary title codec process observedAt first row
            (t.ids (.event n)) = summary
          have htask : summary.task.taskRef = first.taskRef := by rw [← hsummary]; rfl
          have hnext : row.sequence < summary.sequence := by
            rw [← hsummary]
            exact Nat.lt_succ_self _
          have hrow' : s'.activeTasks.get? summary.task.taskRef = some row := by
            rw [htask, hsame first List.mem_cons_self, hrow]
          rcases applyRecords_carryOn .processExited hrow' hnext with ⟨hfirst, hfirstRow⟩
          have hcarried : ∀ taskRef, taskRef ≠ first.taskRef →
              ∀ record ∈ carryOn summary .processExited, record.uploadTask ≠ some taskRef ∧
                record.writes ≠ some taskRef := by
            intro taskRef hne record hmem
            simp only [carryOn, List.mem_cons, List.not_mem_nil, or_false] at hmem
            rcases hmem with rfl | rfl <;>
              exact ⟨fun h => hne (htask ▸ (Option.some.inj h).symm),
                fun h => hne (htask ▸ (Option.some.inj h).symm)⟩
          rw [accepted_append, applyRecords_append, hfirst]
          have hrest := ih (applyRecords s' (carryOn summary .processExited)).2 hnodup.2 (n + 1)
            fun task hmem => by
              rw [get?_applyRecords_of_ne fun record hrecord =>
                (hcarried task.taskRef (hothers task hmem).symm record hrecord).2]
              exact hsame task (List.mem_cons_of_mem _ hmem)
          refine ⟨by rw [hrest.1], fun task hmem row₁ hrow₁ hphase₁ => ?_⟩
          rw [transitionsOf, List.filterMap_append, ← transitionsOf, ← transitionsOf]
          rcases List.mem_cons.mp hmem with rfl | hmem
          · obtain rfl := Option.some.inj (hrow.symm.trans hrow₁)
            have hlater : ∀ record ∈ ((tasks.zipIdx (n + 1)).flatMap
                (exitTaskRecords title t s process observedAt)).map (normalizeRecord codec),
                record.uploadTask ≠ some task.taskRef ∧ record.writes ≠ some task.taskRef := by
              intro record hrecord
              rcases names_of_mem_exitRecords hrecord with ⟨other, hother, -, hupload, hwrites⟩
              rw [hupload, hwrites]
              exact ⟨fun h => hothers other hother (Option.some.inj h).symm,
                fun h => hothers other hother (Option.some.inj h).symm⟩
            refine ⟨t.ids (.event n), ?_, ?_⟩
            · rw [get?_applyRecords_of_ne fun record hrecord => (hlater record hrecord).2, ← htask,
                hfirstRow, hsummary]
            · rw [transitionsOf_of_ne fun record hrecord => (hlater record hrecord).1, hsummary,
                List.append_nil]
              simp [transitionsOf, carryOn, carriedTransition, htask]
          · rcases hrest.2 task hmem row₁ hrow₁ hphase₁ with ⟨eventId, hstored, htransitions⟩
            refine ⟨eventId, hstored, ?_⟩
            rw [htransitions, transitionsOf_of_ne fun record hrecord =>
              (hcarried task.taskRef (hothers task hmem).symm record hrecord).1, List.nil_append]

end Records

/-! ## One exit -/

section Exit
variable {κ σ : Type} [DecidableEq κ] {wire : Wire κ σ} {client : ClientInstance} {codec : Codec}
  {toVec : List Json → Bytes} {lane : Lane κ σ} {m : Moment} {process : ProcessSummary}

/-- What an exit hands to the store. -/
def exitRecords (m : Moment) (lane : Lane κ σ) (process : ProcessSummary) : List SummaryRecord :=
  (projectProcessExit m.title m.toTick lane.store process
    (m.order (exitTasks lane process))).records

theorem handleInput_exit : handleInput wire client codec toVec m lane (.processExit process) =
    (.batch ⟨exitRecords m lane process, []⟩, { lane with processTasks :=
      (lane.processTasks.deleteWhere fun k _ => k = process.processInstanceId) }) := rfl

/-- An exit that is persisted is applied to the store. -/
theorem step_exit {outcome : PersistOutcome}
    (h : (ingestInput wire client codec toVec m lane (.processExit process)).1 =
      .persisted outcome) :
    (persistIngress client codec m.toTick lane.store (exitRecords m lane process) []).1.isSome =
        true ∧
      inputUploads wire client codec toVec lane (m, .processExit process) =
        persistedUploads client codec m.toTick lane.store (exitRecords m lane process) [] ∧
      (step wire client codec toVec lane (m, .processExit process)).store.activeTasks =
        (writtenStore codec lane.store (exitRecords m lane process) []).activeTasks := by
  rcases step_persisted h with ⟨batch, hbatch, hdone, huploads, -, htasks⟩
  rw [handleInput_exit] at hbatch
  cases hbatch
  exact ⟨hdone, huploads, htasks⟩

/-- The tasks of an exit have different references. -/
def Identified (tasks : List TaskKey) : Prop :=
  ∀ task ∈ tasks, ∀ other ∈ tasks, task.taskRef = other.taskRef → task = other

theorem nodup_exitTasks (m : Moment) (h : Identified (exitTasks lane process)) :
    ((m.order (exitTasks lane process)).map TaskKey.taskRef).Nodup := by
  have hmem (task : TaskKey) (htask : task ∈ m.order (exitTasks lane process)) :
      task ∈ exitTasks lane process := (m.order_perm _).mem_iff.mp htask
  refine List.Nodup.map_on (fun task htask other hother heq => ?_)
    ((m.order_perm _).nodup_iff.mpr (List.nodup_dedup _))
  exact h task (hmem task htask) other (hmem other hother) heq

theorem acceptedRecords_exit (h : Identified (exitTasks lane process)) {outcome : PersistOutcome}
    (hpersisted : (ingestInput wire client codec toVec m lane (.processExit process)).1 =
      .persisted outcome)
    {task : TaskKey} (hmem : task ∈ exitTasks lane process) {row : TaskRow}
    (hrow : lane.store.activeTasks.get? task.taskRef = some row) (hphase : row.phase ≠ .terminal) :
    ∃ eventId errorId,
      (step wire client codec toVec lane (m, .processExit process)).store.activeTasks.get?
        task.taskRef = some (row.withSummary (lastSummary m.title codec process
          (process.exitedAt.getD m.now) task row eventId)) ∧
      eventsFor wire client codec toVec lane (m, .processExit process) task.taskRef =
        [mapTransitionEvent errorId (carriedTransition (lastSummary m.title codec process
          (process.exitedAt.getD m.now) task row eventId) .processExited)] := by
  rcases step_exit hpersisted with ⟨hdone, huploads, hstore⟩
  -- the record of the process leaves the tasks alone, and has no event
  have happly := applyRecords_exit m.title m.toTick lane.store
    (applyRecord lane.store (.process process)).2 process (process.exitedAt.getD m.now) codec
    (nodup_exitTasks m h) 0 fun _ _ => rfl
  generalize hrest : (((m.order (exitTasks lane process)).zipIdx 0).flatMap
    (exitTaskRecords m.title m.toTick lane.store process (process.exitedAt.getD m.now))).map
      (normalizeRecord codec) = rest at happly
  have hmap : (exitRecords m lane process).map (normalizeRecord codec) =
      .process process :: rest := by
    rw [← hrest]
    rfl
  rcases happly.2 task ((m.order_perm _).mem_iff.mpr hmem) row hrow hphase with
    ⟨eventId, hstored, htransitions⟩
  have hwritten : (writtenStore codec lane.store (exitRecords m lane process) []).activeTasks.get?
      task.taskRef = some (row.withSummary (lastSummary m.title codec process
        (process.exitedAt.getD m.now) task row eventId)) := by
    rw [writtenStore, hmap]
    exact hstored
  have hevents := events_persistedUploads hdone (by rw [hwritten]; rfl)
  have haccepted : transitionsOf task.taskRef (applyRecords lane.store
      ((exitRecords m lane process).map (normalizeRecord codec))).1 =
      transitionsOf task.taskRef rest := by
    rw [hmap, applyRecords]
    dsimp only
    rw [happly.1]
    split <;> rfl
  rw [haccepted, htransitions, ← huploads] at hevents
  rcases List.forall₂_cons_right_iff.mp hevents with ⟨event, others, ⟨errorId, rfl⟩, hnone, hlist⟩
  rw [List.forall₂_nil_right_iff.mp hnone] at hlist
  exact ⟨eventId, errorId, hstore ▸ hwritten, hlist⟩

/-- A row that no open task of the exit has stays. -/
theorem get?_step_exit_of_ne {outcome : PersistOutcome}
    (hpersisted : (ingestInput wire client codec toVec m lane (.processExit process)).1 =
      .persisted outcome) (taskRef : String)
    (h : ∀ task ∈ exitTasks lane process, task.taskRef = taskRef →
      (liveCursor lane.store task).isSome = false) :
    (step wire client codec toVec lane (m, .processExit process)).store.activeTasks.get? taskRef =
      lane.store.activeTasks.get? taskRef := by
  rw [(step_exit hpersisted).2.2]
  refine get?_applyRecords_of_ne fun record hmem hwrites => ?_
  rw [exitRecords, projectProcessExit, List.map_cons] at hmem
  rcases List.mem_cons.mp hmem with rfl | hmem
  · cases hwrites
  · rcases names_of_mem_exitRecords hmem with ⟨task, htask, hlive, -, hnamed⟩
    rw [h task ((m.order_perm _).mem_iff.mp htask)
      (Option.some.inj (hnamed.symm.trans hwrites))] at hlive
    cases hlive

/-- An exit without open tasks changes no task. -/
theorem activeTasks_step_exit
    (h : ∀ task ∈ exitTasks lane process, liveCursor lane.store task = none) :
    (step wire client codec toVec lane (m, .processExit process)).store.activeTasks =
      lane.store.activeTasks := by
  have hrecords : exitRecords m lane process = [.process process] := by
    rw [exitRecords, projectProcessExit]
    refine congrArg _ (List.flatMap_eq_nil_iff.mpr fun task hmem => ?_)
    have htask := (m.order_perm _).mem_iff.mp (List.fst_mem_of_mem_zipIdx hmem)
    exact exitTaskRecords_of_none (h task.1 htask)
  rcases step_cases wire client codec toVec lane (m, .processExit process) with
    ⟨-, hsame⟩ | ⟨batch, hbatch, -, -, hwritten⟩
  · exact hsame
  · rw [handleInput_exit] at hbatch
    obtain rfl := Handled.batch.inj hbatch
    rw [hwritten, hrecords]
    rfl

theorem flows_step_exit :
    (step wire client codec toVec lane (m, .processExit process)).flows = lane.flows := by
  rw [step, ingestInput, handleInput_exit]
  dsimp only
  split <;> rfl

theorem tasksOf_step_exit : tasksOf (step wire client codec toVec lane (m, .processExit process))
    process.processInstanceId = [] := by
  have htasks : (step wire client codec toVec lane (m, .processExit process)).processTasks =
      lane.processTasks.deleteWhere fun k _ => k = process.processInstanceId := by
    rw [step, ingestInput, handleInput_exit]
    dsimp only
    split <;> rfl
  rw [tasksOf, htasks, Table.get?_deleteWhere]
  cases lane.processTasks.get? process.processInstanceId <;> simp [Option.filter]

end Exit

/-! ## Start times -/

/-- Start times are stored as `ts` writes them. -/
def Stamped (s : Store) : Prop :=
  ∀ taskRef row, s.activeTasks.get? taskRef = some row → ts (fromMs row.startedAt) = row.startedAt

theorem ts_fromMs_ts (value : OffsetDateTime) : ts (fromMs (ts value)) = ts value := by
  rw [ts, fromMs, ts]
  omega

section Stamps
variable {s : Store}

theorem Stamped.upsert (h : Stamped s) {taskRef : String} {fresh : TaskRow} {f : TaskRow → TaskRow}
    (hfresh : ts (fromMs fresh.startedAt) = fresh.startedAt)
    (hf : ∀ row : TaskRow, ts (fromMs row.startedAt) = row.startedAt →
      ts (fromMs (f row).startedAt) = (f row).startedAt) :
    Stamped { s with activeTasks := s.activeTasks.upsert taskRef fresh f } := by
  intro other row hrow
  by_cases hother : other = taskRef
  · subst hother
    rw [Table.get?_upsert_self] at hrow
    obtain rfl := Option.some.inj hrow
    cases hold : s.activeTasks.get? other with
    | none => exact hfresh
    | some old => exact hf old (h other old hold)
  · rw [Table.get?_upsert_of_ne hother] at hrow
    exact h other row hrow

theorem Stamped.modify (h : Stamped s) {taskRef : String} {f : TaskRow → TaskRow}
    (hf : ∀ row, (f row).startedAt = row.startedAt) :
    Stamped { s with activeTasks := s.activeTasks.modify taskRef f } := by
  intro other row hrow
  rw [Table.get?_modify] at hrow
  split at hrow
  · rcases Option.map_eq_some_iff.mp hrow with ⟨old, hold, rfl⟩
    rw [hf]
    exact h other old hold
  · exact h other row hrow

theorem Stamped.applyRecord (h : Stamped s) (record : SummaryRecord) :
    Stamped (Client.applyRecord s record).2 := by
  cases record with
  | task summary =>
      simp only [Client.applyRecord, upsertTaskSummary]
      split
      · exact h
      · exact h.upsert (ts_fromMs_ts _) fun row _ => ts_fromMs_ts _
  | taskTransition transition =>
      simp only [Client.applyRecord, upsertTransition]
      split
      · exact h
      · exact h.upsert (ts_fromMs_ts _) fun row hrow => hrow
  | attempt attempt =>
      simp only [Client.applyRecord, upsertAttempt]
      split
      · exact h
      · exact h.modify fun row => rfl
  | session session => exact h.modify fun row => rfl
  | captureGap gap =>
      simp only [Client.applyRecord, upsertGap]
      split <;> exact h
  | process process => exact h
  | httpExchange exchange => exact h
  | heartbeat heartbeat => exact h

theorem Stamped.applyRecords (h : Stamped s) (records : List SummaryRecord) :
    Stamped (Client.applyRecords s records).2 := by
  induction records generalizing s with
  | nil => exact h
  | cons record records ih => exact ih (h.applyRecord record)

end Stamps

end Codexwatch.Client
