import Codexwatch.Client.Store

/-!
# The sequence of a task's row

Two of the statements that write `active_tasks` set the phase of a task, and both test
whether the stored row is newer; the others set none of the columns that say where the
task stands.

## Main definitions

* `TaskRow.columns` — the columns.
* `SummaryRecord.Stale` — a summary or a transition that the stored row supersedes.
* `KeepsOrder` — what a record does to the rows.
* `keepsOrder_run` — every record of a list does this.
-/
namespace Codexwatch.Client

open Protocol Relational

/-- Where the task stands: phase, outcome, sequence, last event, and two of the times. -/
def TaskRow.columns (row : TaskRow) :
    TaskPhase × Option TaskOutcome × ℕ × Uuid × ℤ × Option ℤ :=
  (row.phase, row.outcome, row.sequence, row.lastEventId, row.updatedAt, row.terminalAt)

theorem steady_columns : Steady TaskRow.columns where
  attempt _ _ := rfl
  session _ _ := rfl

/-- The row has a higher sequence, or the same one and the same event. -/
def TaskRow.IsPast (row : TaskRow) (sequence : ℕ) (eventId : Uuid) : Prop :=
  sequence < row.sequence ∨ row.sequence = sequence ∧ row.lastEventId = eventId

theorem TaskRow.supersedes_iff {row : TaskRow} {sequence : ℕ} {eventId : Uuid} :
    row.supersedes sequence eventId = true ↔ row.IsPast sequence eventId := by
  simp [supersedes, IsPast]

theorem TaskRow.le_of_not_isPast {row : TaskRow} {sequence : ℕ} {eventId : Uuid}
    (h : ¬ row.IsPast sequence eventId) : row.sequence ≤ sequence :=
  not_lt.mp fun hlt => h (.inl hlt)

/-- A summary or a transition that the stored row is past. -/
def SummaryRecord.Stale (s : Store) : SummaryRecord → Prop
  | .task summary => ∃ row, s.activeTasks.get? summary.task.taskRef = some row ∧
    row.IsPast summary.sequence summary.lastEventId
  | .taskTransition transition => ∃ row,
    s.activeTasks.get? transition.task.taskRef = some row ∧
      row.IsPast transition.sequence transition.eventId
  | .session _ | .attempt _ | .httpExchange _ | .captureGap _ | .process _ | .heartbeat _ => False

/-- A record lowers no sequence; and one that is stale, or neither a summary nor a
transition, leaves every task where it stands. -/
structure KeepsOrder (s : Store) (record : SummaryRecord) : Prop where
  sequence : ∀ taskRef row, s.activeTasks.get? taskRef = some row →
    ∃ row', (applyRecord s record).2.activeTasks.get? taskRef = some row' ∧
      row.sequence ≤ row'.sequence
  columns : record.advances = none ∨ record.Stale s → ∀ taskRef,
    ((applyRecord s record).2.activeTasks.get? taskRef).map TaskRow.columns =
      (s.activeTasks.get? taskRef).map TaskRow.columns

section Records
variable {s : Store} {summary : TaskSummary} {transition : TaskTransition} {record : SummaryRecord}

theorem upsertTaskSummary_of_stale (h : (SummaryRecord.task summary).Stale s) :
    upsertTaskSummary s summary = (false, s) := by
  obtain ⟨row, hrow, hpast⟩ := h
  rw [upsertTaskSummary, hrow, Option.any_some, TaskRow.supersedes_iff.mpr hpast, if_pos rfl]

theorem upsertTransition_of_stale (h : (SummaryRecord.taskTransition transition).Stale s) :
    upsertTransition s transition = s := by
  obtain ⟨row, hrow, hpast⟩ := h
  rw [upsertTransition, hrow, Option.any_some, TaskRow.supersedes_iff.mpr hpast, if_pos rfl]

/-- A record that is stale changes nothing at all. -/
theorem applyRecord_of_stale (h : record.Stale s) : (applyRecord s record).2 = s := by
  cases record with
  | task summary => exact congrArg Prod.snd (upsertTaskSummary_of_stale h)
  | taskTransition transition => exact upsertTransition_of_stale h
  | session _ | attempt _ | httpExchange _ | captureGap _ | process _ | heartbeat _ => cases h

/-- Without a stale record the new row of the task has a sequence that is not lower. -/
theorem sequence_upsertTaskSummary {row : TaskRow}
    (hrow : s.activeTasks.get? summary.task.taskRef = some row) :
    ∃ row', (upsertTaskSummary s summary).2.activeTasks.get? summary.task.taskRef = some row' ∧
      row.sequence ≤ row'.sequence := by
  by_cases hpast : row.IsPast summary.sequence summary.lastEventId
  · rw [upsertTaskSummary_of_stale ⟨row, hrow, hpast⟩]
    exact ⟨row, hrow, le_rfl⟩
  · rw [upsertTaskSummary, hrow, Option.any_some,
      if_neg fun h => hpast (TaskRow.supersedes_iff.mp h)]
    refine ⟨row.withSummary summary, ?_, TaskRow.le_of_not_isPast hpast⟩
    rw [Table.get?_upsert_self, hrow]
    rfl

theorem sequence_upsertTransition {row : TaskRow}
    (hrow : s.activeTasks.get? transition.task.taskRef = some row) :
    ∃ row', (upsertTransition s transition).activeTasks.get? transition.task.taskRef = some row' ∧
      row.sequence ≤ row'.sequence := by
  by_cases hpast : row.IsPast transition.sequence transition.eventId
  · rw [upsertTransition_of_stale ⟨row, hrow, hpast⟩]
    exact ⟨row, hrow, le_rfl⟩
  · rw [upsertTransition, hrow, Option.any_some,
      if_neg fun h => hpast (TaskRow.supersedes_iff.mp h)]
    refine ⟨row.withTransition transition, ?_, TaskRow.le_of_not_isPast hpast⟩
    rw [Table.get?_upsert_self, hrow]
    rfl

theorem sequence_applyRecord (record : SummaryRecord) {taskRef : String} {row : TaskRow}
    (hrow : s.activeTasks.get? taskRef = some row) :
    ∃ row', (applyRecord s record).2.activeTasks.get? taskRef = some row' ∧
      row.sequence ≤ row'.sequence := by
  by_cases hadvances : record.advances = some taskRef
  · cases record with
    | task summary =>
        cases hadvances
        exact sequence_upsertTaskSummary hrow
    | taskTransition transition =>
        cases hadvances
        exact sequence_upsertTransition hrow
    | session _ | attempt _ | httpExchange _ | captureGap _ | process _ | heartbeat _ =>
        cases hadvances
  · have hcolumns := map_get?_applyRecord_of_ne (s := s) steady_columns hadvances
    rw [hrow, Option.map_some, Option.map_eq_some_iff] at hcolumns
    obtain ⟨row', hrow', heq⟩ := hcolumns
    exact ⟨row', hrow', (congrArg (fun c => c.2.2.1) heq).ge⟩

theorem keepsOrder (s : Store) (record : SummaryRecord) : KeepsOrder s record where
  sequence _ _ hrow := sequence_applyRecord record hrow
  columns := by
    rintro (hother | hstale) taskRef
    · exact map_get?_applyRecord_of_ne steady_columns (by simp [hother])
    · rw [applyRecord_of_stale hstale]

/-- Every record of a list keeps the order in the state it finds, and the sequences after
the list are not lower than before. -/
theorem keepsOrder_run (s : Store) (records : List SummaryRecord) :
    (∀ done record, done ++ [record] <+: records → KeepsOrder (applyRecords s done).2 record) ∧
    ∀ taskRef row, s.activeTasks.get? taskRef = some row →
      ∃ row', (applyRecords s records).2.activeTasks.get? taskRef = some row' ∧
        row.sequence ≤ row'.sequence := by
  refine ⟨fun done record _ => keepsOrder (applyRecords s done).2 record, ?_⟩
  intro taskRef row hrow
  induction records generalizing s row with
  | nil => exact ⟨row, hrow, le_rfl⟩
  | cons record records ih =>
      obtain ⟨middle, hmiddle, hle⟩ := sequence_applyRecord record hrow
      obtain ⟨row', hrow', hle'⟩ := ih (applyRecord s record).2 middle hmiddle
      exact ⟨row', hrow', hle.trans hle'⟩

end Records

end Codexwatch.Client
