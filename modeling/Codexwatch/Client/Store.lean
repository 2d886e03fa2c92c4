import Codexwatch.Client.Blob
import Codexwatch.Client.Outbox

/-!
# The client's store

The tables of `client/src/store.rs` and the statements that apply one record to
them. Counters are natural numbers, JSON columns hold the values they encode, and
`client_id` to `turn_id` of a task are one key. The table `flows` is left out: no
record is built from it.

## Main definitions

* `Store` — the tables.
* `loadTaskCursor`, `hasAttemptResponse` — what the capture lane reads.
* `applyRecord` — one record, and whether it was accepted.
-/
namespace Codexwatch.Client

open Protocol Relational

structure TaskRow where
  task : TaskKey
  conversationTitle : Option String
  phase : TaskPhase
  outcome : Option TaskOutcome
  sequence : ℕ
  lastEventId : Uuid
  startedAt : ℤ
  updatedAt : ℤ
  terminalAt : Option ℤ
  attemptCount : ℕ
  model : Option String
  toolNames : List String
  responseIds : List String
  usage : TokenUsage
  completeness : Completeness
  lastError : Option StructuredError
  parentTurnId : Option String
  rootTurnId : Option String
  firstSeenAt : Option ℤ

structure Store where
  activeTasks : Table String TaskRow
  attempts : Table Uuid AttemptSummary
  captureGaps : Table Uuid CaptureGapSummary
  processes : Table Uuid ProcessSummary
  contents : Contents
  outbox : Outbox

/-- A new database. -/
def Store.empty : Store := ⟨.empty, .empty, .empty, .empty, ⟨.empty, .empty, .empty⟩, ⟨.empty, .empty⟩⟩

/-! ## Reads -/

structure TaskCursor where
  sequence : ℕ
  conversationTitle : Option String
  attemptCount : ℕ
  phase : TaskPhase
  outcome : Option TaskOutcome
  startedAt : OffsetDateTime
  updatedAt : OffsetDateTime
  completeness : Completeness
  model : Option String
  toolNames : List String
  responseIds : List String
  usage : TokenUsage

def TaskRow.cursor (row : TaskRow) : TaskCursor where
  sequence := row.sequence
  conversationTitle := row.conversationTitle
  attemptCount := row.attemptCount
  phase := row.phase
  outcome := row.outcome
  startedAt := fromMs row.startedAt
  updatedAt := fromMs row.updatedAt
  completeness := row.completeness
  model := row.model
  toolNames := row.toolNames
  responseIds := row.responseIds
  usage := row.usage

def loadTaskCursor (s : Store) (task : TaskKey) : Option TaskCursor :=
  (s.activeTasks.get? task.taskRef).map TaskRow.cursor

def hasAttemptResponse (s : Store) (task : TaskKey) (responseId : String) : Bool :=
  s.attempts.rows.any fun r => r.2.task.taskRef = task.taskRef && r.2.responseId = some responseId

/-! ## Tasks -/

/-- The stored row is newer than the record, or it is the record's own. -/
def TaskRow.supersedes (row : TaskRow) (sequence : ℕ) (eventId : Uuid) : Bool :=
  sequence < row.sequence || (row.sequence = sequence && row.lastEventId = eventId)

def rowOfSummary (summary : TaskSummary) : TaskRow where
  task := summary.task
  conversationTitle := summary.conversationTitle
  phase := summary.phase
  outcome := summary.outcome
  sequence := summary.sequence
  lastEventId := summary.lastEventId
  startedAt := ts summary.startedAt
  updatedAt := ts summary.updatedAt
  terminalAt := summary.terminalAt.map ts
  attemptCount := summary.attemptCount
  model := summary.model
  toolNames := summary.toolNames
  responseIds := summary.responseIds
  usage := summary.usage
  completeness := summary.completeness
  lastError := summary.lastError
  parentTurnId := none
  rootTurnId := none
  firstSeenAt := some (ts summary.startedAt)

/-- `ON CONFLICT(task_ref) DO UPDATE` of a summary. -/
def TaskRow.withSummary (summary : TaskSummary) (row : TaskRow) : TaskRow :=
  { rowOfSummary summary with
    task := row.task
    conversationTitle := summary.conversationTitle.or row.conversationTitle
    parentTurnId := row.parentTurnId
    rootTurnId := row.rootTurnId
    firstSeenAt := row.firstSeenAt }

def upsertTaskSummary (s : Store) (summary : TaskSummary) : Bool × Store :=
  if (s.activeTasks.get? summary.task.taskRef).any fun row =>
      row.supersedes summary.sequence summary.lastEventId then (false, s)
  else
    (true, { s with
      activeTasks := s.activeTasks.upsert summary.task.taskRef (rowOfSummary summary)
        (TaskRow.withSummary summary) })

def rowOfTransition (transition : TaskTransition) : TaskRow where
  task := transition.task
  conversationTitle := none
  phase := transition.phase
  outcome := transition.outcome
  sequence := transition.sequence
  lastEventId := transition.eventId
  startedAt := ts transition.observedAt
  updatedAt := ts transition.observedAt
  terminalAt := if transition.phase = .terminal then some (ts transition.observedAt) else none
  attemptCount := 0
  model := none
  toolNames := []
  responseIds := []
  usage := TokenUsage.none
  completeness := transition.completeness
  lastError := transition.error
  parentTurnId := none
  rootTurnId := none
  firstSeenAt := some (ts transition.observedAt)

/-- `ON CONFLICT(task_ref) DO UPDATE` of a transition. -/
def TaskRow.withTransition (transition : TaskTransition) (row : TaskRow) : TaskRow :=
  { row with
    phase := transition.phase
    outcome := transition.outcome
    sequence := transition.sequence
    lastEventId := transition.eventId
    updatedAt := ts transition.observedAt
    terminalAt := if transition.phase = .terminal then some (ts transition.observedAt) else none
    completeness := transition.completeness
    lastError := transition.error }

def upsertTransition (s : Store) (transition : TaskTransition) : Store :=
  if (s.activeTasks.get? transition.task.taskRef).any fun row =>
      row.supersedes transition.sequence transition.eventId then s
  else
    { s with
      activeTasks := s.activeTasks.upsert transition.task.taskRef (rowOfTransition transition)
        (TaskRow.withTransition transition) }

/-! ## Attempts, gaps, processes and sessions -/

def mergeUnique (current appended : List String) : List String :=
  appended.foldl (fun current value =>
    if value ≠ "" ∧ value ∉ current then current ++ [value] else current) current

def TaskRow.withAttempt (attempt : AttemptSummary) (row : TaskRow) : TaskRow :=
  { row with
    attemptCount := max row.attemptCount attempt.ordinal
    model := attempt.model.or row.model
    toolNames := mergeUnique row.toolNames attempt.toolNames
    responseIds := mergeUnique row.responseIds attempt.responseId.toList
    usage := attempt.usage
    completeness := attempt.completeness
    lastError := attempt.error.or row.lastError }

def upsertAttempt (s : Store) (attempt : AttemptSummary) : Store :=
  { s with
    attempts := s.attempts.upsert attempt.attemptId attempt fun row =>
      { row with
        status := attempt.status
        finishedAt := attempt.finishedAt
        responseId := attempt.responseId
        model := attempt.model
        toolNames := attempt.toolNames
        usage := attempt.usage
        completeness := attempt.completeness
        error := attempt.error }
    activeTasks :=
      if (s.attempts.get? attempt.attemptId).isSome then s.activeTasks
      else s.activeTasks.modify attempt.task.taskRef (TaskRow.withAttempt attempt) }

def upsertGap (s : Store) (gap : CaptureGapSummary) : Bool × Store :=
  if (s.captureGaps.get? gap.gapId).isSome then (false, s)
  else (true, { s with captureGaps := s.captureGaps.put gap.gapId gap })

def upsertProcess (s : Store) (process : ProcessSummary) : Bool × Store :=
  ((s.processes.get? process.processInstanceId).isNone,
    { s with processes := s.processes.upsert process.processInstanceId process fun row =>
      { row with
        exitedAt := process.exitedAt
        exitCode := process.exitCode
        signal := process.signal } })

def TaskRow.withSession (session : SessionSummary) (row : TaskRow) : TaskRow :=
  { row with
    parentTurnId := session.parentTurnId.or row.parentTurnId
    rootTurnId := session.rootTurnId.or row.rootTurnId
    firstSeenAt := row.firstSeenAt.or (some (ts session.firstSeenAt)) }

def mergeSession (s : Store) (session : SessionSummary) : Bool × Store :=
  ((s.activeTasks.get? session.task.taskRef).isSome,
    { s with activeTasks :=
        s.activeTasks.modify session.task.taskRef (TaskRow.withSession session) })

/-! ## Records -/

def applyRecord (s : Store) : SummaryRecord → Bool × Store
  | .task summary => upsertTaskSummary s summary
  | .taskTransition transition => (true, upsertTransition s transition)
  | .attempt attempt => (true, upsertAttempt s attempt)
  | .captureGap gap => upsertGap s gap
  | .process process => upsertProcess s process
  | .session session => mergeSession s session
  | .heartbeat _ | .httpExchange _ => (true, s)

/-- Applies the records in order and collects the accepted ones. -/
def applyRecords (s : Store) : List SummaryRecord → List SummaryRecord × Store
  | [] => ([], s)
  | record :: records =>
      let applied := applyRecord s record
      let rest := applyRecords applied.2 records
      (if applied.1 then record :: rest.1 else rest.1, rest.2)

/-! ## What a record does to the row of a task -/

/-- The task whose progress a record sets. -/
def SummaryRecord.advances : SummaryRecord → Option String
  | .task summary => some summary.task.taskRef
  | .taskTransition transition => some transition.task.taskRef
  | .session _ | .attempt _ | .httpExchange _ | .captureGap _ | .process _ | .heartbeat _ => none

/-- The columns that only summaries and transitions set. -/
def TaskRow.progress (row : TaskRow) : TaskPhase × Option TaskOutcome × ℕ × Uuid :=
  (row.phase, row.outcome, row.sequence, row.lastEventId)

section Rows
variable {s : Store} {taskRef : String}

/-- The progress of the stored task. -/
def Store.progress (s : Store) (taskRef : String) :
    Option (TaskPhase × Option TaskOutcome × ℕ × Uuid) :=
  (s.activeTasks.get? taskRef).map TaskRow.progress

/-- A column that attempts and sessions leave alone. -/
structure Steady {α : Type} (column : TaskRow → α) : Prop where
  attempt : ∀ attempt row, column (row.withAttempt attempt) = column row
  session : ∀ session row, column (row.withSession session) = column row

theorem steady_progress : Steady TaskRow.progress where
  attempt _ _ := rfl
  session _ _ := rfl

theorem map_get?_modify {α : Type} {column : TaskRow → α} {key : String} {f : TaskRow → TaskRow}
    (hf : ∀ row, column (f row) = column row) :
    ((s.activeTasks.modify key f).get? taskRef).map column =
      (s.activeTasks.get? taskRef).map column := by
  rw [Table.get?_modify]
  by_cases h : taskRef = key
  · cases s.activeTasks.get? taskRef <;> simp [h, hf]
  · simp [h]

/-- A summary sets the progress of its task, or a newer row stays. -/
theorem progress_upsertTaskSummary (s : Store) (summary : TaskSummary) :
    (upsertTaskSummary s summary).2.progress summary.task.taskRef =
      some (summary.phase, summary.outcome, summary.sequence, summary.lastEventId) ∨
    (upsertTaskSummary s summary).2.progress summary.task.taskRef =
      s.progress summary.task.taskRef := by
  rw [upsertTaskSummary]
  split
  · exact .inr rfl
  · left
    simp only [Store.progress, Table.get?_upsert_self, Option.map_some]
    cases s.activeTasks.get? summary.task.taskRef <;> rfl

theorem progress_upsertTransition (s : Store) (transition : TaskTransition) :
    (upsertTransition s transition).progress transition.task.taskRef =
      some (transition.phase, transition.outcome, transition.sequence, transition.eventId) ∨
    (upsertTransition s transition).progress transition.task.taskRef =
      s.progress transition.task.taskRef := by
  rw [upsertTransition]
  split
  · exact .inr rfl
  · left
    simp only [Store.progress, Table.get?_upsert_self, Option.map_some]
    cases s.activeTasks.get? transition.task.taskRef <;> rfl

/-- Only summaries and transitions of a task change its steady columns. -/
theorem map_get?_applyRecord_of_ne {α : Type} {column : TaskRow → α} (hcolumn : Steady column)
    {record : SummaryRecord} (h : record.advances ≠ some taskRef) :
    ((applyRecord s record).2.activeTasks.get? taskRef).map column =
      (s.activeTasks.get? taskRef).map column := by
  cases record with
  | task summary =>
      have hne : taskRef ≠ summary.task.taskRef := fun h' => h (by rw [h', SummaryRecord.advances])
      simp only [applyRecord, upsertTaskSummary]
      split
      · rfl
      · rw [Table.get?_upsert_of_ne hne]
  | taskTransition transition =>
      have hne : taskRef ≠ transition.task.taskRef :=
        fun h' => h (by rw [h', SummaryRecord.advances])
      simp only [applyRecord, upsertTransition]
      split
      · rfl
      · rw [Table.get?_upsert_of_ne hne]
  | attempt attempt =>
      simp only [applyRecord, upsertAttempt]
      split
      · rfl
      · exact map_get?_modify (hcolumn.attempt attempt)
  | session session => exact map_get?_modify (hcolumn.session session)
  | captureGap gap =>
      simp only [applyRecord, upsertGap]
      split <;> rfl
  | process process => rfl
  | httpExchange exchange => rfl
  | heartbeat heartbeat => rfl

theorem progress_applyRecord_of_ne {record : SummaryRecord} (h : record.advances ≠ some taskRef) :
    (applyRecord s record).2.progress taskRef = s.progress taskRef :=
  map_get?_applyRecord_of_ne steady_progress h

theorem applyRecords_append {records records' : List SummaryRecord} :
    (applyRecords s (records ++ records')).2 =
      (applyRecords (applyRecords s records).2 records').2 := by
  induction records generalizing s with
  | nil => rfl
  | cons record records ih => simp [applyRecords, ih]

theorem mem_of_mem_accepted {records : List SummaryRecord} {record : SummaryRecord}
    (h : record ∈ (applyRecords s records).1) : record ∈ records := by
  induction records generalizing s with
  | nil => simp [applyRecords] at h
  | cons first records ih =>
      simp only [applyRecords] at h
      split at h
      · rw [List.mem_cons] at h ⊢
        exact h.imp_right ih
      · exact List.mem_cons_of_mem first (ih h)

end Rows

end Codexwatch.Client
