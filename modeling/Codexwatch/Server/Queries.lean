import Mathlib.Data.Prod.Lex
import Mathlib.Data.List.Sort
import Mathlib.Data.String.Basic
import Codexwatch.Server.Ingest

/-!
# Queries

The handlers of `server/src/lib.rs` that answer readers, from the authorised principal
on. They read the tables of tasks, payloads and heartbeats and write nothing. A reader
is bound to one client: `list_tasks_inner` forces the filter, the handlers of one task
look up its owner, the two others compare the client of the path.

## Main definitions

* `listTasksInner`, `taskDetailInner`, `taskAttemptsInner`, `taskEventsInner`,
  `taskErrorsInner`, `captureHealthInner`, `sessionDetailInner` — the handlers.
* `QueryRequest`, `respond` — a request for one of them, and its answer.
-/
namespace Codexwatch.Server

open Protocol Relational Check

structure TaskListQuery where
  clientId : Option String := none
  provider : Option String := none
  sessionId : Option String := none
  phase : Option TaskPhase := none
  terminal : Option TerminalOutcome := none
  cursor : Option String := none
  limit : Option ℕ := none
  deriving DecidableEq

structure TaskListResponse where
  tasks : List TaskSnapshot
  nextCursor : Option String
  deriving DecidableEq

structure TaskDetail where
  snapshot : TaskSnapshot
  attempts : List AttemptRecord
  events : List TaskEvent
  errors : List ErrorRecord
  gaps : List CaptureGapRecord
  deriving DecidableEq

structure CaptureHealthResponse where
  clientId : String
  instanceId : Uuid
  observedAtMs : TimestampMs
  integrity : IntegrityState
  deriving DecidableEq

structure SessionQuery where
  provider : Option String
  threadId : Option String
  deriving DecidableEq

structure SessionDetail where
  clientId : String
  provider : String
  sessionId : String
  threadId : String
  conversationTitle : Option String
  tasks : List TaskSnapshot
  deriving DecidableEq

def ensureQueryRole (principal : Principal) : Except StatusCode Unit :=
  ensure principal.role.canQuery .forbidden

def ensureTaskVisible (db : Database) (principal : Principal) (taskRef : String) :
    Except StatusCode Unit := do
  let row ← required (db.tasks.get? taskRef) .notFound
  ensure (principal.role.isAdmin ∨ row.clientId = principal.clientId) .forbidden

/-! ## The task list -/

/-- The order `updated_at_ms DESC, task_ref DESC`. -/
def Newer (a b : String × TaskRow) : Prop :=
  toLex (b.2.updatedAtMs, b.1) ≤ toLex (a.2.updatedAtMs, a.1)

instance : DecidableRel Newer := fun _ _ => inferInstanceAs (Decidable (_ ≤ _))

def newestFirst (rows : List (String × TaskRow)) : List (String × TaskRow) :=
  rows.insertionSort Newer

/-- The `WHERE` clause: a filter that is not given is not applied, and a row without a
terminal outcome equals none. -/
def TaskListQuery.Matches (query : TaskListQuery) (row : TaskRow) : Prop :=
  (∀ v ∈ query.clientId, row.clientId = v) ∧ (∀ v ∈ query.provider, row.provider = v) ∧
    (∀ v ∈ query.sessionId, row.sessionId = v) ∧ (∀ v ∈ query.phase, row.phase = v) ∧
    ∀ v ∈ query.terminal, row.terminal = some v

instance (query : TaskListQuery) (row : TaskRow) : Decidable (query.Matches row) :=
  inferInstanceAs (Decidable (_ ∧ _))

def TaskListQuery.pageSize (query : TaskListQuery) : ℕ := min (query.limit.getD 100) 500

/-- The filter of anyone but an administrator is set to the own client. -/
def TaskListQuery.boundTo (query : TaskListQuery) (principal : Principal) :
    Except StatusCode TaskListQuery :=
  if principal.role.isAdmin then pure query
  else do
    ensure (∀ clientId ∈ query.clientId, clientId = principal.clientId) .forbidden
    pure { query with clientId := some principal.clientId }

theorem TaskListQuery.boundTo_of_own {query : TaskListQuery} {principal : Principal}
    (hrole : principal.role.isAdmin = false)
    (h : ∀ clientId ∈ query.clientId, clientId = principal.clientId) :
    query.boundTo principal = .ok { query with clientId := some principal.clientId } := by
  rw [boundTo, hrole, if_neg Bool.false_ne_true, ensure, if_pos h]
  rfl

theorem TaskListQuery.boundTo_of_not_own {query : TaskListQuery} {principal : Principal}
    (hrole : principal.role.isAdmin = false)
    (h : ¬ ∀ clientId ∈ query.clientId, clientId = principal.clientId) :
    query.boundTo principal = .error .forbidden := by
  rw [boundTo, hrole, if_neg Bool.false_ne_true, ensure, if_neg h]
  rfl

def cursorOf (row : String × TaskRow) : String := toString row.2.updatedAtMs ++ ":" ++ row.1

def listTasksInner (db : Database) (principal : Principal) (query : TaskListQuery) :
    Except StatusCode TaskListResponse := do
  ensureQueryRole principal
  let query ← query.boundTo principal
  let rows :=
    (newestFirst (db.tasks.rows.filter fun r => query.Matches r.2)).take query.pageSize
  let tasks := rows.map fun r => r.2.snapshotJson
  let nextCursor :=
    if tasks.length = query.pageSize then rows.getLast?.map cursorOf else none
  pure ⟨tasks, nextCursor⟩

/-! ## One task -/

def fetchSnapshot (db : Database) (taskRef : String) : Except StatusCode TaskSnapshot :=
  required ((db.tasks.get? taskRef).map TaskRow.snapshotJson) .internalServerError

/-- The payloads of a task, in the order of their insertion. -/
def fetchPayloads {α : Type} (table : Table Uuid (PayloadRow α)) (taskRef : String) : List α :=
  (table.rows.filter fun r => r.2.taskRef = taskRef).map fun r => r.2.payloadJson

def taskDetailInner (db : Database) (principal : Principal) (taskRef : String) :
    Except StatusCode TaskDetail := do
  ensureQueryRole principal
  ensureTaskVisible db principal taskRef
  let snapshot ← fetchSnapshot db taskRef
  pure {
    snapshot
    attempts := fetchPayloads db.attempts taskRef
    events := fetchPayloads db.taskEvents taskRef
    errors := fetchPayloads db.errors taskRef
    gaps := fetchPayloads db.captureGaps taskRef }

/-- The handlers of one payload table. -/
def taskPayloadsInner {α : Type} (table : Database → Table Uuid (PayloadRow α)) (db : Database)
    (principal : Principal) (taskRef : String) : Except StatusCode (List α) := do
  ensureQueryRole principal
  ensureTaskVisible db principal taskRef
  pure (fetchPayloads (table db) taskRef)

def taskAttemptsInner : Database → Principal → String → Except StatusCode (List AttemptRecord) :=
  taskPayloadsInner Database.attempts

def taskEventsInner : Database → Principal → String → Except StatusCode (List TaskEvent) :=
  taskPayloadsInner Database.taskEvents

def taskErrorsInner : Database → Principal → String → Except StatusCode (List ErrorRecord) :=
  taskPayloadsInner Database.errors

/-! ## One client -/

def captureHealthInner (db : Database) (principal : Principal) (clientId : String) :
    Except StatusCode CaptureHealthResponse := do
  ensureQueryRole principal
  ensure (principal.role.isAdmin ∨ principal.clientId = clientId) .forbidden
  let row ← required (lastBy (fun r => r.2.observedAtMs)
    (db.heartbeats.rows.filter fun r => r.2.clientId = clientId)) .notFound
  pure ⟨clientId, row.2.instanceId, row.2.observedAtMs, row.2.captureHealth⟩

/-- The values of a `BTreeSet`. -/
def btreeSet (values : List String) : List String := values.dedup.insertionSort (· ≤ ·)

def sessionDetailInner (db : Database) (principal : Principal) (clientId sessionId : String)
    (query : SessionQuery) : Except StatusCode SessionDetail := do
  ensureQueryRole principal
  ensure (principal.role.isAdmin ∨ principal.clientId = clientId) .forbidden
  let rows := newestFirst (db.tasks.rows.filter fun r =>
    r.2.clientId = clientId ∧ r.2.sessionId = sessionId ∧
      (∀ v ∈ query.provider, r.2.provider = v) ∧ ∀ v ∈ query.threadId, r.2.threadId = v)
  ensure (rows ≠ []) .notFound
  let providers := btreeSet (rows.map fun r => r.2.provider)
  let threads := btreeSet (rows.map fun r => r.2.threadId)
  ensure (¬ (query.provider = none ∧ providers.length > 1)) .badRequest
  ensure (¬ (query.threadId = none ∧ threads.length > 1)) .badRequest
  let tasks := rows.map fun r => r.2.snapshotJson
  -- There is a row, so neither set is empty.
  pure {
    clientId
    provider := query.provider.getD (providers.headD "")
    sessionId
    threadId := query.threadId.getD (threads.headD "")
    conversationTitle := tasks.findSome? TaskSnapshot.conversationTitle
    tasks }

/-! ## Requests -/

inductive QueryRequest
  | tasks (query : TaskListQuery)
  | taskDetail (taskRef : String)
  | taskAttempts (taskRef : String)
  | taskEvents (taskRef : String)
  | taskErrors (taskRef : String)
  | captureHealth (clientId : String)
  | sessionDetail (clientId sessionId : String) (query : SessionQuery)
  deriving DecidableEq

inductive QueryBody
  | tasks (response : TaskListResponse)
  | taskDetail (detail : TaskDetail)
  | taskAttempts (attempts : List AttemptRecord)
  | taskEvents (events : List TaskEvent)
  | taskErrors (errors : List ErrorRecord)
  | captureHealth (response : CaptureHealthResponse)
  | sessionDetail (detail : SessionDetail)
  deriving DecidableEq

/-- The body of the response, or the status code without one. -/
def respond (db : Database) (principal : Principal) : QueryRequest → Except StatusCode QueryBody
  | .tasks query => (listTasksInner db principal query).map .tasks
  | .taskDetail taskRef => (taskDetailInner db principal taskRef).map .taskDetail
  | .taskAttempts taskRef => (taskAttemptsInner db principal taskRef).map .taskAttempts
  | .taskEvents taskRef => (taskEventsInner db principal taskRef).map .taskEvents
  | .taskErrors taskRef => (taskErrorsInner db principal taskRef).map .taskErrors
  | .captureHealth clientId => (captureHealthInner db principal clientId).map .captureHealth
  | .sessionDetail clientId sessionId query =>
    (sessionDetailInner db principal clientId sessionId query).map .sessionDetail

end Codexwatch.Server
