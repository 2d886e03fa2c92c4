import Codexwatch.Server.Coherence
import Codexwatch.Server.Paging

/-!
# What readers are answered

The queries filter and sort by columns and answer with the JSON column. Since the columns
are those of the records (`Coherent`), the answers are right about the records themselves:
what is listed matches the filters by its own fields and comes newest first, what is listed
under a task or a session says that it belongs there, and all of it is valid.

## Main definitions

* `QueryRequest.Right` — what a right answer to the request is.
* `right_run` — that readers get no other.
-/
namespace Codexwatch.Server

open Protocol Relational Check

/-! ## Right answers -/

/-- The snapshot matches the filters. -/
def TaskListQuery.Admits (query : TaskListQuery) (s : TaskSnapshot) : Prop :=
  (∀ v ∈ query.provider, s.identity.provider = v) ∧
    (∀ v ∈ query.sessionId, s.identity.sessionId = v) ∧ (∀ v ∈ query.phase, s.phase = v) ∧
    ∀ v ∈ query.terminal, s.terminal = some v

/-- Valid snapshots, each newer than the next; of two as new, the greater reference first. -/
structure NewestFirst (snapshots : List TaskSnapshot) : Prop where
  valid : ∀ s ∈ snapshots, s.validate = .ok ()
  sorted : snapshots.Pairwise fun a b =>
    toLex (b.updatedAtMs, b.taskRef) < toLex (a.updatedAtMs, a.taskRef)

/-- Each record fits the task, and no two have the same identifier. -/
structure Records {α : Type} (idFn : α → Uuid) (fits : String → α → Prop) (taskRef : String)
    (records : List α) : Prop where
  fits : ∀ record ∈ records, fits taskRef record
  distinct : (records.map idFn).Nodup

def AttemptsOf : String → List AttemptRecord → Prop :=
  Records AttemptRecord.attemptId fun ref a => a.taskRef = ref ∧ a.validate = .ok ()

def EventsOf : String → List TaskEvent → Prop :=
  Records TaskEvent.eventId fun ref e => e.taskRef = ref ∧ e.validate = .ok ()

def ErrorsOf : String → List ErrorRecord → Prop :=
  Records ErrorRecord.errorId fun ref e => e.taskRef = ref ∧ e.validate = .ok ()

def GapsOf : String → List CaptureGapRecord → Prop :=
  Records CaptureGapRecord.gapId fun ref g =>
    (∀ value ∈ g.taskRef, value = ref) ∧ g.validate = .ok ()

structure TaskDetail.Right (taskRef : String) (detail : TaskDetail) : Prop where
  snapshot : detail.snapshot.taskRef = taskRef
  valid : detail.snapshot.validate = .ok ()
  attempts : AttemptsOf taskRef detail.attempts
  events : EventsOf taskRef detail.events
  errors : ErrorsOf taskRef detail.errors
  gaps : GapsOf taskRef detail.gaps

structure SessionDetail.Right (clientId sessionId : String) (query : SessionQuery)
    (detail : SessionDetail) : Prop where
  clientId : detail.clientId = clientId
  sessionId : detail.sessionId = sessionId
  provider : ∀ v ∈ query.provider, detail.provider = v
  threadId : ∀ v ∈ query.threadId, detail.threadId = v
  nonempty : detail.tasks ≠ []
  tasks : NewestFirst detail.tasks
  /-- All tasks are of the one session that is named. -/
  identity : ∀ s ∈ detail.tasks, s.identity.provider = detail.provider ∧
    s.identity.sessionId = detail.sessionId ∧ s.identity.threadId = detail.threadId

/-- A right answer to the request. -/
def QueryRequest.Right : QueryRequest → QueryBody → Prop
  | .tasks query, .tasks response => NewestFirst response.tasks ∧
      (∀ s ∈ response.tasks, query.Admits s) ∧ response.tasks.length ≤ 500
  | .taskDetail taskRef, .taskDetail detail => detail.Right taskRef
  | .taskAttempts taskRef, .taskAttempts attempts => AttemptsOf taskRef attempts
  | .taskEvents taskRef, .taskEvents events => EventsOf taskRef events
  | .taskErrors taskRef, .taskErrors errors => ErrorsOf taskRef errors
  | .captureHealth clientId, .captureHealth response => response.clientId = clientId ∧
      isUuidV7 response.instanceId
  | .sessionDetail clientId sessionId query, .sessionDetail detail =>
      detail.Right clientId sessionId query
  | _, _ => False

/-! ## Lists of tasks -/

section Tasks
variable {db : Database} {rows : List (String × TaskRow)}

theorem pairwise_newestFirst (h : (rows.map Prod.fst).Nodup) :
    (newestFirst rows).Pairwise fun a b =>
      toLex (b.2.updatedAtMs, b.1) < toLex (a.2.updatedAtMs, a.1) := by
  have hkeys : ((newestFirst rows).map Prod.fst).Nodup := by
    rw [newestFirst, ((List.perm_insertionSort _ _).map Prod.fst).nodup_iff]
    exact h
  have hle := List.pairwise_insertionSort Newer rows
  refine (hle.and (List.pairwise_map.mp hkeys)).imp fun hab => lt_of_le_of_ne hab.1 fun heq => ?_
  exact hab.2 (Prod.mk.inj (toLex.injective heq)).2.symm

/-- Sorting rows by their columns sorts their snapshots. -/
theorem newestFirst_snapshots (hfits : ∀ r ∈ rows, r.2.Fits r.1)
    (hsorted : rows.Pairwise fun a b =>
      toLex (b.2.updatedAtMs, b.1) < toLex (a.2.updatedAtMs, a.1)) :
    NewestFirst (rows.map fun r => r.2.snapshotJson) where
  valid := by
    rw [List.forall_mem_map]
    exact fun r hr => (hfits r hr).valid
  sorted := by
    rw [List.pairwise_map]
    refine hsorted.imp_of_mem fun {a b} ha hb hlt => ?_
    have hcolumns : ∀ r ∈ rows, r.2.updatedAtMs = r.2.snapshotJson.updatedAtMs := fun r hr =>
      congrArg TaskRow.updatedAtMs (hfits r hr).columns
    rw [← hcolumns a ha, ← hcolumns b hb, (hfits a ha).key, (hfits b hb).key]
    exact hlt

theorem fits_of_mem_filter (h : Coherent db) {p : String × TaskRow → Bool} {r : String × TaskRow}
    (hr : r ∈ db.tasks.rows.filter p) : r.2.Fits r.1 :=
  h.task r.1 r.2 (Table.mem_rows_iff.mp (List.mem_of_mem_filter hr))

theorem nodup_filter (db : Database) (p : String × TaskRow → Bool) :
    ((db.tasks.rows.filter p).map Prod.fst).Nodup :=
  db.tasks.nodup.sublist (List.filter_sublist.map Prod.fst)

end Tasks

/-! ## Lists of payloads -/

theorem records_fetchPayloads {α : Type} {idFn : α → Uuid} {tsFn : α → TimestampMs}
    {fits : String → α → Prop} {tasks : Table String TaskRow} {table : Table Uuid (PayloadRow α)}
    (h : PayloadsFit idFn tsFn fits tasks table) (taskRef : String) :
    Records idFn fits taskRef (fetchPayloads table taskRef) where
  fits := by
    rw [fetchPayloads, List.forall_mem_map]
    intro r hr
    obtain ⟨hmem, href⟩ := List.mem_filter.mp hr
    obtain ⟨-, -, hfits, -⟩ := h r.1 r.2 (Table.mem_rows_iff.mp hmem)
    rw [← of_decide_eq_true href]
    exact hfits
  distinct := by
    have hids : (fetchPayloads table taskRef).map idFn =
        (table.rows.filter fun r => r.2.taskRef = taskRef).map Prod.fst := by
      rw [fetchPayloads, List.map_map]
      refine List.map_congr_left fun r hr => ?_
      exact (h r.1 r.2 (Table.mem_rows_iff.mp (List.mem_of_mem_filter hr))).1
    rw [hids]
    exact table.nodup.sublist (List.filter_sublist.map Prod.fst)

/-! ## The handlers -/

section Handlers
variable {db : Database} {principal : Principal} {taskRef : String}

theorem right_listTasks (h : Coherent db) {query : TaskListQuery} {response : TaskListResponse}
    (hok : listTasksInner db principal query = .ok response) :
    (QueryRequest.tasks query).Right (.tasks response) := by
  obtain ⟨-, rfl⟩ := listTasksInner_eq_ok.mp hok
  have hfits : ∀ r ∈ (newestFirst (matchingTasks db principal query)).take query.pageSize,
      r.2.Fits r.1 ∧ query.Matches r.2 := by
    intro r hr
    have hmem := List.mem_of_mem_take hr
    rw [newestFirst, List.mem_insertionSort] at hmem
    have hmatches := of_decide_eq_true (List.mem_filter.mp hmem).2
    exact ⟨fits_of_mem_filter h hmem, hmatches.1⟩
  refine ⟨newestFirst_snapshots (fun r hr => (hfits r hr).1) ?_, ?_, ?_⟩
  · exact (pairwise_newestFirst (nodup_filter db _)).sublist (List.take_sublist _ _)
  · rw [pageOf, List.forall_mem_map]
    intro r hr
    obtain ⟨hfit, -, hprovider, hsession, hphase, hterminal⟩ := hfits r hr
    rw [hfit.columns] at hprovider hsession hphase hterminal
    exact ⟨hprovider, hsession, hphase, hterminal⟩
  · rw [pageOf, List.length_map]
    exact (List.length_take_le _ _).trans (Nat.min_le_right _ _)

theorem right_taskDetail (h : Coherent db) {detail : TaskDetail}
    (hok : taskDetailInner db principal taskRef = .ok detail) : detail.Right taskRef := by
  simp only [taskDetailInner, bind_eq_ok, exists_unit_and, fetchSnapshot, required_eq_ok,
    Option.map_eq_some_iff, pure_eq_ok] at hok
  obtain ⟨-, -, _, ⟨row, hrow, rfl⟩, rfl⟩ := hok
  have hfits := h.task taskRef row hrow
  exact {
    snapshot := hfits.key
    valid := hfits.valid
    attempts := records_fetchPayloads h.attempts taskRef
    events := records_fetchPayloads h.taskEvents taskRef
    errors := records_fetchPayloads h.errors taskRef
    gaps := records_fetchPayloads h.captureGaps taskRef }

theorem records_of_ok {α : Type} {idFn : α → Uuid} {tsFn : α → TimestampMs}
    {fits : String → α → Prop} {table : Database → Table Uuid (PayloadRow α)}
    (h : PayloadsFit idFn tsFn fits db.tasks (table db)) {records : List α}
    (hok : taskPayloadsInner table db principal taskRef = .ok records) :
    Records idFn fits taskRef records := by
  simp only [taskPayloadsInner, bind_eq_ok, exists_unit_and, pure_eq_ok] at hok
  obtain ⟨-, -, rfl⟩ := hok
  exact records_fetchPayloads h taskRef

/-- The identifiers that a valid heartbeat carries are checked. -/
theorem right_captureHealth (h : Coherent db) {clientId : String}
    {response : CaptureHealthResponse}
    (hok : captureHealthInner db principal clientId = .ok response) :
    response.clientId = clientId ∧ isUuidV7 response.instanceId := by
  simp only [captureHealthInner, bind_eq_ok, exists_unit_and, required_eq_ok, pure_eq_ok] at hok
  obtain ⟨-, -, r, hlast, rfl⟩ := hok
  have hmem := List.mem_of_mem_filter (List.argmax_mem hlast)
  obtain ⟨-, hvalid, -, -⟩ := h.heartbeat r.1 r.2 (Table.mem_rows_iff.mp hmem)
  exact ⟨rfl, (Heartbeat.validate_eq_ok.mp hvalid).1.2⟩

/-- Of a set with at most one value, all values are the first. -/
theorem eq_headD_btreeSet {values : List String} (h : ¬ 1 < (btreeSet values).length)
    {v : String} (hv : v ∈ values) : v = (btreeSet values).headD "" := by
  have hmem : v ∈ btreeSet values := by
    rw [btreeSet, List.mem_insertionSort, List.mem_dedup]
    exact hv
  match hset : btreeSet values with
  | [] =>
      rw [hset] at hmem
      cases hmem
  | [w] =>
      rw [hset] at hmem
      exact List.mem_singleton.mp hmem
  | _ :: _ :: _ =>
      rw [hset] at h
      exact absurd (by simp) h

theorem right_sessionDetail (h : Coherent db) {clientId sessionId : String} {query : SessionQuery}
    {detail : SessionDetail}
    (hok : sessionDetailInner db principal clientId sessionId query = .ok detail) :
    detail.Right clientId sessionId query := by
  simp only [sessionDetailInner, bind_eq_ok, exists_unit_and, ensure_eq_ok, pure_eq_ok] at hok
  obtain ⟨-, -, hne, hproviders, hthreads, rfl⟩ := hok
  have hrows : ∀ r ∈ newestFirst (db.tasks.rows.filter fun r =>
      r.2.clientId = clientId ∧ r.2.sessionId = sessionId ∧
        (∀ v ∈ query.provider, r.2.provider = v) ∧ ∀ v ∈ query.threadId, r.2.threadId = v),
      r.2.Fits r.1 ∧ r.2.sessionId = sessionId ∧ (∀ v ∈ query.provider, r.2.provider = v) ∧
        ∀ v ∈ query.threadId, r.2.threadId = v := by
    intro r hr
    rw [newestFirst, List.mem_insertionSort] at hr
    have hmatches := of_decide_eq_true (List.mem_filter.mp hr).2
    exact ⟨fits_of_mem_filter h hr, hmatches.2⟩
  -- a value that is not asked for is the only one there is
  have hunique {asked : Option String} {values : List String} {v : String}
      (hset : ¬ (asked = none ∧ (btreeSet values).length > 1)) (hasked : ∀ w ∈ asked, v = w)
      (hv : v ∈ values) : v = asked.getD ((btreeSet values).headD "") := by
    cases asked with
    | none => exact eq_headD_btreeSet (fun hlong => hset ⟨rfl, hlong⟩) hv
    | some w => exact hasked w rfl
  exact {
    clientId := rfl
    sessionId := rfl
    provider := fun v hv => by rw [Option.mem_def.mp hv]; rfl
    threadId := fun v hv => by rw [Option.mem_def.mp hv]; rfl
    nonempty := fun hnil => hne (List.map_eq_nil_iff.mp hnil)
    tasks := newestFirst_snapshots (fun r hr => (hrows r hr).1)
      (pairwise_newestFirst (nodup_filter db _))
    identity := by
      rw [List.forall_mem_map]
      intro r hr
      obtain ⟨hfits, hsession, hprovider, hthread⟩ := hrows r hr
      have hprovider' := hunique hproviders hprovider
        (List.mem_map_of_mem (f := fun r : String × TaskRow => r.2.provider) hr)
      have hthread' := hunique hthreads hthread
        (List.mem_map_of_mem (f := fun r : String × TaskRow => r.2.threadId) hr)
      have hcolumns := hfits.columns
      rw [hcolumns] at hsession hprovider' hthread'
      exact ⟨hprovider', hsession, hthread'⟩ }

theorem right_of_respond (h : Coherent db) {request : QueryRequest} {body : QueryBody}
    (hok : respond db principal request = .ok body) : request.Right body := by
  cases request with
  | tasks query =>
      obtain ⟨response, hresponse, rfl⟩ := map_eq_ok.mp hok
      exact right_listTasks h hresponse
  | taskDetail taskRef =>
      obtain ⟨detail, hdetail, rfl⟩ := map_eq_ok.mp hok
      exact right_taskDetail h hdetail
  | taskAttempts taskRef =>
      obtain ⟨attempts, hattempts, rfl⟩ := map_eq_ok.mp hok
      exact records_of_ok h.attempts hattempts
  | taskEvents taskRef =>
      obtain ⟨events, hevents, rfl⟩ := map_eq_ok.mp hok
      exact records_of_ok h.taskEvents hevents
  | taskErrors taskRef =>
      obtain ⟨errors, herrors, rfl⟩ := map_eq_ok.mp hok
      exact records_of_ok h.errors herrors
  | captureHealth clientId =>
      obtain ⟨response, hresponse, rfl⟩ := map_eq_ok.mp hok
      exact right_captureHealth h hresponse
  | sessionDetail clientId sessionId query =>
      obtain ⟨detail, hdetail, rfl⟩ := map_eq_ok.mp hok
      exact right_sessionDetail h hdetail

end Handlers

/-- In every state that the service reaches, every query that is answered is answered right. -/
theorem right_run (codec : Codec) (es : List Api.Event) (principal : Principal)
    (request : QueryRequest) (body : QueryBody)
    (hok : respond (Run.run (Api.step codec) (.start .empty) es).db principal request = .ok body) :
    request.Right body :=
  have hcoherent : Coherent (Run.run (Api.step codec) (.start .empty) es).db :=
    Api.database_run (I := Coherent) (fun _ _ h hwrite => h.write hwrite) coherent_empty es
  right_of_respond hcoherent hok

/-! ## A task with records -/

def openAttempt : AttemptRecord where
  attemptId := .v7 3
  taskRef := "s:t:u"
  ordinal := 1
  responseId := none
  transport := "http1"
  status := .running
  httpStatus := none
  model := none
  toolNames := []
  usage := .zero
  error := none
  requestObjectSha256 := none
  responseObjectSha256 := none
  startedAtMs := 6
  endedAtMs := none
  awaitingTool := false

def refusedError : ErrorRecord where
  errorId := .v7 4
  taskRef := "s:t:u"
  attemptId := none
  occurredAtMs := 7
  source := .httpStatus
  wireType := none
  code := none
  message := "unavailable"
  param := none
  reason := none
  httpStatus := some 503
  exitCode := none
  signal := none

/-- A gap that names no task. -/
def flowGap : CaptureGapRecord where
  gapId := .v7 5
  taskRef := none
  flowId := "flow"
  direction := .serverToClient
  occurredAtMs := 8
  startSeq := 10
  endSeq := 20
  reason := "pending_overflow"

def recordsBatch : IngestBatch :=
  { sampleBatch "a" "u" 1 1 with
    tasks := [⟨sampleSnapshot "u" 1, [openAttempt],
      [TaskReducer.plainEvent 1 .attemptStarted .running], [refusedError], [flowGap]⟩] }

/-- Client `a` posts the batch. -/
def sampleIngest : List Api.Event :=
  [.token (.issue "a" "secret" none false 1),
    .request [("authorization", Capture.textBytes "Bearer secret")] (.ingest recordsBatch.cbor) 5,
    .proceed 0 6 20 (.v7 8) (.v7 9)]

/-- Its reader asks for the task. -/
theorem right_run_taskDetail :
    (QueryRequest.taskDetail "s:t:u").Right
      (.taskDetail ⟨sampleSnapshot "u" 1, [openAttempt],
        [TaskReducer.plainEvent 1 .attemptStarted .running], [refusedError], [flowGap]⟩) :=
  right_run (.writing [recordsBatch]) sampleIngest ⟨"a", .reader⟩ _ _ (by decide +kernel)

end Codexwatch.Server
