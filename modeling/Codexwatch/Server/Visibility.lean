import Codexwatch.Server.Isolation
import Codexwatch.Server.Queries

/-!
# What a bound reader can tell about other clients

Two databases that agree on the rows of client `b` answer the readers of `b` alike, up
to one bit: for a task reference that is not `b`'s, the handlers of one task answer
`NOT_FOUND` or `FORBIDDEN`, as another client has a task of that reference or not
(`respond_eq_iff`).

## Main definitions

* `TaskOf db b ref` — the task is stored for `b`.
* `AgreeOn b db₁ db₂` — the rows of `b` are the same, in the same order.
-/
namespace Codexwatch.Server

open Protocol Relational Check

def TaskOf (db : Database) (b taskRef : String) : Prop :=
  (db.tasks.get? taskRef).any fun row => row.clientId = b

instance (db : Database) (b taskRef : String) : Decidable (TaskOf db b taskRef) :=
  inferInstanceAs (Decidable (_ = true))

/-- The payloads of the client's tasks. -/
def ownPayloads {α : Type} (db : Database) (b : String) (table : Table Uuid (PayloadRow α)) :
    List (Uuid × PayloadRow α) :=
  table.rows.filter fun r => TaskOf db b r.2.taskRef

/-- The databases hold the same rows of `b`, in the same order of their `rowid`, in every
table that queries read. -/
structure AgreeOn (b : String) (db₁ db₂ : Database) : Prop where
  tasks : (db₁.tasks.rows.filter fun r => r.2.clientId = b) =
    db₂.tasks.rows.filter fun r => r.2.clientId = b
  attempts : ownPayloads db₁ b db₁.attempts = ownPayloads db₂ b db₂.attempts
  taskEvents : ownPayloads db₁ b db₁.taskEvents = ownPayloads db₂ b db₂.taskEvents
  errors : ownPayloads db₁ b db₁.errors = ownPayloads db₂ b db₂.errors
  captureGaps : ownPayloads db₁ b db₁.captureGaps = ownPayloads db₂ b db₂.captureGaps
  heartbeats : (db₁.heartbeats.rows.filter fun r => r.2.clientId = b) =
    db₂.heartbeats.rows.filter fun r => r.2.clientId = b

/-- The task that the request is about. -/
def QueryRequest.taskRef? : QueryRequest → Option String
  | .taskDetail taskRef | .taskAttempts taskRef | .taskEvents taskRef | .taskErrors taskRef =>
    some taskRef
  | .tasks _ | .captureHealth _ | .sessionDetail .. => none

section Agreeing
variable {b : String} {db db₁ db₂ : Database} {taskRef : String}

/-- A row of `b` is found in the one database as it is in the other. -/
theorem AgreeOn.get?_tasks (h : AgreeOn b db₁ db₂) {row : TaskRow} (hrow : row.clientId = b) :
    db₁.tasks.get? taskRef = some row ↔ db₂.tasks.get? taskRef = some row := by
  have hmem (db : Database) : db.tasks.get? taskRef = some row ↔
      (taskRef, row) ∈ db.tasks.rows.filter fun r => r.2.clientId = b := by
    rw [List.mem_filter, Table.get?_eq_some]
    simp [hrow]
  rw [hmem, hmem, h.tasks]

theorem taskOf_iff : TaskOf db b taskRef ↔
    ∃ row, db.tasks.get? taskRef = some row ∧ row.clientId = b := by
  rw [TaskOf, Option.any_eq_true]
  simp

theorem AgreeOn.taskOf (h : AgreeOn b db₁ db₂) :
    TaskOf db₁ b taskRef ↔ TaskOf db₂ b taskRef := by
  rw [taskOf_iff, taskOf_iff]
  exact exists_congr fun row => and_congr_left fun hrow => h.get?_tasks hrow

/-- A query for rows of `b` reads them from the rows of `b`. -/
theorem filter_of_own {α : Type} {rows : List α} {own p : α → Bool}
    (hp : ∀ r, p r = true → own r = true) : rows.filter p = (rows.filter own).filter p := by
  rw [List.filter_filter]
  refine List.filter_congr fun r _ => ?_
  cases hr : p r with
  | true => simp [hp r hr]
  | false => simp

theorem AgreeOn.fetchPayloads_eq {α : Type} (h : AgreeOn b db₁ db₂)
    {t₁ t₂ : Table Uuid (PayloadRow α)}
    (htables : ownPayloads db₁ b t₁ = ownPayloads db₂ b t₂) (hown : TaskOf db₁ b taskRef) :
    fetchPayloads t₁ taskRef = fetchPayloads t₂ taskRef := by
  have hfilter {db : Database} (hdb : TaskOf db b taskRef) (t : Table Uuid (PayloadRow α)) :
      fetchPayloads t taskRef = ((ownPayloads db b t).filter fun r => r.2.taskRef = taskRef).map
        fun r => r.2.payloadJson := by
    rw [fetchPayloads, ownPayloads, ← filter_of_own]
    intro r hr
    rw [decide_eq_true_eq] at hr ⊢
    rwa [hr]
  rw [hfilter hown, hfilter (h.taskOf.mp hown), htables]

theorem AgreeOn.fetchSnapshot_eq (h : AgreeOn b db₁ db₂) (hown : TaskOf db₁ b taskRef) :
    fetchSnapshot db₁ taskRef = fetchSnapshot db₂ taskRef := by
  rcases taskOf_iff.mp hown with ⟨row, hrow, hclient⟩
  rw [fetchSnapshot, fetchSnapshot, hrow, (h.get?_tasks hclient).mp hrow]

/-! ## The lookup of the owner -/

theorem ensureTaskVisible_of_own (h : TaskOf db b taskRef) :
    ensureTaskVisible db ⟨b, .reader⟩ taskRef = .ok () := by
  rcases taskOf_iff.mp h with ⟨row, hrow, hclient⟩
  simp [ensureTaskVisible, hrow, hclient]

open Classical in
/-- The status tells whether another client has the task. -/
theorem ensureTaskVisible_of_not_own (h : ¬ TaskOf db b taskRef) :
    ensureTaskVisible db ⟨b, .reader⟩ taskRef =
      .error (if TaskOfOther db b taskRef then .forbidden else .notFound) := by
  cases hrow : db.tasks.get? taskRef with
  | none =>
    have hother : ¬ TaskOfOther db b taskRef := by simp [TaskOfOther, hrow]
    rw [if_neg hother]
    simp [ensureTaskVisible, hrow, required, bind, Except.bind]
  | some row =>
    have hclient : row.clientId ≠ b := fun hclient => h (taskOf_iff.mpr ⟨row, hrow, hclient⟩)
    have hother : TaskOfOther db b taskRef := ⟨row, hrow, hclient⟩
    rw [if_pos hother]
    simp [ensureTaskVisible, hrow, required, bind, Except.bind, ensure, hclient,
      TokenRole.isAdmin]

theorem not_taskOfOther_of_own (h : TaskOf db b taskRef) : ¬ TaskOfOther db b taskRef := by
  rcases taskOf_iff.mp h with ⟨row, hrow, hclient⟩
  rintro ⟨row', hrow', hother⟩
  rw [hrow] at hrow'
  obtain rfl := Option.some.inj hrow'
  exact hother hclient

/-- A handler that looks up the owner first, and then reads only rows of the owner. -/
theorem AgreeOn.visible_eq_iff {α : Type} (h : AgreeOn b db₁ db₂)
    (read : Database → Except StatusCode α) (hread : TaskOf db₁ b taskRef → read db₁ = read db₂) :
    (do ensureTaskVisible db₁ ⟨b, .reader⟩ taskRef; read db₁) =
        (do ensureTaskVisible db₂ ⟨b, .reader⟩ taskRef; read db₂) ↔
      (TaskOfOther db₁ b taskRef ↔ TaskOfOther db₂ b taskRef) := by
  by_cases hown : TaskOf db₁ b taskRef
  · have hown₂ := h.taskOf.mp hown
    simp [ensureTaskVisible_of_own hown, ensureTaskVisible_of_own hown₂, hread hown,
      not_taskOfOther_of_own hown, not_taskOfOther_of_own hown₂]
  · have hown₂ : ¬ TaskOf db₂ b taskRef := fun hown₂ => hown (h.taskOf.mpr hown₂)
    rw [ensureTaskVisible_of_not_own hown, ensureTaskVisible_of_not_own hown₂]
    by_cases h₁ : TaskOfOther db₁ b taskRef <;> by_cases h₂ : TaskOfOther db₂ b taskRef <;>
      simp [h₁, h₂, bind, Except.bind]

end Agreeing

/-! ## The answers -/

section Answers
variable {b : String} {db db₁ db₂ : Database}

@[simp] theorem ensureQueryRole_reader : ensureQueryRole ⟨b, .reader⟩ = .ok () := rfl

theorem AgreeOn.taskPayloadsInner_eq_iff {α : Type} (h : AgreeOn b db₁ db₂)
    {table : Database → Table Uuid (PayloadRow α)}
    (htables : ownPayloads db₁ b (table db₁) = ownPayloads db₂ b (table db₂)) {taskRef : String} :
    taskPayloadsInner table db₁ ⟨b, .reader⟩ taskRef =
        taskPayloadsInner table db₂ ⟨b, .reader⟩ taskRef ↔
      (TaskOfOther db₁ b taskRef ↔ TaskOfOther db₂ b taskRef) :=
  h.visible_eq_iff (fun db => pure (fetchPayloads (table db) taskRef)) fun hown => by
    rw [h.fetchPayloads_eq htables hown]

theorem AgreeOn.taskDetailInner_eq_iff (h : AgreeOn b db₁ db₂) {taskRef : String} :
    taskDetailInner db₁ ⟨b, .reader⟩ taskRef = taskDetailInner db₂ ⟨b, .reader⟩ taskRef ↔
      (TaskOfOther db₁ b taskRef ↔ TaskOfOther db₂ b taskRef) := by
  refine h.visible_eq_iff (fun db => do
    let snapshot ← fetchSnapshot db taskRef
    pure (TaskDetail.mk snapshot (fetchPayloads db.attempts taskRef)
      (fetchPayloads db.taskEvents taskRef) (fetchPayloads db.errors taskRef)
      (fetchPayloads db.captureGaps taskRef))) fun hown => ?_
  simp only [h.fetchSnapshot_eq hown, h.fetchPayloads_eq h.attempts hown,
    h.fetchPayloads_eq h.taskEvents hown, h.fetchPayloads_eq h.errors hown,
    h.fetchPayloads_eq h.captureGaps hown]

/-- The filter of the list is forced to the own client. -/
theorem AgreeOn.listTasksInner_eq (h : AgreeOn b db₁ db₂) (query : TaskListQuery) :
    listTasksInner db₁ ⟨b, .reader⟩ query = listTasksInner db₂ ⟨b, .reader⟩ query := by
  have hrows (db : Database) : (db.tasks.rows.filter fun r =>
      ({ query with clientId := some b } : TaskListQuery).Matches r.2) =
      (db.tasks.rows.filter fun r => r.2.clientId = b).filter fun r =>
        ({ query with clientId := some b } : TaskListQuery).Matches r.2 := by
    refine filter_of_own fun r hr => ?_
    rw [decide_eq_true_eq] at hr ⊢
    exact hr.1 b rfl
  by_cases hbound : ∀ clientId ∈ query.clientId, clientId = b
  · have hquery : query.boundTo ⟨b, .reader⟩ = .ok { query with clientId := some b } :=
      TaskListQuery.boundTo_of_own rfl hbound
    simp only [listTasksInner, hquery, bind, Except.bind, hrows, h.tasks]
  · have hquery : query.boundTo ⟨b, .reader⟩ = .error .forbidden :=
      TaskListQuery.boundTo_of_not_own rfl hbound
    simp only [listTasksInner, hquery, bind, Except.bind]

theorem AgreeOn.captureHealthInner_eq (h : AgreeOn b db₁ db₂) (clientId : String) :
    captureHealthInner db₁ ⟨b, .reader⟩ clientId = captureHealthInner db₂ ⟨b, .reader⟩ clientId := by
  by_cases hclient : b = clientId
  · subst hclient
    simp only [captureHealthInner, h.heartbeats]
  · simp [captureHealthInner, hclient, TokenRole.isAdmin, ensure, bind, Except.bind]

theorem AgreeOn.sessionDetailInner_eq (h : AgreeOn b db₁ db₂) (clientId sessionId : String)
    (query : SessionQuery) :
    sessionDetailInner db₁ ⟨b, .reader⟩ clientId sessionId query =
      sessionDetailInner db₂ ⟨b, .reader⟩ clientId sessionId query := by
  by_cases hclient : b = clientId
  · subst hclient
    have hrows (db : Database) : (db.tasks.rows.filter fun r =>
        r.2.clientId = b ∧ r.2.sessionId = sessionId ∧
          (∀ v ∈ query.provider, r.2.provider = v) ∧ ∀ v ∈ query.threadId, r.2.threadId = v) =
        (db.tasks.rows.filter fun r => r.2.clientId = b).filter fun r =>
          r.2.clientId = b ∧ r.2.sessionId = sessionId ∧
            (∀ v ∈ query.provider, r.2.provider = v) ∧ ∀ v ∈ query.threadId, r.2.threadId = v := by
      refine filter_of_own fun r hr => ?_
      rw [decide_eq_true_eq] at hr ⊢
      exact hr.1
    simp only [sessionDetailInner, hrows, h.tasks]
  · simp [sessionDetailInner, hclient, TokenRole.isAdmin, ensure, bind, Except.bind]

/-- Databases that agree on the rows of `b` answer a reader of `b` alike, to a request
about a task exactly when another client has that task in both or in neither. -/
theorem respond_eq_iff (h : AgreeOn b db₁ db₂) (request : QueryRequest) :
    respond db₁ ⟨b, .reader⟩ request = respond db₂ ⟨b, .reader⟩ request ↔
      ∀ taskRef ∈ request.taskRef?,
        (TaskOfOther db₁ b taskRef ↔ TaskOfOther db₂ b taskRef) := by
  cases request with
  | tasks query => simp [respond, QueryRequest.taskRef?, h.listTasksInner_eq query]
  | taskDetail taskRef =>
    rw [respond, respond, map_eq_map_iff fun _ _ => QueryBody.taskDetail.inj,
      h.taskDetailInner_eq_iff]
    simp [QueryRequest.taskRef?]
  | taskAttempts taskRef =>
    rw [respond, respond, map_eq_map_iff fun _ _ => QueryBody.taskAttempts.inj]
    refine (h.taskPayloadsInner_eq_iff h.attempts).trans ?_
    simp [QueryRequest.taskRef?]
  | taskEvents taskRef =>
    rw [respond, respond, map_eq_map_iff fun _ _ => QueryBody.taskEvents.inj]
    refine (h.taskPayloadsInner_eq_iff h.taskEvents).trans ?_
    simp [QueryRequest.taskRef?]
  | taskErrors taskRef =>
    rw [respond, respond, map_eq_map_iff fun _ _ => QueryBody.taskErrors.inj]
    refine (h.taskPayloadsInner_eq_iff h.errors).trans ?_
    simp [QueryRequest.taskRef?]
  | captureHealth clientId =>
    simp [respond, QueryRequest.taskRef?, h.captureHealthInner_eq clientId]
  | sessionDetail clientId sessionId query =>
    simp [respond, QueryRequest.taskRef?, h.sessionDetailInner_eq clientId sessionId query]

end Answers

/-- A database without any rows, and one with a task of client `a`. -/
theorem agreeOn_serverOfA : AgreeOn "b" Database.empty serverOfA where
  tasks := by decide +kernel
  attempts := by decide +kernel
  taskEvents := by decide +kernel
  errors := by decide +kernel
  captureGaps := by decide +kernel
  heartbeats := by decide +kernel

/-- The server with a task of client `b`, without and with the one of `a`. -/
def serverOfB : Database := applied Database.empty (sampleBatch "b" "v" 2 1) "" 30

def serverOfBoth : Database := applied serverOfA (sampleBatch "b" "v" 2 1) "" 30

theorem agreeOn_serverOfBoth : AgreeOn "b" serverOfB serverOfBoth where
  tasks := by decide +kernel
  attempts := by decide +kernel
  taskEvents := by decide +kernel
  errors := by decide +kernel
  captureGaps := by decide +kernel
  heartbeats := by decide +kernel

/-- The reader of `b` is told of the task of `b`, the same with the one of `a` beside it. -/
theorem respond_serverOfBoth_ownTask :
    respond serverOfB ⟨"b", .reader⟩ (.taskDetail "s:t:v") =
        .ok (.taskDetail ⟨sampleSnapshot "v" 1, [], [], [], []⟩) ∧
      respond serverOfB ⟨"b", .reader⟩ (.taskDetail "s:t:v") =
        respond serverOfBoth ⟨"b", .reader⟩ (.taskDetail "s:t:v") := by
  refine ⟨by decide +kernel, (respond_eq_iff agreeOn_serverOfBoth (.taskDetail "s:t:v")).mpr ?_⟩
  have hown : TaskOf serverOfB "b" "s:t:v" ∧ TaskOf serverOfBoth "b" "s:t:v" := by decide +kernel
  rintro taskRef href
  obtain rfl : "s:t:v" = taskRef := by simpa [QueryRequest.taskRef?] using href
  exact iff_of_false (not_taskOfOther_of_own hown.1) (not_taskOfOther_of_own hown.2)

/-- A reader of `b` learns that client `a` has the task. -/
theorem respond_serverOfA_sameTask :
    AgreeOn "b" Database.empty serverOfA ∧
      respond Database.empty ⟨"b", .reader⟩ (.taskAttempts "s:t:u") = .error .notFound ∧
      respond serverOfA ⟨"b", .reader⟩ (.taskAttempts "s:t:u") = .error .forbidden :=
  ⟨agreeOn_serverOfA, by decide +kernel, by decide +kernel⟩

end Codexwatch.Server
