import Codexwatch.Client.Terminal
import Codexwatch.Client.Uploads
import Codexwatch.Protocol.State

/-!
# The uploads of a task and the task reducer

The client writes the row of a task by its own statements and uploads it with an
event for each step. A `TaskReducer` that starts from the first uploaded snapshot can
apply every later event. What it arrives at differs from the row in two cases. A whole
exchange sets a degraded row back to complete, which no event does. A process that ends
without an error leaves the completeness of its task, and its event says that the task
is lost.

## Main definitions

* `uploadsFor` — the uploads of a task in a run.
* `follow`, `Tracks` — a reducer that is fed with them.
* `Regular`, `InTime`, `Followable` — runs of single steps in order, and the condition.

## Main results

* `agreeing_update_iff` — one event and the row of its upload.
* `refines_of_followable` — runs.
-/
namespace Codexwatch.Client

open Protocol Capture Relational

/-! ## What a batch does to a row -/

/-- The columns of a row that a reducer follows. -/
structure Standing where
  sequence : ℕ
  phase : TaskPhase
  outcome : Option TaskOutcome
  updatedAt : ℤ
  terminalAt : Option ℤ
  completeness : Completeness

def TaskRow.standing (row : TaskRow) : Standing where
  sequence := row.sequence
  phase := row.phase
  outcome := row.outcome
  updatedAt := row.updatedAt
  terminalAt := row.terminalAt
  completeness := row.completeness

def TaskSummary.standing (summary : TaskSummary) : Standing where
  sequence := summary.sequence
  phase := summary.phase
  outcome := summary.outcome
  updatedAt := ts summary.updatedAt
  terminalAt := summary.terminalAt.map ts
  completeness := summary.completeness

/-- Only the uploads of its own task show what a record is about, and a gap has no row. -/
def SummaryRecord.writes (record : SummaryRecord) : Option String :=
  match record with
  | .captureGap _ => none
  | record => record.uploadTask

section Records
variable {codec : Codec} {s : Store} {taskRef : String}

@[simp] theorem writes_normalizeRecord (record : SummaryRecord) :
    (normalizeRecord codec record).writes = record.writes := by
  cases record <;> rfl

@[simp] theorem advances_normalizeRecord (record : SummaryRecord) :
    (normalizeRecord codec record).advances = record.advances := by
  cases record <;> rfl

@[simp] theorem uploadTask_normalizeRecord (record : SummaryRecord) :
    (normalizeRecord codec record).uploadTask = record.uploadTask := by
  cases record <;> rfl

/-- The records of other tasks leave a row alone. -/
theorem get?_applyRecord_of_ne {record : SummaryRecord} (h : record.writes ≠ some taskRef) :
    (applyRecord s record).2.activeTasks.get? taskRef = s.activeTasks.get? taskRef := by
  have hne : ∀ task : TaskKey, record.writes = some task.taskRef → taskRef ≠ task.taskRef := by
    intro task hwrites heq
    exact h (heq ▸ hwrites)
  cases record with
  | task summary =>
      simp only [applyRecord, upsertTaskSummary]
      split
      · rfl
      · rw [Table.get?_upsert_of_ne (hne summary.task rfl)]
  | taskTransition transition =>
      simp only [applyRecord, upsertTransition]
      split
      · rfl
      · rw [Table.get?_upsert_of_ne (hne transition.task rfl)]
  | attempt attempt =>
      simp only [applyRecord, upsertAttempt]
      split
      · rfl
      · rw [Table.get?_modify, if_neg (hne attempt.task rfl)]
  | session session =>
      simp only [applyRecord, mergeSession]
      rw [Table.get?_modify, if_neg (hne session.task rfl)]
  | captureGap gap =>
      simp only [applyRecord, upsertGap]
      split <;> rfl
  | process process => rfl
  | httpExchange exchange => rfl
  | heartbeat heartbeat => rfl

theorem get?_applyRecords_of_ne {records : List SummaryRecord}
    (h : ∀ record ∈ records, record.writes ≠ some taskRef) :
    (applyRecords s records).2.activeTasks.get? taskRef = s.activeTasks.get? taskRef := by
  induction records generalizing s with
  | nil => rfl
  | cons record records ih =>
      rw [applyRecords, ih fun other hmem => h other (List.mem_cons_of_mem record hmem),
        get?_applyRecord_of_ne (h record List.mem_cons_self)]

theorem progress_applyRecords_of_ne {records : List SummaryRecord}
    (h : ∀ record ∈ records, record.advances ≠ some taskRef) :
    (applyRecords s records).2.progress taskRef = s.progress taskRef := by
  induction records generalizing s with
  | nil => rfl
  | cons record records ih =>
      rw [applyRecords, ih fun other hmem => h other (List.mem_cons_of_mem record hmem),
        progress_applyRecord_of_ne (h record List.mem_cons_self)]

theorem accepted_append {records records' : List SummaryRecord} :
    (applyRecords s (records ++ records')).1 =
      (applyRecords s records).1 ++ (applyRecords (applyRecords s records).2 records').1 := by
  induction records generalizing s with
  | nil => rfl
  | cons record records ih =>
      rw [List.cons_append, applyRecords, applyRecords, ih]
      split <;> rfl

/-- After a summary that counts on, and its own transition, the row shows the summary. -/
theorem applyRecords_carried {lead : List SummaryRecord} (summary : TaskSummary)
    (transition : TaskTransition) (hlead : ∀ record ∈ lead, record.advances = none)
    (htask : transition.task = summary.task) (hsequence : transition.sequence = summary.sequence)
    (hevent : transition.eventId = summary.lastEventId)
    (hnext : storedSequence s summary.task.taskRef < summary.sequence) :
    (applyRecords s (lead ++ [.task summary, .taskTransition transition])).1 =
      (applyRecords s lead).1 ++ [.task summary, .taskTransition transition] ∧
    ∃ row, (applyRecords s (lead ++ [.task summary, .taskTransition transition])).2.activeTasks.get?
        summary.task.taskRef = some row ∧ row.standing = summary.standing := by
  have hprogress : (applyRecords s lead).2.progress summary.task.taskRef =
      s.progress summary.task.taskRef :=
    progress_applyRecords_of_ne fun record hmem => by simp [hlead record hmem]
  rw [accepted_append, applyRecords_append]
  generalize (applyRecords s lead).2 = middle at hprogress ⊢
  have hnext' : storedSequence middle summary.task.taskRef < summary.sequence := by
    rwa [storedSequence_eq_progress, hprogress, ← storedSequence_eq_progress]
  have hrow := get?_upsertTaskSummary_of_lt hnext'
  have hskip : upsertTransition (upsertTaskSummary middle summary).2 transition =
      (upsertTaskSummary middle summary).2 := by
    apply upsertTransition_of_progress summary.phase summary.outcome
    rw [Store.progress, htask, hrow, Option.map_some, hsequence, hevent]
    cases middle.activeTasks.get? summary.task.taskRef <;> rfl
  have haccepted := accepted_of_lt hnext'
  simp only [applyRecord] at haccepted
  simp only [applyRecords, applyRecord, haccepted, hskip, if_true]
  refine ⟨trivial, _, hrow, ?_⟩
  cases middle.activeTasks.get? summary.task.taskRef <;> rfl

end Records

/-! ## The uploads of a batch -/

section Uploads
variable {client : ClientInstance} {codec : Codec} {t : Tick} {s : Store}
  {records : List SummaryRecord} {contents : List StoredContentInput} {taskRef : String}

/-- The records that a transaction accepts. -/
def acceptedRecords (codec : Codec) (s : Store) (records : List SummaryRecord) :
    List SummaryRecord :=
  (applyRecords s (records.map (normalizeRecord codec))).1

theorem exists_of_mem_acceptedRecords {record : SummaryRecord}
    (h : record ∈ acceptedRecords codec s records) :
    ∃ original ∈ records, normalizeRecord codec original = record :=
  List.mem_map.mp (mem_of_mem_accepted h)

/-- The uploads of a task when all records fit into one chunk. -/
theorem persistedUploads_filter
    (hdone : (persistIngress client codec t s records contents).1.isSome = true)
    (hlen : records.length ≤ 128) :
    ((persistedUploads client codec t s records contents).filter
        fun upload => upload.snapshot.taskRef = taskRef) =
      if ∃ record ∈ acceptedRecords codec s records, record.uploadTask = some taskRef then
        (buildUpload t (writtenStore codec s records contents) 0
          (acceptedRecords codec s records) taskRef).toList
      else [] := by
  have haccepted : (acceptedRecords codec s records).length ≤ 128 := by
    have hle := @length_accepted_le s (records.map (normalizeRecord codec))
    rw [List.length_map] at hle
    exact hle.trans hlen
  rw [persistedUploads, if_pos hdone, ← acceptedRecords, wireBatches, splitRecords]
  rcases eq_or_ne (acceptedRecords codec s records) [] with hnil | hne
  · simp [hnil, Chunks.chunks_nil]
  · rw [Chunks.chunks_of_length_le hne haccepted]
    simp only [List.zipIdx_singleton, List.map_cons, List.map_nil, List.flatMap_cons,
      List.flatMap_nil, List.append_nil, uploadsFor_buildWireBatch]

/-- A batch that does not name the task has no upload of it. -/
theorem persistedUploads_of_ne
    (hdone : (persistIngress client codec t s records contents).1.isSome = true)
    (hlen : records.length ≤ 128) (h : ∀ record ∈ records, record.uploadTask ≠ some taskRef) :
    ((persistedUploads client codec t s records contents).filter
      fun upload => upload.snapshot.taskRef = taskRef) = [] := by
  rw [persistedUploads_filter hdone hlen, if_neg]
  rintro ⟨record, hmem, hupload⟩
  rcases exists_of_mem_acceptedRecords hmem with ⟨original, horiginal, rfl⟩
  exact h original horiginal (by simpa using hupload)

/-- Without a step of a task its upload has no event. -/
theorem persistedUploads_of_idle (taskRef : String)
    (hdone : (persistIngress client codec t s records contents).1.isSome = true)
    (hlen : records.length ≤ 128) (h : ∀ record ∈ records, record.advances = none) :
    (persistedUploads client codec t s records contents).filter
        (fun upload => upload.snapshot.taskRef = taskRef) = [] ∨
      ∃ upload row, (persistedUploads client codec t s records contents).filter
          (fun upload => upload.snapshot.taskRef = taskRef) = [upload] ∧ upload.events = [] ∧
        (writtenStore codec s records contents).activeTasks.get? taskRef = some row ∧
        upload.snapshot = row.snapshot (t.ids (.snapshot 0 taskRef)) taskRef := by
  rw [persistedUploads_filter hdone hlen]
  split
  · cases hbuild : buildUpload t (writtenStore codec s records contents) 0
      (acceptedRecords codec s records) taskRef with
    | none => exact .inl rfl
    | some upload =>
        rcases row_of_buildUpload hbuild with ⟨-, ⟨row, hrow, hsnapshot⟩, hevents⟩
        refine .inr ⟨upload, row, rfl, ?_, hrow, hsnapshot⟩
        rw [hevents, events_accumulatorOf, List.filterMap_eq_nil_iff]
        intro record hmem
        have hidle : record.1.advances = none := by
          rcases exists_of_mem_acceptedRecords (List.fst_mem_of_mem_zipIdx
            (List.mem_filter.mp hmem).1) with ⟨original, horiginal, heq⟩
          rw [← heq, advances_normalizeRecord]
          exact h original horiginal
        rcases record with ⟨record, index⟩
        cases record with
        | taskTransition transition => cases hidle
        | _ => rfl
  · exact .inl rfl

/-- The transition that goes with a summary. -/
def carriedTransition (summary : TaskSummary) (cause : TransitionCause) : TaskTransition where
  eventId := summary.lastEventId
  task := summary.task
  sequence := summary.sequence
  observedAt := summary.updatedAt
  phase := summary.phase
  outcome := summary.outcome
  cause
  completeness := summary.completeness
  error := summary.lastError

def normalizeSummary (codec : Codec) (summary : TaskSummary) : TaskSummary :=
  { summary with lastError := summary.lastError.map (normalizeError codec) }

/-- The step of a task is uploaded with the row that it leaves and with one event. -/
theorem persistedUploads_of_carried (client : ClientInstance) (t : Tick)
    {lead : List SummaryRecord} {summary : TaskSummary} {cause : TransitionCause}
    (hdone : (persistIngress client codec t s records contents).1.isSome = true)
    (hrecords : records = lead ++ carryOn summary cause) (hlen : lead.length ≤ 126)
    (hlead : ∀ record ∈ lead, record.advances = none)
    (hnext : storedSequence s summary.task.taskRef < summary.sequence) :
    ∃ upload row errorId, (persistedUploads client codec t s records contents).filter
        (fun upload => upload.snapshot.taskRef = summary.task.taskRef) = [upload] ∧
      upload.events =
        [mapTransitionEvent errorId (carriedTransition (normalizeSummary codec summary) cause)] ∧
      (writtenStore codec s records contents).activeTasks.get? summary.task.taskRef = some row ∧
      row.standing = summary.standing ∧
      upload.snapshot =
        row.snapshot (t.ids (.snapshot 0 summary.task.taskRef)) summary.task.taskRef := by
  have hlength : records.length ≤ 128 := by
    rw [hrecords, List.length_append, carryOn]
    simp
    omega
  have hmap : records.map (normalizeRecord codec) = lead.map (normalizeRecord codec) ++
      carryOn (normalizeSummary codec summary) cause := by
    rw [hrecords, List.map_append]
    rfl
  have hlead' : ∀ record ∈ lead.map (normalizeRecord codec), record.advances = none := by
    intro record hmem
    rcases List.mem_map.mp hmem with ⟨original, horiginal, rfl⟩
    rw [advances_normalizeRecord]
    exact hlead original horiginal
  rcases applyRecords_carried (s := s) (normalizeSummary codec summary)
    (carriedTransition (normalizeSummary codec summary) cause) hlead' rfl rfl rfl hnext with
    ⟨haccepted, row, hrow, hstanding⟩
  have hcarry : [SummaryRecord.task (normalizeSummary codec summary),
      .taskTransition (carriedTransition (normalizeSummary codec summary) cause)] =
      carryOn (normalizeSummary codec summary) cause := rfl
  rw [hcarry, ← hmap] at haccepted hrow
  have hbuild : ∃ upload, buildUpload t (writtenStore codec s records contents) 0
      (acceptedRecords codec s records) summary.task.taskRef = some upload := by
    have hstored : (writtenStore codec s records contents).activeTasks.get?
        summary.task.taskRef = some row := hrow
    simp only [buildUpload, loadSnapshot, hstored]
    exact ⟨_, rfl⟩
  rcases hbuild with ⟨upload, hbuild⟩
  rcases row_of_buildUpload hbuild with ⟨-, ⟨row', hrow', hsnapshot⟩, hevents⟩
  obtain rfl : row = row' := Option.some.inj (hrow.symm.trans hrow')
  have hevent : ∃ errorId, upload.events =
      [mapTransitionEvent errorId (carriedTransition (normalizeSummary codec summary) cause)] := by
    rw [hevents, events_accumulatorOf, acceptedRecords, haccepted, List.zipIdx_append,
      List.filter_append, List.filterMap_append]
    have hnone : ((applyRecords s (lead.map (normalizeRecord codec))).1.zipIdx.filter
        fun r => r.1.uploadTask = some summary.task.taskRef).filterMap (eventOf t 0) = [] := by
      rw [List.filterMap_eq_nil_iff]
      intro record hmem
      have hidle := hlead' _ (mem_of_mem_accepted (List.fst_mem_of_mem_zipIdx
        (List.mem_filter.mp hmem).1))
      rcases record with ⟨record, index⟩
      cases record with
      | taskTransition transition => cases hidle
      | _ => rfl
    rw [hnone, ← hcarry]
    simp [SummaryRecord.uploadTask, carriedTransition, normalizeSummary]
    exact ⟨_, rfl⟩
  rcases hevent with ⟨errorId, hevent⟩
  refine ⟨upload, row, errorId, ?_, hevent, hrow, hstanding, hsnapshot⟩
  rw [persistedUploads_filter hdone hlength, if_pos, hbuild]
  · rfl
  · rw [acceptedRecords, haccepted]
    exact ⟨_, List.mem_append_right _ List.mem_cons_self, rfl⟩

end Uploads

/-! ## A reducer that is fed with uploads -/

/-- What is compared of a reducer's snapshot and an uploaded one. -/
structure Agreeing (a b : TaskSnapshot) : Prop where
  sequence : a.sequence = b.sequence
  phase : a.phase = b.phase
  terminal : a.terminal = b.terminal
  completedAtMs : a.completedAtMs = b.completedAtMs
  integrity : a.integrity = b.integrity

instance (a b : TaskSnapshot) : Decidable (Agreeing a b) :=
  decidable_of_iff (a.sequence = b.sequence ∧ a.phase = b.phase ∧ a.terminal = b.terminal ∧
      a.completedAtMs = b.completedAtMs ∧ a.integrity = b.integrity)
    ⟨fun h => ⟨h.1, h.2.1, h.2.2.1, h.2.2.2.1, h.2.2.2.2⟩, fun h => ⟨h.1, h.2, h.3, h.4, h.5⟩⟩

/-- The reducer after an upload: over the first snapshot, then with the events applied. -/
def follow (reducer : Option TaskReducer) (upload : TaskUpload) : Option TaskReducer :=
  match reducer with
  | none => some ⟨upload.snapshot⟩
  | some reducer => some ((TaskReducer.applyAll upload.events).run.run reducer).2

/-- Every `apply` of the events returns `Ok`, and the reducer then agrees with the snapshot. -/
def tracks (reducer : Option TaskReducer) (upload : TaskUpload) : Bool :=
  match reducer with
  | none => true
  | some reducer =>
      match (TaskReducer.applyAll upload.events).run.run reducer with
      | (.ok (), reducer') => decide (Agreeing reducer'.snapshot upload.snapshot)
      | (.error _, _) => false

/-- The snapshot of a reducer that has followed the row so far. -/
structure Linked (taskRef : String) (snapshot : TaskSnapshot) (row : TaskRow) : Prop where
  valid : snapshot.validate = .ok ()
  task : snapshot.taskRef = taskRef
  updatedAt : snapshot.updatedAtMs = row.updatedAt
  agreeing : ∀ errorId, Agreeing snapshot (row.snapshot errorId taskRef)

section Reducer
variable {taskRef : String} {snapshot : TaskSnapshot} {row row' : TaskRow}

theorem linked_snapshot {errorId : Uuid} (h : (row.snapshot errorId taskRef).validate = .ok ()) :
    Linked taskRef (row.snapshot errorId taskRef) row :=
  ⟨h, rfl, rfl, fun _ => ⟨rfl, rfl, rfl, rfl, rfl⟩⟩

theorem mapPhase_eq_terminal_iff {phase : TaskPhase} :
    mapPhase phase = .terminal ↔ phase = .terminal := by
  cases phase <;> simp [mapPhase]

/-- A valid snapshot of an open row has neither an outcome nor a time of completion. -/
theorem Linked.unfinished (h : Linked taskRef snapshot row) (hphase : row.phase ≠ .terminal) :
    snapshot.terminal = none ∧ snapshot.completedAtMs = none := by
  have hopen : snapshot.phase ≠ .terminal := by
    rw [(h.agreeing (.v7 0)).phase]
    exact mt mapPhase_eq_terminal_iff.mp hphase
  have hterminal : snapshot.terminal = none := by
    simpa using mt (TaskReducer.phase_eq_terminal_iff h.valid).mpr hopen
  have hfields := (TaskSnapshot.validate_eq_ok.mp h.valid).2.terminal
  unfold TaskSnapshot.terminalFieldsValid at hfields
  refine ⟨hterminal, ?_⟩
  cases hsource : snapshot.phase <;> simp_all

/-- What the event of a step does to the integrity is what the summary says. -/
def IntegrityKept (completeness : Completeness) (summary : TaskSummary)
    (transition : TaskTransition) : Prop :=
  TaskReducer.integrityAfter (transitionKind transition) (mapIntegrity completeness) =
    mapIntegrity summary.completeness

/-- A summary is terminal since the time of its event, or not terminal. -/
def TerminalSince (summary : TaskSummary) : Prop :=
  summary.terminalAt.map ts =
    if summary.phase = .terminal then some (ts summary.updatedAt) else none

variable {codec : Codec} {summary : TaskSummary} {cause : TransitionCause} {errorId : Uuid}

/-- The next event of an open task is applied. The reducer then agrees with the row exactly when
the event carries the integrity and the time of completion of the summary. -/
theorem agreeing_update_iff (h : Linked taskRef snapshot row) (hphase : row.phase ≠ .terminal)
    (htask : summary.task.taskRef = taskRef) (hsequence : summary.sequence = row.sequence + 1)
    (hrange : row.sequence < U64_MAX) (htime : row.updatedAt ≤ ts summary.updatedAt)
    (hevent : (mapTransitionEvent errorId
      (carriedTransition (normalizeSummary codec summary) cause)).validate = .ok ())
    (hrow : row'.standing = summary.standing) :
    (TaskReducer.applyAll [mapTransitionEvent errorId
        (carriedTransition (normalizeSummary codec summary) cause)]).run.run ⟨snapshot⟩ =
      (.ok (), ⟨TaskReducer.update snapshot (mapTransitionEvent errorId
        (carriedTransition (normalizeSummary codec summary) cause))⟩) ∧
    (∀ id, Agreeing (TaskReducer.update snapshot (mapTransitionEvent errorId
        (carriedTransition (normalizeSummary codec summary) cause))) (row'.snapshot id taskRef) ↔
      IntegrityKept row.completeness summary
          (carriedTransition (normalizeSummary codec summary) cause) ∧
        TerminalSince summary) ∧
    ∀ id, Agreeing (TaskReducer.update snapshot (mapTransitionEvent errorId
        (carriedTransition (normalizeSummary codec summary) cause))) (row'.snapshot id taskRef) →
      Linked taskRef (TaskReducer.update snapshot (mapTransitionEvent errorId
        (carriedTransition (normalizeSummary codec summary) cause))) row' := by
  generalize hdef : mapTransitionEvent errorId
    (carriedTransition (normalizeSummary codec summary) cause) = event at hevent ⊢
  have hfields : event.taskRef = taskRef ∧ event.sequence = summary.sequence ∧
      event.occurredAtMs = ts summary.updatedAt ∧ event.phase = mapPhase summary.phase ∧
      event.terminal = summary.outcome.map mapOutcome ∧ event.kind = transitionKind
        (carriedTransition (normalizeSummary codec summary) cause) := by
    rw [← hdef]
    exact ⟨htask, rfl, rfl, rfl, rfl, rfl⟩
  rcases hfields with ⟨heventTask, heventSequence, heventTime, heventPhase, heventTerminal, hkind⟩
  rcases h.unfinished hphase with ⟨hterminal, hcompleted⟩
  have hagreeing := h.agreeing errorId
  have hadmits : TaskReducer.Admits snapshot event := by
    refine ⟨hevent, ?_, ?_, ?_, hterminal⟩
    · rw [heventTask, h.task]
    · rw [heventSequence, hsequence, hagreeing.sequence]
      rfl
    · rw [heventTime, h.updatedAt]
      exact htime
  have hle : event.sequence ≤ U64_MAX := by omega
  have hcheck := (TaskReducer.check_eq_ok_iff h.valid hle).mpr hadmits
  have hstanding := hrow
  simp only [TaskRow.standing, TaskSummary.standing, Standing.mk.injEq] at hstanding
  rcases hstanding with ⟨hseq, hph, hout, hupd, hterm, hcomp⟩
  have hhint := (TaskReducer.projection_of_validate hevent).2
  rw [heventPhase, mapPhase_eq_terminal_iff] at hhint
  refine ⟨?_, fun id => ?_, fun id hagree => ?_⟩
  · rw [TaskReducer.run_applyAll_cons, hcheck]
    rfl
  · rw [IntegrityKept, TerminalSince, TaskReducer.update_eq, ← hkind]
    have hcompletion : (if event.kind.terminalHint.isSome then some event.occurredAtMs
        else snapshot.completedAtMs) =
        if summary.phase = .terminal then some (ts summary.updatedAt) else none := by
      rw [hcompleted, heventTime]
      exact if_congr hhint rfl rfl
    have hintegrity : snapshot.integrity = mapIntegrity row.completeness := hagreeing.integrity
    constructor
    · intro hagree
      have hsame := hagree.integrity
      have htimes := hagree.completedAtMs
      rw [hcompletion] at htimes
      simp only [TaskRow.snapshot, hintegrity, hcomp] at hsame
      simp only [TaskRow.snapshot, hterm] at htimes
      exact ⟨hsame, htimes.symm⟩
    · intro hboth
      refine ⟨?_, ?_, ?_, ?_, ?_⟩
      · simp [TaskRow.snapshot, heventSequence, hseq]
      · simp [TaskRow.snapshot, heventPhase, hph]
      · simp [TaskRow.snapshot, heventTerminal, hout]
      · rw [hcompletion, ← hboth.2]
        simp [TaskRow.snapshot, hterm]
      · simp only [TaskRow.snapshot, hintegrity, hcomp]
        exact hboth.1
  · refine ⟨TaskReducer.validate_update h.valid hadmits, ?_, ?_, fun _ => ?_⟩
    · rw [TaskReducer.update_taskRef, h.task]
    · rw [TaskReducer.update_updatedAtMs, heventTime, hupd]
    · exact ⟨hagree.sequence, hagree.phase, hagree.terminal, hagree.completedAtMs,
        hagree.integrity⟩

end Reducer

/-! ## The steps of the lane -/

/-- The request is whole, and an event closes the attempt. -/
def isWhole (attempt : DecodedAttempt) : Bool :=
  attempt.requestComplete && (closing attempt.decodedEvents).isSome

section Steps
variable {codec : Codec} {title : String → Option String} {t : Tick} {index : ℕ}
  {exchange : DecodedExchange} {task : TaskKey} {cursor : TaskCursor} {completeness : Completeness}

theorem mapIntegrity_eq_complete_iff :
    mapIntegrity completeness = .complete ↔ completeness = .complete := by
  cases completeness <;> simp [mapIntegrity]

/-- No event makes a task complete again, and a whole exchange needs that. -/
theorem integrityKept_exchange_iff {cursor : Option TaskCursor} :
    IntegrityKept completeness (taskSummaryOf title t index exchange task cursor)
        (carriedTransition
          (normalizeSummary codec (taskSummaryOf title t index exchange task cursor))
          (mapAttemptProjection exchange.attempt).cause) ↔
      (isWhole exchange.attempt = true → completeness = .complete) := by
  simp only [IntegrityKept, carriedTransition, normalizeSummary, taskSummaryOf, isWhole,
    ← mapIntegrity_eq_complete_iff]
  cases hrequest : exchange.attempt.requestComplete with
  | false =>
      rcases mapAttemptProjection_of_lost (.inl hrequest) with ⟨reason, -, hp⟩
      simp [hp, transitionKind, TaskReducer.integrityAfter, mapIntegrity]
  | true =>
      cases hclosing : closing exchange.attempt.decodedEvents with
      | none =>
          rcases mapAttemptProjection_of_lost (.inr hclosing) with ⟨reason, -, hp⟩
          simp [hp, transitionKind, TaskReducer.integrityAfter, mapIntegrity]
      | some event =>
          have hcomplete : mapIntegrity .complete = .complete := rfl
          rcases closing_cases hclosing with
            ⟨attemptId, responseId, endTurn, usage, rfl⟩ | ⟨decoded, status, herror, hstatus⟩
          · rw [mapAttemptProjection_of_completed hrequest hclosing]
            cases endsTurn exchange.attempt <;>
              simp [transitionKind, TaskReducer.integrityAfter, hcomplete]
          · rw [mapAttemptProjection_of_error hrequest hclosing herror hstatus]
            simp [transitionKind, TaskReducer.integrityAfter, hcomplete]

theorem taskPhase_eq_terminal_iff {attempt : DecodedAttempt} :
    (mapAttemptProjection attempt).taskPhase = .terminal ↔ endsTurn attempt = true := by
  cases hrequest : attempt.requestComplete with
  | false =>
      rcases mapAttemptProjection_of_lost (.inl hrequest) with ⟨reason, -, hp⟩
      simp [hp, endsTurn, hrequest]
  | true =>
      cases hclosing : closing attempt.decodedEvents with
      | none =>
          rcases mapAttemptProjection_of_lost (.inr hclosing) with ⟨reason, -, hp⟩
          simp [hp, endsTurn, hclosing]
      | some event =>
          rcases closing_cases hclosing with
            ⟨attemptId, responseId, endTurn, usage, rfl⟩ | ⟨decoded, status, herror, hstatus⟩
          · rw [mapAttemptProjection_of_completed hrequest hclosing]
            cases endsTurn attempt <;> simp
          · rw [mapAttemptProjection_of_error hrequest hclosing herror hstatus]
            cases event <;> simp [endsTurn, hclosing, eventError] at herror ⊢

/-- The clock is read twice, for the event and for the end of the task. -/
theorem terminalSince_exchange_iff {cursor : Option TaskCursor} :
    TerminalSince (taskSummaryOf title t index exchange task cursor) ↔
      (endsTurn exchange.attempt = true → ts t.terminalNow = ts t.now) := by
  simp only [TerminalSince, taskSummaryOf, taskPhase_eq_terminal_iff]
  cases endsTurn exchange.attempt <;> simp

/-- The summary of a gap. -/
def gapSummary (title : String → Option String) (cursor : TaskCursor) (task : TaskKey)
    (eventId : Uuid) (observedAt : OffsetDateTime) (loss : CaptureLoss) : TaskSummary :=
  { cursor.summary title task eventId observedAt with
    completeness := .degraded
    lastError := some (.captureLost loss) }

/-- The summary of a process exit. -/
def exitSummary (title : String → Option String) (cursor : TaskCursor) (task : TaskKey)
    (eventId : Uuid) (observedAt : OffsetDateTime) (process : ProcessSummary) : TaskSummary :=
  { cursor.summary title task eventId observedAt with
    phase := .terminal
    outcome := some (exitOutcome process).1
    terminalAt := some observedAt
    lastError := some (exitOutcome process).2 }

variable {eventId : Uuid} {observedAt : OffsetDateTime} {loss : CaptureLoss}
  {process : ProcessSummary}

theorem integrityKept_gap (hphase : cursor.phase ≠ .terminal) :
    IntegrityKept completeness (gapSummary title cursor task eventId observedAt loss)
        (carriedTransition
          (normalizeSummary codec (gapSummary title cursor task eventId observedAt loss))
          .captureLost) ∧
      TerminalSince (gapSummary title cursor task eventId observedAt loss) := by
  constructor
  · cases hcursor : cursor.phase <;>
      simp_all [IntegrityKept, carriedTransition, normalizeSummary, gapSummary, TaskCursor.summary,
        transitionKind, TaskReducer.integrityAfter, mapIntegrity]
  · simp [TerminalSince, gapSummary, TaskCursor.summary, hphase]

/-- An exit without an error loses the task for the reducer alone. -/
theorem integrityKept_exit_iff :
    IntegrityKept cursor.completeness (exitSummary title cursor task eventId observedAt process)
        (carriedTransition
          (normalizeSummary codec (exitSummary title cursor task eventId observedAt process))
          .processExited) ↔ (exitOutcome process).1 = .terminated := by
  simp only [IntegrityKept, carriedTransition, normalizeSummary, exitSummary, TaskCursor.summary,
    exitOutcome]
  split
  · simp [transitionKind, TaskReducer.integrityAfter]
  · cases cursor.completeness <;>
      simp [transitionKind, TaskReducer.integrityAfter, mapIntegrity]

theorem terminalSince_exit :
    TerminalSince (exitSummary title cursor task eventId observedAt process) := by
  simp [TerminalSince, exitSummary, TaskCursor.summary]

end Steps

/-! ## Inputs of the lane -/

section Inputs
variable {κ σ : Type} [DecidableEq κ] (wire : Wire κ σ) (client : ClientInstance) (codec : Codec)
  (toVec : List Json → Bytes) (taskRef : String)

/-- The uploads that an input adds to the outbox. -/
def inputUploads (lane : Lane κ σ) (input : Moment × CaptureInput) : List TaskUpload :=
  let handled := handleInput wire client codec toVec input.1 lane input.2
  match handled.1 with
  | .error | .nothing => []
  | .batch batch =>
      if batch.isEmpty then []
      else
        persistedUploads client codec input.1.toTick handled.2.store batch.records batch.contents

/-- The uploads of the task in a run. -/
def uploadsFor : Lane κ σ → List (Moment × CaptureInput) → List TaskUpload
  | _, [] => []
  | lane, input :: inputs =>
      (inputUploads wire client codec toVec lane input).filter
          (fun upload => upload.snapshot.taskRef = taskRef) ++
        uploadsFor (step wire client codec toVec lane input) inputs

/-- A reducer over the first upload of the task follows the others. -/
def Refines (lane : Lane κ σ) (inputs : List (Moment × CaptureInput)) : Prop :=
  Run.Each follow (fun reducer upload => tracks reducer upload = true) none
    (uploadsFor wire client codec toVec taskRef lane inputs)

/-- What an input completes, with the current task of its flow. -/
def inputItems (lane : Lane κ σ) (input : Moment × CaptureInput) :
    List (FlowItem × Option TaskKey) :=
  match segmentOf input.2 with
  | none => []
  | some (segment, processInstanceId, direction) =>
      segmentItems wire client input.1 lane segment processInstanceId direction

/-- The exchanges of the task that an input completes. -/
def Completes (lane : Lane κ σ) (input : Moment × CaptureInput) (exchange : DecodedExchange) :
    Prop :=
  (∃ current, (.exchange exchange, current) ∈ inputItems wire client lane input) ∧
    isProjected client exchange lane.store = true ∧
    (exchangeTask client exchange).taskRef = taskRef

/-- The tasks that end with a process. -/
def exitTasks (lane : Lane κ σ) (process : ProcessSummary) : List TaskKey :=
  ((lane.processTasks.get? process.processInstanceId).getD [] ++
    flowTasks lane process.processInstanceId).dedup

def observationTime (input : Moment × CaptureInput) : OffsetDateTime :=
  match input.2 with
  | .captureGap _ _ observedAt _ _ => observedAt
  | .processExit process => process.exitedAt.getD input.1.now
  | .tcpSegment _ | .attributedTcpSegment _ _ _ | .processObserved _ => input.1.now

/-- One projection for the batch, none of an exchange after the end of its task, and a sequence
in the range of `u64`. -/
structure Regular (lane : Lane κ σ) (input : Moment × CaptureInput) : Prop where
  items : (inputItems wire client lane input).length ≤ 1
  exits : ∀ process, input.2 = .processExit process → ((exitTasks lane process).filter
    fun task => (liveCursor lane.store task).isSome).length ≤ 1
  unfinished : ∀ exchange, Completes wire client taskRef lane input exchange →
    ∀ row, lane.store.activeTasks.get? taskRef = some row → row.phase ≠ .terminal
  range : storedSequence lane.store taskRef < U64_MAX

/-- A whole exchange finds its task complete and the clock within one second, and a process that
ends with an open task ends with an error. -/
structure Followable (lane : Lane κ σ) (input : Moment × CaptureInput) : Prop where
  exchange : ∀ exchange, Completes wire client taskRef lane input exchange →
    ∀ row, lane.store.activeTasks.get? taskRef = some row →
      (isWhole exchange.attempt = true → row.completeness = .complete) ∧
      (endsTurn exchange.attempt = true → ts input.1.terminalNow = ts input.1.now)
  exit : ∀ process, input.2 = .processExit process → ∀ task ∈ exitTasks lane process,
    task.taskRef = taskRef → (liveCursor lane.store task).isSome →
      (exitOutcome process).1 = .terminated

/-- Observation times that do not decrease, from the time of the stored row on. -/
structure InTime (lane : Lane κ σ) (inputs : List (Moment × CaptureInput)) : Prop where
  stored : ∀ row, lane.store.activeTasks.get? taskRef = some row →
    ∀ input ∈ inputs, row.updatedAt ≤ ts (observationTime input)
  ordered : inputs.Pairwise fun a b => observationTime a ≤ observationTime b

/-- The step that an input takes with a task. -/
inductive StepOf (lane : Lane κ σ) (input : Moment × CaptureInput) :
    TaskSummary → TransitionCause → Prop
  | exchange (index : ℕ) (exchange : DecodedExchange)
      (h : Completes wire client (exchangeTask client exchange).taskRef lane input exchange) :
      StepOf lane input (taskSummaryOf input.1.title input.1.toTick index exchange
          (exchangeTask client exchange)
          (loadTaskCursor lane.store (exchangeTask client exchange)))
        (mapAttemptProjection exchange.attempt).cause
  | gap (task : TaskKey) (cursor : TaskCursor) (eventId : Uuid) (loss : CaptureLoss)
      (h : liveCursor lane.store task = some cursor) :
      StepOf lane input
        (gapSummary input.1.title cursor task eventId (observationTime input) loss) .captureLost
  | exit (process : ProcessSummary) (task : TaskKey) (cursor : TaskCursor) (eventId : Uuid)
      (hinput : input.2 = .processExit process) (hmem : task ∈ exitTasks lane process)
      (h : liveCursor lane.store task = some cursor) :
      StepOf lane input
        (exitSummary input.1.title cursor task eventId (observationTime input) process)
        .processExited

/-- The records of a batch: those of one step, or no step. -/
inductive BatchOf (lane : Lane κ σ) (input : Moment × CaptureInput) : List SummaryRecord → Prop
  | idle (records : List SummaryRecord) (hlen : records.length ≤ 1)
      (h : ∀ record ∈ records, record.advances = none ∧ record.writes = none) :
      BatchOf lane input records
  | step (lead : List SummaryRecord) (summary : TaskSummary) (cause : TransitionCause)
      (hlen : lead.length ≤ 3) (hlead : ∀ record ∈ lead, record.advances = none ∧
        ∀ taskRef, record.uploadTask = some taskRef → taskRef = summary.task.taskRef)
      (h : StepOf wire client lane input summary cause) :
      BatchOf lane input (lead ++ carryOn summary cause)

variable {wire client codec toVec taskRef} {lane : Lane κ σ} {m : Moment} {input : CaptureInput}

/-- A gap is a step of its task, if that is open. -/
theorem batchOf_gap {index : ℕ} {flowId : Uuid} {task : Option TaskKey}
    {observedAt : OffsetDateTime} {reason : String} {lostBytes : Option ℕ}
    (htime : observationTime (m, input) = observedAt) :
    BatchOf wire client lane (m, input) (projectGap client m.title m.toTick lane.store index flowId
      task observedAt reason lostBytes).records := by
  simp only [projectGap]
  cases task with
  | none => exact .idle _ (by simp) (by simp [SummaryRecord.advances, SummaryRecord.writes])
  | some task =>
      simp only [Option.map_some, Option.getD_some, gapTaskRecords]
      cases hlive : liveCursor lane.store task with
      | none => exact .idle _ (by simp) (by simp [SummaryRecord.advances, SummaryRecord.writes])
      | some cursor =>
          rw [← htime]
          refine .step [.captureGap _] _ _ (by simp) ?_
            (.gap task cursor (m.ids (.event index)) ⟨reason, lostBytes⟩ hlive)
          simp [SummaryRecord.advances, SummaryRecord.uploadTask, TaskCursor.summary]

/-- At most one of the tasks is open: what the process exit has for them. -/
theorem exitRecords_cases {s : Store} (title : String → Option String) (t : Tick)
    (process : ProcessSummary) (observedAt : OffsetDateTime) {tasks : List TaskKey} (n : ℕ)
    (h : (tasks.filter fun task => (liveCursor s task).isSome).length ≤ 1) :
    (tasks.zipIdx n).flatMap (exitTaskRecords title t s process observedAt) = [] ∨
      ∃ task ∈ tasks, ∃ cursor eventId, liveCursor s task = some cursor ∧
        (tasks.zipIdx n).flatMap (exitTaskRecords title t s process observedAt) =
          carryOn (exitSummary title cursor task eventId observedAt process) .processExited := by
  induction tasks generalizing n with
  | nil => exact .inl rfl
  | cons task tasks ih =>
      rw [List.zipIdx_cons, List.flatMap_cons]
      cases hlive : liveCursor s task with
      | none =>
          rw [List.filter_cons_of_neg (by simp [hlive])] at h
          have hnone : exitTaskRecords title t s process observedAt (task, n) = [] := by
            simp only [exitTaskRecords, hlive]
          rw [hnone, List.nil_append]
          rcases ih (n + 1) h with hempty | ⟨other, hmem, cursor, eventId, hcursor, heq⟩
          · exact .inl hempty
          · exact .inr ⟨other, List.mem_cons_of_mem task hmem, cursor, eventId, hcursor, heq⟩
      | some cursor =>
          rw [List.filter_cons_of_pos (by simp [hlive]), List.length_cons] at h
          have hrest : (tasks.zipIdx (n + 1)).flatMap
              (exitTaskRecords title t s process observedAt) = [] := by
            rw [List.flatMap_eq_nil_iff]
            rintro ⟨other, index⟩ hmem
            have hnone : tasks.filter (fun task => (liveCursor s task).isSome) = [] :=
              List.eq_nil_of_length_eq_zero (by omega)
            have hother := List.filter_eq_nil_iff.mp hnone other (List.fst_mem_of_mem_zipIdx hmem)
            simp only [Bool.not_eq_true, Option.isSome_eq_false_iff, Option.isNone_iff_eq_none]
              at hother
            simp only [exitTaskRecords, hother]
          refine .inr ⟨task, List.mem_cons_self, cursor, t.ids (.event n), hlive, ?_⟩
          rw [hrest, List.append_nil]
          simp only [exitTaskRecords, hlive]
          rfl

theorem batchOf_segment {segment : TcpSegment} {processInstanceId : Option Uuid}
    {direction : Option ProcessFlowDirection}
    (hof : segmentOf input = some (segment, processInstanceId, direction))
    (hitems : (inputItems wire client lane (m, input)).length ≤ 1)
    (htime : observationTime (m, input) = m.now) {batch : CaptureBatch}
    (h : (handleSegment wire client codec toVec m lane segment processInstanceId direction).1 =
      .batch batch) : BatchOf wire client lane (m, input) batch.records := by
  have heq : inputItems wire client lane (m, input) =
      segmentItems wire client m lane segment processInstanceId direction := by
    simp only [inputItems, hof]
  rcases (handleSegment_cases rfl).2 batch h with ⟨flowId, hrecords⟩
  rw [hrecords, ← heq]
  generalize hcase : inputItems wire client lane (m, input) = items at hitems
  rcases items with _ | ⟨⟨item, current⟩, _ | ⟨second, rest⟩⟩
  · exact .idle [] (by simp) (by simp)
  · simp only [List.zipIdx_singleton, List.flatMap_cons, List.flatMap_nil, List.append_nil]
    cases item with
    | gap reason lostBytes => exact batchOf_gap htime
    | exchange exchange =>
        simp only [projectItem, projectExchange]
        split
        · rename_i hprojected
          refine .step [.session _, .attempt _, .httpExchange _] _ _ (by simp) ?_
            (.exchange 0 exchange ⟨⟨current, ?_⟩, hprojected, rfl⟩)
          · intro record hmem
            simp only [List.mem_cons, List.not_mem_nil, or_false] at hmem
            rcases hmem with rfl | rfl | rfl <;>
              simp [SummaryRecord.advances, SummaryRecord.uploadTask, sessionSummaryOf,
                attemptSummaryOf]
          · rw [hcase]
            exact List.mem_cons_self
        · exact .idle [] (by simp) (by simp)
  · simp at hitems

theorem batchOf_exit {process : ProcessSummary}
    (h : ((exitTasks lane process).filter fun task => (liveCursor lane.store task).isSome).length ≤
      1) : BatchOf wire client lane (m, .processExit process)
        (projectProcessExit m.title m.toTick lane.store process
          (m.order (exitTasks lane process))).records := by
  have hperm := (m.order_perm (exitTasks lane process)).filter
    fun task => (liveCursor lane.store task).isSome
  simp only [projectProcessExit]
  rcases exitRecords_cases m.title m.toTick process (process.exitedAt.getD m.now) 0
    (hperm.length_eq.trans_le h) with
    hnone | ⟨task, hmem, cursor, eventId, hlive, hrecords⟩
  · rw [hnone]
    exact .idle _ (by simp) (by simp [SummaryRecord.advances, SummaryRecord.writes,
      SummaryRecord.uploadTask])
  · rw [hrecords]
    exact .step [.process process] _ _ (by simp)
      (by simp [SummaryRecord.advances, SummaryRecord.uploadTask])
      (.exit process task cursor eventId rfl
        ((m.order_perm (exitTasks lane process)).mem_iff.mp hmem) hlive)

/-- The batch of a regular input. -/
theorem batchOf_handleInput (h : Regular wire client taskRef lane (m, input)) {batch : CaptureBatch}
    (hbatch : (handleInput wire client codec toVec m lane input).1 = .batch batch) :
    BatchOf wire client lane (m, input) batch.records := by
  cases input with
  | tcpSegment segment => exact batchOf_segment rfl h.items rfl hbatch
  | attributedTcpSegment segment processInstanceId direction =>
      exact batchOf_segment rfl h.items rfl hbatch
  | captureGap flowId task observedAt reason lostBytes =>
      simp only [handleInput] at hbatch
      rw [eq_of_ofBatch hbatch]
      exact batchOf_gap rfl
  | processObserved process =>
      cases hbatch
      exact .idle _ (by simp) (by simp [SummaryRecord.advances, SummaryRecord.writes,
        SummaryRecord.uploadTask])
  | processExit process =>
      simp only [handleInput] at hbatch
      rw [eq_of_ofBatch hbatch]
      exact batchOf_exit (h.exits process rfl)

/-! ## One input -/

theorem exists_row_of_liveCursor {s : Store} {task : TaskKey} {cursor : TaskCursor}
    (h : liveCursor s task = some cursor) :
    ∃ row, s.activeTasks.get? task.taskRef = some row ∧ row.cursor = cursor ∧
      row.phase ≠ .terminal := by
  rcases Option.filter_eq_some_iff.mp h with ⟨hcursor, hphase⟩
  rcases Option.map_eq_some_iff.mp hcursor with ⟨row, hrow, rfl⟩
  exact ⟨row, hrow, rfl, of_decide_eq_true hphase⟩

section Step
variable {input : Moment × CaptureInput} {summary : TaskSummary} {cause : TransitionCause}

theorem observationTime_of_completes {exchange : DecodedExchange}
    (h : Completes wire client taskRef lane input exchange) :
    observationTime input = input.1.now := by
  rcases h.1 with ⟨current, hmem⟩
  rcases input with ⟨m, input⟩
  cases input with
  | tcpSegment segment => rfl
  | attributedTcpSegment segment processInstanceId direction => rfl
  | captureGap flowId task observedAt reason lostBytes => simp [inputItems, segmentOf] at hmem
  | processObserved process => rfl
  | processExit process => simp [inputItems, segmentOf] at hmem

theorem StepOf.updatedAt (h : StepOf wire client lane input summary cause) :
    summary.updatedAt = observationTime input := by
  cases h with
  | exchange index exchange hcompletes => exact (observationTime_of_completes hcompletes).symm
  | gap task cursor eventId loss hlive => rfl
  | exit process task cursor eventId hinput hmem hlive => rfl

theorem StepOf.sequence (h : StepOf wire client lane input summary cause) :
    summary.sequence = storedSequence lane.store summary.task.taskRef + 1 := by
  have hlive : ∀ {task cursor}, liveCursor lane.store task = some cursor →
      cursor.sequence + 1 = storedSequence lane.store task.taskRef + 1 := by
    intro task cursor hlive
    rcases exists_row_of_liveCursor hlive with ⟨row, hrow, rfl, -⟩
    simp [storedSequence, hrow, TaskRow.cursor]
  cases h with
  | exchange index exchange hcompletes =>
      simp only [taskSummaryOf, storedSequence, loadTaskCursor]
      cases lane.store.activeTasks.get? (exchangeTask client exchange).taskRef <;> rfl
  | gap task cursor eventId loss h => exact hlive h
  | exit process task cursor eventId hinput hmem h => exact hlive h

/-- A regular step finds its task open. -/
theorem StepOf.unfinished (h : StepOf wire client lane input summary cause)
    (hregular : Regular wire client summary.task.taskRef lane input) {row : TaskRow}
    (hrow : lane.store.activeTasks.get? summary.task.taskRef = some row) :
    row.phase ≠ .terminal := by
  have hlive : ∀ {task cursor}, liveCursor lane.store task = some cursor →
      lane.store.activeTasks.get? task.taskRef = some row → row.phase ≠ .terminal := by
    intro task cursor hlive hrow
    rcases exists_row_of_liveCursor hlive with ⟨row', hrow', -, hphase⟩
    rwa [Option.some.inj (hrow.symm.trans hrow')]
  cases h with
  | exchange index exchange hcompletes => exact hregular.unfinished exchange hcompletes row hrow
  | gap task cursor eventId loss h => exact hlive h hrow
  | exit process task cursor eventId hinput hmem h => exact hlive h hrow

/-- A followable step changes the integrity by its event, and ends at the time of its event. -/
theorem StepOf.kept (h : StepOf wire client lane input summary cause) (codec : Codec)
    (hfollow : Followable wire client summary.task.taskRef lane input) {row : TaskRow}
    (hrow : lane.store.activeTasks.get? summary.task.taskRef = some row) :
    IntegrityKept row.completeness summary
        (carriedTransition (normalizeSummary codec summary) cause) ∧ TerminalSince summary := by
  cases h with
  | exchange index exchange hcompletes =>
      have hfits := hfollow.exchange exchange hcompletes row hrow
      exact ⟨integrityKept_exchange_iff.mpr hfits.1, terminalSince_exchange_iff.mpr hfits.2⟩
  | gap task cursor eventId loss hlive =>
      rcases exists_row_of_liveCursor hlive with ⟨row', -, rfl, hphase⟩
      exact integrityKept_gap hphase
  | exit process task cursor eventId hinput hmem hlive =>
      have hterminated := hfollow.exit process hinput task hmem rfl (by simp [hlive])
      rcases exists_row_of_liveCursor hlive with ⟨row', hrow', rfl, hphase⟩
      obtain rfl : row = row' := Option.some.inj (hrow.symm.trans hrow')
      exact ⟨integrityKept_exit_iff.mpr hterminated, terminalSince_exit⟩

/-- What an input does to the row of the task and to a reducer that is fed with its uploads. -/
structure Advances (taskRef : String) (reducer : Option TaskReducer) (s s' : Store)
    (uploads : List TaskUpload) (time : OffsetDateTime) : Prop where
  tracked : Run.Each follow (fun reducer upload => tracks reducer upload = true) reducer uploads
  linked : ∀ r, Run.run follow reducer uploads = some r →
    ∃ row, s'.activeTasks.get? taskRef = some row ∧ Linked taskRef r.snapshot row
  time : s'.activeTasks.get? taskRef = s.activeTasks.get? taskRef ∨
    ∀ row, s'.activeTasks.get? taskRef = some row → row.updatedAt = ts time

section Persist
variable {reducer : Option TaskReducer} {s s' : Store} {time : OffsetDateTime}

theorem Advances.quiet (hlinked : ∀ r, reducer = some r →
      ∃ row, s.activeTasks.get? taskRef = some row ∧ Linked taskRef r.snapshot row)
    (h : s'.activeTasks.get? taskRef = s.activeTasks.get? taskRef) :
    Advances taskRef reducer s s' [] time := by
  refine ⟨trivial, fun r hr => ?_, .inl h⟩
  rw [h]
  exact hlinked r hr

/-- An upload without events shows the row that the reducer has followed. -/
theorem Advances.idle {upload : TaskUpload} {row : TaskRow} {errorId : Uuid}
    (hlinked : ∀ r, reducer = some r →
      ∃ row, s.activeTasks.get? taskRef = some row ∧ Linked taskRef r.snapshot row)
    (h : s'.activeTasks.get? taskRef = s.activeTasks.get? taskRef) (hvalid : upload.Valid)
    (hevents : upload.events = []) (hrow : s'.activeTasks.get? taskRef = some row)
    (hsnapshot : upload.snapshot = row.snapshot errorId taskRef) :
    Advances taskRef reducer s s' [upload] time := by
  have hsame : ∀ r, reducer = some r → Linked taskRef r.snapshot row := by
    intro r hr
    rcases hlinked r hr with ⟨row', hrow', hlinked⟩
    rw [← h, hrow] at hrow'
    rwa [Option.some.inj hrow']
  cases reducer with
  | none =>
      refine ⟨⟨rfl, trivial⟩, fun r hr => ⟨row, hrow, ?_⟩, .inl h⟩
      cases hr
      rw [hsnapshot]
      exact linked_snapshot (hsnapshot ▸ hvalid.snapshot)
  | some r =>
      have hrun : (TaskReducer.applyAll upload.events).run.run r = (.ok (), r) := by
        rw [hevents]
        rfl
      refine ⟨⟨?_, trivial⟩, fun r' hr' => ⟨row, hrow, ?_⟩, .inl h⟩
      · simp only [tracks, hrun, hsnapshot, decide_eq_true_eq]
        exact (hsame r rfl).agreeing errorId
      · rw [Run.run_cons, Run.run_nil, follow, hrun] at hr'
        cases hr'
        exact hsame r rfl

/-- An upload with the event of a step, from a row that the reducer has followed. -/
theorem Advances.step {summary : TaskSummary} {cause : TransitionCause} {upload : TaskUpload}
    {row' : TaskRow} {errorId id : Uuid} (hlinked : ∀ r, reducer = some r →
      ∃ row, s.activeTasks.get? summary.task.taskRef = some row ∧
        Linked summary.task.taskRef r.snapshot row)
    (hsequence : summary.sequence = storedSequence s summary.task.taskRef + 1)
    (hrange : storedSequence s summary.task.taskRef < U64_MAX)
    (hopen : ∀ row, s.activeTasks.get? summary.task.taskRef = some row →
      row.phase ≠ .terminal ∧ row.updatedAt ≤ ts summary.updatedAt ∧
        IntegrityKept row.completeness summary
          (carriedTransition (normalizeSummary codec summary) cause) ∧ TerminalSince summary)
    (hvalid : upload.Valid)
    (hevents : upload.events =
      [mapTransitionEvent errorId (carriedTransition (normalizeSummary codec summary) cause)])
    (hrow : s'.activeTasks.get? summary.task.taskRef = some row')
    (hstanding : row'.standing = summary.standing)
    (hsnapshot : upload.snapshot = row'.snapshot id summary.task.taskRef) :
    Advances summary.task.taskRef reducer s s' [upload] summary.updatedAt := by
  have htime : ∀ row, s'.activeTasks.get? summary.task.taskRef = some row →
      row.updatedAt = ts summary.updatedAt := by
    intro row hrow'
    obtain rfl := Option.some.inj (hrow.symm.trans hrow')
    exact congrArg Standing.updatedAt hstanding
  cases reducer with
  | none =>
      refine ⟨⟨rfl, trivial⟩, fun r hr => ⟨row', hrow, ?_⟩, .inr htime⟩
      cases hr
      rw [hsnapshot]
      exact linked_snapshot (hsnapshot ▸ hvalid.snapshot)
  | some r =>
      rcases hlinked r rfl with ⟨row, hstored, hlinked⟩
      have hseq : storedSequence s summary.task.taskRef = row.sequence := by
        simp [storedSequence, hstored]
      rw [hseq] at hsequence hrange
      rcases hopen row hstored with ⟨hphase, hle, hkept⟩
      have hevent := hvalid.event _ (by rw [hevents]; exact List.mem_cons_self)
      rcases agreeing_update_iff hlinked hphase rfl hsequence hrange hle hevent hstanding with
        ⟨hrun, hiff, hnext⟩
      have hagree := (hiff id).mpr hkept
      have happlied : (TaskReducer.applyAll upload.events).run.run r = _ := hevents ▸ hrun
      refine ⟨⟨?_, trivial⟩, fun r' hr' => ⟨row', hrow, ?_⟩, .inr htime⟩
      · simp only [tracks, happlied, hsnapshot, decide_eq_true_eq]
        exact hagree
      · rw [Run.run_cons, Run.run_nil, follow, happlied] at hr'
        cases hr'
        exact hnext id hagree

end Persist

theorem store_handleInput :
    (handleInput wire client codec toVec input.1 lane input.2).2.store = lane.store := by
  rcases input with ⟨m, input⟩
  cases input with
  | tcpSegment segment => exact (handleSegment_cases rfl).1
  | attributedTcpSegment segment processInstanceId direction => exact (handleSegment_cases rfl).1
  | captureGap flowId task observedAt reason lostBytes => rfl
  | processObserved process => rfl
  | processExit process => rfl

/-- What an input that is persisted leaves: the store of its transaction. -/
theorem step_persisted {m : Moment} {input : CaptureInput} {outcome : PersistOutcome}
    (h : (ingestInput wire client codec toVec m lane input).1 = .persisted outcome) :
    ∃ batch, (handleInput wire client codec toVec m lane input).1 = .batch batch ∧
      (persistIngress client codec m.toTick lane.store batch.records batch.contents).1.isSome =
        true ∧
      inputUploads wire client codec toVec lane (m, input) =
        persistedUploads client codec m.toTick lane.store batch.records batch.contents ∧
      (step wire client codec toVec lane (m, input)).store =
        (persistIngress client codec m.toTick lane.store batch.records batch.contents).2 ∧
      (step wire client codec toVec lane (m, input)).store.activeTasks =
        (writtenStore codec lane.store batch.records batch.contents).activeTasks := by
  have hstore := @store_handleInput _ _ _ wire client codec toVec lane (m, input)
  rw [ingestInput] at h
  rw [inputUploads, step, ingestInput]
  cases hbatch : (handleInput wire client codec toVec m lane input).1 with
  | error =>
      rw [hbatch] at h
      cases h
  | nothing =>
      rw [hbatch] at h
      cases h
  | batch batch =>
      rw [hbatch] at h
      dsimp only at h hstore ⊢
      rw [hstore] at h ⊢
      split at h
      · cases h
      · rename_i hfull
        have hdone : (persistIngress client codec m.toTick lane.store batch.records
            batch.contents).1.isSome = true := by
          split at h
          · cases h
          · rename_i hpersisted
            rw [hpersisted]
            rfl
        simp only [if_neg hfull]
        refine ⟨batch, rfl, hdone, rfl, rfl, ?_⟩
        rcases persistIngress_cases client codec m.toTick lane.store batch.records
          batch.contents with ⟨hfailed, -⟩ | ⟨inserted, outbox, -, -, hwritten⟩
        · rw [hfailed] at hdone
          cases hdone
        · rw [hwritten]

/-- The store after an input, and what it has uploaded: nothing, or a transaction. -/
theorem step_cases (wire : Wire κ σ) (client : ClientInstance) (codec : Codec)
    (toVec : List Json → Bytes) (lane : Lane κ σ) (input : Moment × CaptureInput) :
    (inputUploads wire client codec toVec lane input = [] ∧
      (step wire client codec toVec lane input).store.activeTasks = lane.store.activeTasks) ∨
    ∃ batch, (handleInput wire client codec toVec input.1 lane input.2).1 = .batch batch ∧
      (persistIngress client codec input.1.toTick lane.store batch.records
        batch.contents).1.isSome = true ∧
      inputUploads wire client codec toVec lane input = persistedUploads client codec
        input.1.toTick lane.store batch.records batch.contents ∧
      (step wire client codec toVec lane input).store.activeTasks =
        (writtenStore codec lane.store batch.records batch.contents).activeTasks := by
  have hstore := @store_handleInput _ _ _ wire client codec toVec lane input
  rw [inputUploads, step, ingestInput]
  cases hbatch : (handleInput wire client codec toVec input.1 lane input.2).1 with
  | error => exact .inl ⟨rfl, congrArg Store.activeTasks hstore⟩
  | nothing => exact .inl ⟨rfl, congrArg Store.activeTasks hstore⟩
  | batch batch =>
      dsimp only
      rw [hstore]
      split
      · exact .inl ⟨rfl, congrArg Store.activeTasks hstore⟩
      · rcases persistIngress_cases client codec input.1.toTick lane.store batch.records
          batch.contents with ⟨hfailed, files, hrollback⟩ | ⟨-, outbox, -, hdone, hwritten⟩
        · refine .inl ⟨?_, ?_⟩
          · rw [persistedUploads, hfailed]
            rfl
          · rw [hrollback]
            rfl
        · refine .inr ⟨batch, rfl, hdone, rfl, ?_⟩
          rw [hwritten]

/-- A regular input that can be followed. -/
theorem advances_step (codec : Codec) (toVec : List Json → Bytes) {reducer : Option TaskReducer}
    (hregular : Regular wire client taskRef lane input)
    (hfollow : Followable wire client taskRef lane input)
    (htime : ∀ row, lane.store.activeTasks.get? taskRef = some row →
      row.updatedAt ≤ ts (observationTime input))
    (hlinked : ∀ r, reducer = some r →
      ∃ row, lane.store.activeTasks.get? taskRef = some row ∧ Linked taskRef r.snapshot row) :
    Advances taskRef reducer lane.store (step wire client codec toVec lane input).store
      ((inputUploads wire client codec toVec lane input).filter
        fun upload => upload.snapshot.taskRef = taskRef) (observationTime input) := by
  rcases step_cases wire client codec toVec lane input with
    ⟨hnone, hsame⟩ | ⟨batch, hbatch, hdone, huploads, hwritten⟩
  · rw [hnone, List.filter_nil]
    exact .quiet hlinked (by rw [hsame])
  · rw [huploads]
    have hvalid : ∀ upload, upload ∈ (persistedUploads client codec input.1.toTick lane.store
        batch.records batch.contents).filter (fun upload => upload.snapshot.taskRef = taskRef) →
        upload.Valid := fun upload hmem =>
      valid_of_mem_persistedUploads (List.mem_of_mem_filter hmem)
    have hkept : (∀ record ∈ batch.records, record.writes ≠ some taskRef) →
        (step wire client codec toVec lane input).store.activeTasks.get? taskRef =
          lane.store.activeTasks.get? taskRef := by
      intro hother
      rw [hwritten]
      apply get?_applyRecords_of_ne
      intro record hmem
      rcases List.mem_map.mp hmem with ⟨original, horiginal, rfl⟩
      rw [writes_normalizeRecord]
      exact hother original horiginal
    have hshape := batchOf_handleInput hregular hbatch
    generalize batch.records = records at hshape hkept hdone hvalid hwritten ⊢
    cases hshape with
    | idle _ hlen hidle =>
        have hrow := hkept fun record hmem => by simp [(hidle record hmem).2]
        rcases persistedUploads_of_idle taskRef hdone (hlen.trans (by decide))
          fun record hmem => (hidle record hmem).1 with
          hnone | ⟨upload, row, hone, hevents, hstored, hsnapshot⟩
        · rw [hnone]
          exact .quiet hlinked hrow
        · rw [hone] at hvalid ⊢
          exact .idle hlinked hrow (hvalid upload List.mem_cons_self) hevents
            (by rw [hwritten]; exact hstored) hsnapshot
    | step lead summary cause hlen hlead hstep =>
        have hsequence := hstep.sequence
        by_cases htask : summary.task.taskRef = taskRef
        · subst htask
          rcases persistedUploads_of_carried client input.1.toTick hdone rfl
            (by omega) (fun record hmem => (hlead record hmem).1) (by omega) with
            ⟨upload, row, errorId, hone, hevents, hstored, hstanding, hsnapshot⟩
          rw [hone] at hvalid ⊢
          rw [← hstep.updatedAt]
          refine .step hlinked hsequence hregular.range (fun row hrow => ?_)
            (hvalid upload List.mem_cons_self) hevents (by rw [hwritten]; exact hstored) hstanding
            hsnapshot
          refine ⟨hstep.unfinished hregular hrow, ?_, hstep.kept codec hfollow hrow⟩
          rw [hstep.updatedAt]
          exact htime row hrow
        · have hother : ∀ record ∈ lead ++ carryOn summary cause,
              record.uploadTask ≠ some taskRef := by
            intro record hmem hupload
            rcases List.mem_append.mp hmem with hmem | hmem
            · exact htask ((hlead record hmem).2 taskRef hupload).symm
            · simp only [carryOn, List.mem_cons, List.not_mem_nil, or_false] at hmem
              rcases hmem with rfl | rfl <;> exact htask (Option.some.inj hupload)
          have hlength : (lead ++ carryOn summary cause).length ≤ 128 := by
            simp [carryOn]
            omega
          rw [persistedUploads_of_ne hdone hlength hother]
          refine .quiet hlinked (hkept fun record hmem hwrites => hother record hmem ?_)
          cases record <;> first | exact hwrites | cases hwrites

end Step

/-! ## Runs -/

theorem InTime.tail {reducer : Option TaskReducer} {uploads : List TaskUpload}
    {input : Moment × CaptureInput} {inputs : List (Moment × CaptureInput)}
    (h : InTime taskRef lane (input :: inputs)) {lane' : Lane κ σ}
    (hadvances : Advances taskRef reducer lane.store lane'.store uploads (observationTime input)) :
    InTime taskRef lane' inputs := by
  have hordered := List.pairwise_cons.mp h.ordered
  refine ⟨fun row hrow later hlater => ?_, hordered.2⟩
  rcases hadvances.time with hsame | htime
  · exact h.stored row (hsame ▸ hrow) later (List.mem_cons_of_mem input hlater)
  · rw [htime row hrow]
    exact ts_mono (hordered.1 later hlater)

/-- A reducer that has followed the task so far follows it through the run. -/
theorem each_tracks {lane : Lane κ σ} {inputs : List (Moment × CaptureInput)}
    {reducer : Option TaskReducer}
    (hregular : Run.Each (step wire client codec toVec) (Regular wire client taskRef) lane inputs)
    (htimes : InTime taskRef lane inputs)
    (hfollow : Run.Each (step wire client codec toVec) (Followable wire client taskRef) lane inputs)
    (hlinked : ∀ r, reducer = some r →
      ∃ row, lane.store.activeTasks.get? taskRef = some row ∧ Linked taskRef r.snapshot row) :
    Run.Each follow (fun reducer upload => tracks reducer upload = true) reducer
      (uploadsFor wire client codec toVec taskRef lane inputs) := by
  induction inputs generalizing lane reducer with
  | nil => trivial
  | cons input inputs ih =>
      have hadvances := advances_step codec toVec hregular.1 hfollow.1
        (fun row hrow => htimes.stored row hrow input List.mem_cons_self) hlinked
      rw [uploadsFor, Run.each_append]
      exact ⟨hadvances.tracked, ih hregular.2 (htimes.tail hadvances) hfollow.2 hadvances.linked⟩

/-- In a run of single steps in order that can be followed, a reducer follows the uploads. -/
theorem refines_of_followable (wire : Wire κ σ) (client : ClientInstance) (codec : Codec)
    (toVec : List Json → Bytes) (taskRef : String) (lane : Lane κ σ)
    (inputs : List (Moment × CaptureInput))
    (hregular : Run.Each (step wire client codec toVec) (Regular wire client taskRef) lane inputs)
    (htimes : InTime taskRef lane inputs)
    (h : Run.Each (step wire client codec toVec) (Followable wire client taskRef) lane inputs) :
    Refines wire client codec toVec taskRef lane inputs :=
  each_tracks hregular htimes h fun _ hr => by cases hr

end Inputs

/-! ## Small runs -/

theorem regular_of_open {κ σ : Type} [DecidableEq κ] {wire : Wire κ σ} {client : ClientInstance}
    {taskRef : String} {lane : Lane κ σ} {input : Moment × CaptureInput}
    (hexits : ∀ process, input.2 = .processExit process → ((exitTasks lane process).filter
      fun task => (liveCursor lane.store task).isSome).length ≤ 1)
    (h : (inputItems wire client lane input).length ≤ 1 ∧
      storedSequence lane.store taskRef < U64_MAX ∧
      ((lane.store.activeTasks.get? taskRef).all fun row => row.phase ≠ .terminal) = true) :
    Regular wire client taskRef lane input := by
  refine ⟨h.1, hexits, fun exchange _ row hrow => ?_, h.2.1⟩
  have hopen := h.2.2
  simpa [hrow] using hopen

/-- An attributed segment: an exchange of the turn fails, or completes. -/
def attributedInput (second : ℕ) (byte : UInt8) : Moment × CaptureInput :=
  (momentAt second, .attributedTcpSegment (serverSegment [byte]) (.v7 8) .localToRemote)

def gapInput (second : ℕ) : Moment × CaptureInput :=
  (momentAt second, .captureGap (.v7 7) (some ⟨"a", "codex", "s", "t", "u"⟩)
    ((100 + second) * 1000000000) "drop" none)

/-- The process ends with this exit code. -/
def exitInput (second : ℕ) (exitCode : ℤ) : Moment × CaptureInput :=
  (momentAt second, .processExit
    ⟨.v7 8, .v7 0, 1, "sha", none, 0, some ((100 + second) * 1000000000), some exitCode, none⟩)

/-- The exchange fails, bytes are lost, and the process ends with an error. -/
def failingTurn : List (Moment × CaptureInput) :=
  [attributedInput 1 0, gapInput 2, exitInput 3 1]

/-- The exchange fails, bytes are lost, and another exchange completes the turn. -/
def recoveringTurn : List (Moment × CaptureInput) :=
  [attributedInput 1 0, gapInput 2, attributedInput 3 1]

theorem refines_failingTurn :
    (uploadsFor turnWire sampleClient (.numbered []) (fun _ => []) "s:t:u" emptyLane
        failingTurn).length = 3 ∧
      Refines turnWire sampleClient (.numbered []) (fun _ => []) "s:t:u" emptyLane failingTurn := by
  have hregular : Run.Each (step turnWire sampleClient (.numbered []) fun _ => [])
      (Regular turnWire sampleClient "s:t:u") emptyLane failingTurn := by
    refine ⟨?_, ?_, ?_, trivial⟩
    · exact regular_of_open (fun process h => by cases h) (by decide +kernel)
    · exact regular_of_open (fun process h => by cases h) (by decide +kernel)
    · refine regular_of_open (fun process h => ?_) (by decide +kernel)
      cases h
      decide +kernel
  have hfollow : Run.Each (step turnWire sampleClient (.numbered []) fun _ => [])
      (Followable turnWire sampleClient "s:t:u") emptyLane failingTurn := by
    refine ⟨⟨fun exchange _ row hrow => ?_, fun process h => ?_⟩,
      ⟨fun exchange h => ?_, fun process h => ?_⟩, ⟨fun exchange h => ?_, fun process h => ?_⟩,
      trivial⟩
    · cases hrow
    · cases h
    · rcases h.1 with ⟨current, hmem⟩
      cases hmem
    · cases h
    · rcases h.1 with ⟨current, hmem⟩
      cases hmem
    · cases h
      exact fun _ _ _ _ => rfl
  have htimes : InTime "s:t:u" emptyLane failingTurn := by
    refine ⟨fun row hrow => ?_, by decide +kernel⟩
    cases hrow
  exact ⟨by decide +kernel, refines_of_followable turnWire sampleClient (.numbered []) (fun _ => [])
    "s:t:u" emptyLane failingTurn hregular htimes hfollow⟩

theorem not_refines_recoveringTurn :
    Run.Each (step turnWire sampleClient (.numbered []) fun _ => [])
        (Regular turnWire sampleClient "s:t:u") emptyLane recoveringTurn ∧
      InTime "s:t:u" emptyLane recoveringTurn ∧
      ¬ Refines turnWire sampleClient (.numbered []) (fun _ => []) "s:t:u" emptyLane
        recoveringTurn := by
  refine ⟨⟨?_, ?_, ?_, trivial⟩, ⟨?_, ?_⟩, ?_⟩
  · exact regular_of_open (fun process h => by cases h) (by decide +kernel)
  · exact regular_of_open (fun process h => by cases h) (by decide +kernel)
  · exact regular_of_open (fun process h => by cases h) (by decide +kernel)
  · intro row hrow
    cases hrow
  · decide +kernel
  · unfold Refines
    decide +kernel

end Codexwatch.Client
