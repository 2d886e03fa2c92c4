import Codexwatch.Client.Lane
import Codexwatch.Lib.Run

/-!
# Terminal tasks

A terminal task should stay terminal, with its outcome. A gap and a process exit
look at the stored phase and leave such a task alone, an exchange does not: one that
is projected for a terminal task keeps it terminal only by completing the turn once
more. A run without other exchanges of terminal tasks leaves them as they are.

## Main definitions

* `Store.Settled` — a terminal task with its outcome.
* `Harmless` — the inputs that respect terminal tasks.
* `Absorbing`, `absorbing_of_harmless` — runs of harmless inputs.
-/
namespace Codexwatch.Client

open Protocol Capture Relational

/-- The row of the task is terminal with the outcome. -/
def Store.Settled (s : Store) (taskRef : String) (outcome : TaskOutcome) : Prop :=
  ∃ row, s.activeTasks.get? taskRef = some row ∧ row.phase = .terminal ∧
    row.outcome = some outcome

instance (s : Store) (taskRef : String) (outcome : TaskOutcome) :
    Decidable (s.Settled taskRef outcome) :=
  decidable_of_iff ((s.activeTasks.get? taskRef).any fun row =>
    row.phase = .terminal && row.outcome = some outcome) <| by
      simp [Store.Settled, Option.any_eq_true]

/-- A record that sets the progress of the task leaves it terminal with the outcome. -/
def Agrees (taskRef : String) (outcome : TaskOutcome) : SummaryRecord → Prop
  | .task summary => summary.task.taskRef = taskRef →
      summary.phase = .terminal ∧ summary.outcome = some outcome
  | .taskTransition transition => transition.task.taskRef = taskRef →
      transition.phase = .terminal ∧ transition.outcome = some outcome
  | .session _ | .attempt _ | .httpExchange _ | .captureGap _ | .process _ | .heartbeat _ => True

/-- Rows that an outbox has gained hold batches in which the task is terminal. -/
def EnqueuesTerminal (codec : Codec) (taskRef : String) (o o' : Outbox) : Prop :=
  ∀ batchId row, o'.outbox.get? batchId = some row → o.outbox.get? batchId = some row ∨
    ∃ batch encoded, codec.encodeBatch batch = .ok encoded ∧ batchId = encoded.batchId ∧
      row.payloadSha256 = encoded.payloadSha256 ∧ row.body = encoded.bytes ∧
      ∀ upload ∈ batch.tasks, upload.snapshot.taskRef = taskRef → upload.snapshot.phase = .terminal

section Store
variable {codec : Codec} {s : Store} {taskRef : String} {outcome : TaskOutcome}

theorem settled_iff_progress : s.Settled taskRef outcome ↔
    ∃ sequence eventId, s.progress taskRef = some (.terminal, some outcome, sequence, eventId) := by
  simp only [Store.Settled, Store.progress, Option.map_eq_some_iff, TaskRow.progress,
    Prod.mk.injEq]
  constructor
  · intro h
    rcases h with ⟨row, hrow, hphase, houtcome⟩
    exact ⟨_, _, row, hrow, hphase, houtcome, rfl, rfl⟩
  · intro h
    rcases h with ⟨_, _, row, hrow, hphase, houtcome, _⟩
    exact ⟨row, hrow, hphase, houtcome⟩

theorem settled_applyRecord {record : SummaryRecord} (h : s.Settled taskRef outcome)
    (hagrees : Agrees taskRef outcome record) :
    (applyRecord s record).2.Settled taskRef outcome := by
  rw [settled_iff_progress] at h ⊢
  by_cases hadvances : record.advances = some taskRef
  · cases record with
    | task summary =>
        obtain rfl := Option.some.inj hadvances
        obtain ⟨hphase, houtcome⟩ := hagrees rfl
        obtain hset | hkeep := progress_upsertTaskSummary s summary
        · exact ⟨_, _, hphase ▸ houtcome ▸ hset⟩
        · rwa [applyRecord, hkeep]
    | taskTransition transition =>
        obtain rfl := Option.some.inj hadvances
        obtain ⟨hphase, houtcome⟩ := hagrees rfl
        obtain hset | hkeep := progress_upsertTransition s transition
        · exact ⟨_, _, hphase ▸ houtcome ▸ hset⟩
        · rwa [applyRecord, hkeep]
    | _ => cases hadvances
  · rwa [progress_applyRecord_of_ne hadvances]

theorem settled_applyRecords {records : List SummaryRecord} (h : s.Settled taskRef outcome)
    (hagrees : ∀ record ∈ records, Agrees taskRef outcome record) :
    (applyRecords s records).2.Settled taskRef outcome := by
  induction records generalizing s with
  | nil => exact h
  | cons record records ih =>
      rw [applyRecords]
      exact ih (settled_applyRecord h (hagrees record List.mem_cons_self))
        fun other hmem => hagrees other (List.mem_cons_of_mem record hmem)

theorem agrees_normalizeRecord {record : SummaryRecord} :
    Agrees taskRef outcome (normalizeRecord codec record) ↔ Agrees taskRef outcome record := by
  cases record <;> rfl

/-- The snapshot of a settled task is terminal in every batch. -/
theorem terminal_of_settled {client : ClientInstance} {t : Tick} (h : s.Settled taskRef outcome)
    {chunk : ℕ} {records : List SummaryRecord} {upload : TaskUpload}
    (hmem : upload ∈ (buildWireBatch client t s chunk records).tasks)
    (htask : upload.snapshot.taskRef = taskRef) : upload.snapshot.phase = .terminal := by
  obtain ⟨row, hrow, hphase, -⟩ := h
  obtain ⟨sent, errorId, hsent, hsnapshot⟩ := row_of_mem_buildWireBatch hmem
  rw [htask, hrow] at hsent
  obtain rfl := Option.some.inj hsent
  rw [hsnapshot]
  simpa [TaskRow.snapshot] using hphase

/-- Persisting records that agree keeps a settled task, and sends it as terminal. -/
theorem settled_persistIngress {client : ClientInstance} {t : Tick}
    (h : s.Settled taskRef outcome) {records : List SummaryRecord}
    {contents : List StoredContentInput}
    (hagrees : ∀ record ∈ records, Agrees taskRef outcome record) :
    (persistIngress client codec t s records contents).2.Settled taskRef outcome ∧
      EnqueuesTerminal codec taskRef s.outbox
        (persistIngress client codec t s records contents).2.outbox := by
  obtain ⟨-, files, hrollback⟩ | ⟨inserted, outbox, henqueue, -, hwritten⟩ :=
    persistIngress_cases client codec t s records contents
  · rw [hrollback]
    exact ⟨h, fun _ _ hrow => .inl hrow⟩
  · have hsettled : (writtenStore codec s records contents).Settled taskRef outcome := by
      refine settled_applyRecords h fun record hmem => ?_
      obtain ⟨original, horiginal, rfl⟩ := List.mem_map.mp hmem
      exact agrees_normalizeRecord.mpr (hagrees original horiginal)
    rw [hwritten]
    refine ⟨hsettled, fun batchId row hrow => ?_⟩
    obtain hold | ⟨chunk, sent, encoded, hencode, hid, hsha, hbody⟩ :=
      enqueueRecords_rows henqueue hrow
    · left
      rwa [writtenStore, outbox_applyRecords] at hold
    · exact .inr ⟨_, encoded, hencode, hid, hsha, hbody,
        fun upload hmem htask => terminal_of_settled hsettled hmem htask⟩

end Store

/-! ## Inputs of the lane -/

section Lane
variable {κ σ : Type} [DecidableEq κ] (wire : Wire κ σ) (client : ClientInstance) (codec : Codec)
  (toVec : List Json → Bytes)

/-- A segment with its attribution. -/
def segmentOf : CaptureInput → Option (TcpSegment × Option Uuid × Option ProcessFlowDirection)
  | .tcpSegment segment => some (segment, none, none)
  | .attributedTcpSegment segment processInstanceId direction =>
      some (segment, some processInstanceId, some direction)
  | .captureGap _ _ _ _ _ | .processObserved _ | .processExit _ => none

/-- Every exchange that the input completes for a settled task ends the turn of a completed one. -/
def Harmless (lane : Lane κ σ) (input : Moment × CaptureInput) : Prop :=
  ∀ segment processInstanceId direction,
    segmentOf input.2 = some (segment, processInstanceId, direction) →
    ∀ item ∈ segmentItems wire client input.1 lane segment processInstanceId direction,
    ∀ exchange, item.1 = .exchange exchange → isProjected client exchange lane.store = true →
    ∀ outcome, lane.store.Settled (exchangeTask client exchange).taskRef outcome →
      endsTurn exchange.attempt = true ∧ outcome = .completed

/-- One input of a run. -/
def step (lane : Lane κ σ) (input : Moment × CaptureInput) : Lane κ σ :=
  (ingestInput wire client codec toVec input.1 lane input.2).2

/-- A task that has settled at any point of the run stays settled with its outcome, and what is
enqueued for it afterwards is terminal. -/
def Absorbing (lane : Lane κ σ) (inputs : List (Moment × CaptureInput)) : Prop :=
  ∀ before after taskRef outcome, inputs = before ++ after →
    (Run.run (step wire client codec toVec) lane before).store.Settled taskRef outcome →
      (Run.run (step wire client codec toVec) lane inputs).store.Settled taskRef outcome ∧
      EnqueuesTerminal codec taskRef
        (Run.run (step wire client codec toVec) lane before).store.outbox
        (Run.run (step wire client codec toVec) lane inputs).store.outbox

variable {wire client codec toVec} {m : Moment} {s : Store} {taskRef : String}
  {outcome : TaskOutcome}

/-- A task with a live cursor is not settled. -/
theorem ne_of_liveCursor {task : TaskKey} {cursor : TaskCursor} (h : s.Settled taskRef outcome)
    (hlive : liveCursor s task = some cursor) : task.taskRef ≠ taskRef := by
  intro htask
  obtain ⟨row, hrow, hphase, -⟩ := h
  rw [← htask] at hrow
  simp [liveCursor, loadTaskCursor, hrow, TaskRow.cursor, hphase, Option.filter] at hlive

theorem agrees_carryOn {summary : TaskSummary} {cause : TransitionCause}
    (h : summary.task.taskRef ≠ taskRef) :
    ∀ record ∈ carryOn summary cause, Agrees taskRef outcome record := by
  intro record hmem
  simp only [carryOn, List.mem_cons, List.not_mem_nil, or_false] at hmem
  obtain rfl | rfl := hmem
  · exact fun htask => absurd htask h
  · exact fun htask => absurd htask h

/-- A gap has no records for a settled task. -/
theorem agrees_gapTaskRecords (h : s.Settled taskRef outcome) {title : String → Option String}
    {t : Tick} {index : ℕ} {task : TaskKey} {observedAt : OffsetDateTime} {loss : CaptureLoss} :
    ∀ record ∈ gapTaskRecords title t s index task observedAt loss,
      Agrees taskRef outcome record := by
  rw [gapTaskRecords]
  split
  · simp
  · rename_i cursor hlive
    exact agrees_carryOn (ne_of_liveCursor h hlive)

theorem agrees_projectGap (h : s.Settled taskRef outcome) {title : String → Option String}
    {t : Tick} {index : ℕ} {flowId : Uuid} {task : Option TaskKey} {observedAt : OffsetDateTime}
    {reason : String} {lostBytes : Option ℕ} :
    ∀ record ∈ (projectGap client title t s index flowId task observedAt reason lostBytes).records,
      Agrees taskRef outcome record := by
  intro record hmem
  simp only [projectGap, List.mem_cons] at hmem
  obtain rfl | hmem := hmem
  · trivial
  · cases task with
    | none => simp at hmem
    | some task => exact agrees_gapTaskRecords h record hmem

theorem agrees_projectProcessExit (h : s.Settled taskRef outcome)
    {title : String → Option String} {t : Tick} {process : ProcessSummary}
    {tasks : List TaskKey} :
    ∀ record ∈ (projectProcessExit title t s process tasks).records,
      Agrees taskRef outcome record := by
  intro record hmem
  simp only [projectProcessExit, List.mem_cons, List.mem_flatMap] at hmem
  obtain rfl | ⟨⟨task, index⟩, -, hmem⟩ := hmem
  · trivial
  · rw [exitTaskRecords] at hmem
    split at hmem
    · simp at hmem
    · rename_i cursor hlive
      refine agrees_carryOn ?_ record hmem
      exact ne_of_liveCursor h hlive

/-- The records of an exchange of another task, or of one that completes a completed task. -/
theorem agrees_exchangeRecords {title : String → Option String} {t : Tick} {index : ℕ}
    {exchange : DecodedExchange} {cursor : Option TaskCursor}
    (h : (exchangeTask client exchange).taskRef = taskRef →
      endsTurn exchange.attempt = true ∧ outcome = .completed) :
    ∀ record ∈ exchangeRecords client title t index exchange codec cursor,
      Agrees taskRef outcome record := by
  have hprogress : (exchangeTask client exchange).taskRef = taskRef →
      (mapAttemptProjection exchange.attempt).taskPhase = .terminal ∧
        (mapAttemptProjection exchange.attempt).taskOutcome = some outcome := by
    intro htask
    obtain ⟨hends, rfl⟩ := h htask
    exact mapAttemptProjection_of_endsTurn hends
  intro record hmem
  simp only [exchangeRecords, List.mem_cons, List.not_mem_nil, or_false] at hmem
  obtain rfl | rfl | rfl | rfl | rfl := hmem
  · trivial
  · trivial
  · trivial
  · exact hprogress
  · exact hprogress

theorem agrees_projectItem (h : s.Settled taskRef outcome) {flowId : Uuid}
    {current : Option TaskKey} {index : ℕ} {item : FlowItem}
    (hitem : ∀ exchange, item = .exchange exchange → isProjected client exchange s = true →
      (exchangeTask client exchange).taskRef = taskRef →
        endsTurn exchange.attempt = true ∧ outcome = .completed) :
    ∀ record ∈ (projectItem client codec toVec m s flowId current index item).records,
      Agrees taskRef outcome record := by
  cases item with
  | gap reason lostBytes => exact agrees_projectGap h
  | exchange exchange =>
      rw [projectItem, projectExchange]
      split
      · rename_i hprojected
        exact agrees_exchangeRecords (hitem exchange rfl hprojected)
      · intro record hmem
        cases hmem

theorem agrees_handleSegment {lane : Lane κ σ} (h : lane.store.Settled taskRef outcome)
    {segment : TcpSegment} {processInstanceId : Option Uuid}
    {direction : Option ProcessFlowDirection}
    (hitems : ∀ item ∈ segmentItems wire client m lane segment processInstanceId direction,
      ∀ exchange, item.1 = .exchange exchange → isProjected client exchange lane.store = true →
      (exchangeTask client exchange).taskRef = taskRef →
        endsTurn exchange.attempt = true ∧ outcome = .completed) {handled : Handled}
    {lane' : Lane κ σ}
    (hhandled : handleSegment wire client codec toVec m lane segment processInstanceId direction =
      (handled, lane')) :
    lane'.store = lane.store ∧
      ∀ batch, handled = .batch batch → ∀ record ∈ batch.records,
        Agrees taskRef outcome record := by
  obtain ⟨hstore, hbatch⟩ := handleSegment_cases hhandled
  refine ⟨hstore, fun batch hb record hmem => ?_⟩
  obtain ⟨flowId, hrecords⟩ := hbatch batch hb
  rw [hrecords] at hmem
  obtain ⟨⟨item, index⟩, hitem, hrecord⟩ := List.mem_flatMap.mp hmem
  exact agrees_projectItem h (hitems item (List.fst_mem_of_mem_zipIdx hitem)) record hrecord

/-- A harmless input has no record that takes a settled task back. -/
theorem agrees_handleInput (codec : Codec) (toVec : List Json → Bytes) {lane : Lane κ σ}
    {input : CaptureInput} (h : lane.store.Settled taskRef outcome)
    (hharmless : Harmless wire client lane (m, input)) :
    (handleInput wire client codec toVec m lane input).2.store = lane.store ∧
      ∀ batch, (handleInput wire client codec toVec m lane input).1 = .batch batch →
        ∀ record ∈ batch.records, Agrees taskRef outcome record := by
  have hsegment : ∀ segment processInstanceId direction,
      segmentOf input = some (segment, processInstanceId, direction) →
      (handleSegment wire client codec toVec m lane segment processInstanceId direction).2.store =
        lane.store ∧
      ∀ batch, (handleSegment wire client codec toVec m lane segment processInstanceId
        direction).1 = .batch batch → ∀ record ∈ batch.records, Agrees taskRef outcome record := by
    intro segment processInstanceId direction hof
    refine agrees_handleSegment h (fun item hitem exchange hexchange hprojected htask => ?_) rfl
    exact hharmless segment processInstanceId direction hof item hitem exchange hexchange
      hprojected outcome (htask ▸ h)
  cases input with
  | tcpSegment segment => exact hsegment segment none none rfl
  | attributedTcpSegment segment processInstanceId direction =>
      exact hsegment segment (some processInstanceId) (some direction) rfl
  | captureGap flowId task observedAt reason lostBytes =>
      refine ⟨rfl, fun batch hb => ?_⟩
      simp only [handleInput] at hb
      rw [eq_of_ofBatch hb]
      exact agrees_projectGap h
  | processObserved process =>
      refine ⟨rfl, fun batch hb record hmem => ?_⟩
      cases hb
      obtain rfl := List.mem_singleton.mp hmem
      trivial
  | processExit process =>
      refine ⟨rfl, fun batch hb => ?_⟩
      simp only [handleInput] at hb
      rw [eq_of_ofBatch hb]
      exact agrees_projectProcessExit h

/-- One harmless input keeps a settled task, and sends it as terminal. -/
theorem settled_step (codec : Codec) (toVec : List Json → Bytes) {lane : Lane κ σ}
    {input : Moment × CaptureInput} (h : lane.store.Settled taskRef outcome)
    (hharmless : Harmless wire client lane input) :
    (step wire client codec toVec lane input).store.Settled taskRef outcome ∧
      EnqueuesTerminal codec taskRef lane.store.outbox
        (step wire client codec toVec lane input).store.outbox := by
  obtain ⟨hstore, hagrees⟩ := agrees_handleInput codec toVec h hharmless
  have hidle : (handleInput wire client codec toVec input.1 lane input.2).2.store.Settled taskRef
      outcome ∧ EnqueuesTerminal codec taskRef lane.store.outbox
        (handleInput wire client codec toVec input.1 lane input.2).2.store.outbox := by
    rw [hstore]
    exact ⟨h, fun _ _ hrow => .inl hrow⟩
  rw [step, ingestInput]
  split
  · exact hidle
  · exact hidle
  · rename_i batch hbatch
    split
    · exact hidle
    · dsimp only
      rw [hstore]
      exact settled_persistIngress h (hagrees batch hbatch)

theorem EnqueuesTerminal.trans {o o' o'' : Outbox} (h : EnqueuesTerminal codec taskRef o o')
    (h' : EnqueuesTerminal codec taskRef o' o'') : EnqueuesTerminal codec taskRef o o'' := by
  intro batchId row hrow
  obtain hold | hnew := h' batchId row hrow
  · exact h batchId row hold
  · exact .inr hnew

/-- Harmless inputs keep a settled task. -/
theorem settled_run {lane : Lane κ σ} {inputs : List (Moment × CaptureInput)}
    (h : lane.store.Settled taskRef outcome)
    (hharmless : Run.Each (step wire client codec toVec) (Harmless wire client) lane inputs) :
    (Run.run (step wire client codec toVec) lane inputs).store.Settled taskRef outcome ∧
      EnqueuesTerminal codec taskRef lane.store.outbox
        (Run.run (step wire client codec toVec) lane inputs).store.outbox := by
  induction inputs generalizing lane with
  | nil => exact ⟨h, fun _ _ hrow => .inl hrow⟩
  | cons input inputs ih =>
      obtain ⟨hsettled, henqueues⟩ := settled_step codec toVec h hharmless.1
      obtain ⟨hsettled', henqueues'⟩ := ih hsettled hharmless.2
      exact ⟨hsettled', henqueues.trans henqueues'⟩

/-- In a run of harmless inputs terminal is absorbing. -/
theorem absorbing_of_harmless (wire : Wire κ σ) (client : ClientInstance) (codec : Codec)
    (toVec : List Json → Bytes) (lane : Lane κ σ) (inputs : List (Moment × CaptureInput))
    (h : Run.Each (step wire client codec toVec) (Harmless wire client) lane inputs) :
    Absorbing wire client codec toVec lane inputs := by
  intro before after taskRef outcome hinputs hsettled
  subst hinputs
  rw [Run.run_append]
  exact settled_run hsettled (Run.each_append.mp h).2

end Lane

/-- The turn completes. -/
def completedInput : Moment × CaptureInput := (momentAt 1, .tcpSegment (serverSegment [1]))

/-- A gap is reported for the turn that has completed. -/
def lateGap : Moment × CaptureInput :=
  (momentAt 2, .captureGap (.v7 7) (some ⟨"a", "codex", "s", "t", "u"⟩) 102000000000 "drop" none)

/-- Another exchange of the turn fails after it has completed. -/
def lateExchange : Moment × CaptureInput := (momentAt 3, .tcpSegment (serverSegment [0]))

theorem absorbing_completed_gap :
    (Run.run (step turnWire sampleClient (.numbered []) fun _ => []) emptyLane
        [completedInput]).store.Settled "s:t:u" .completed ∧
      Absorbing turnWire sampleClient (.numbered []) (fun _ => []) emptyLane
        [completedInput, lateGap] := by
  refine ⟨by decide +kernel, absorbing_of_harmless _ _ _ _ _ _ ⟨?_, ?_, trivial⟩⟩
  · intro segment processInstanceId direction hof item hitem exchange hexchange hprojected outcome
      hsettled
    obtain ⟨row, hrow, -⟩ := hsettled
    cases hrow
  · intro segment processInstanceId direction hof
    cases hof

theorem not_absorbing_lateExchange :
    ¬ Absorbing turnWire sampleClient (.numbered []) (fun _ => []) emptyLane
      [completedInput, lateExchange] := by
  intro h
  have hsettled := (h [completedInput] [lateExchange] "s:t:u" .completed rfl (by decide +kernel)).1
  revert hsettled
  decide +kernel

end Codexwatch.Client
