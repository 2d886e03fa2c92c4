import Mathlib.Data.List.Flatten
import Codexwatch.Client.Lane
import Codexwatch.Lib.Run

/-!
# The numbers of a capture batch

The records of one segment number the steps of a task: sequences of its summaries,
ordinals of its attempts. All of them are projected from the same stored cursor, so
that the numbers are right exactly when the segment carries on no task twice.

## Main definitions

* `Numbered` — the numbering of a batch.
* `segmentTasks` — the tasks that a segment carries on.
* `numbered_iff` — when the batch of a segment is numbered.
-/
namespace Codexwatch.Client

open Protocol Capture Relational

def summaryOf : SummaryRecord → Option TaskSummary
  | .task summary => some summary
  | _ => none

def attemptOf : SummaryRecord → Option AttemptSummary
  | .attempt attempt => some attempt
  | _ => none

/-- The summaries of a task in a batch. -/
def summariesOf (taskRef : String) (records : List SummaryRecord) : List TaskSummary :=
  (records.filterMap summaryOf).filter fun summary => summary.task.taskRef = taskRef

def attemptsOf (taskRef : String) (records : List SummaryRecord) : List AttemptSummary :=
  (records.filterMap attemptOf).filter fun attempt => attempt.task.taskRef = taskRef

/-- The cursor sequence of a task, zero when there is no row. -/
def storedSequence (s : Store) (taskRef : String) : ℕ :=
  ((s.activeTasks.get? taskRef).map TaskRow.sequence).getD 0

def storedAttempts (s : Store) (taskRef : String) : ℕ :=
  ((s.activeTasks.get? taskRef).map TaskRow.attemptCount).getD 0

/-- The state after a record of the batch. -/
def applied (s : Store) (record : SummaryRecord) : Store := (applyRecord s record).2

/-- A summary or an attempt is accepted; of other records nothing is asked. -/
def Accepted (s : Store) (record : SummaryRecord) : Prop :=
  ((summaryOf record).isSome ∨ (attemptOf record).isSome) → (applyRecord s record).1 = true

/-- Summaries and attempts of a task are numbered on from the stored cursor, its responses are
distinct, and `persist_ingress` applies them all. -/
structure Numbered (codec : Codec) (s : Store) (records : List SummaryRecord) : Prop where
  sequences : ∀ taskRef, (summariesOf taskRef records).map TaskSummary.sequence =
    List.range' (storedSequence s taskRef + 1) (summariesOf taskRef records).length
  ordinals : ∀ taskRef, (attemptsOf taskRef records).map AttemptSummary.ordinal =
    List.range' (storedAttempts s taskRef + 1) (attemptsOf taskRef records).length
  responses : ∀ taskRef, ((attemptsOf taskRef records).filterMap AttemptSummary.responseId).Nodup
  accepted : Run.Each applied Accepted s (records.map (normalizeRecord codec))

/-- The tasks that the summaries of a batch are about. -/
def summaryTasks (records : List SummaryRecord) : List String :=
  (records.filterMap summaryOf).map fun summary => summary.task.taskRef

def attemptTasks (records : List SummaryRecord) : List String :=
  (records.filterMap attemptOf).map fun attempt => attempt.task.taskRef

/-- The transition of a task comes after a summary of it. -/
def Announced : List String → List SummaryRecord → Prop
  | _, [] => True
  | seen, .task summary :: records => Announced (summary.task.taskRef :: seen) records
  | seen, .taskTransition transition :: records =>
      transition.task.taskRef ∈ seen ∧ Announced seen records
  | seen, _ :: records => Announced seen records

/-- Every summary and every attempt is numbered just after the cursor. -/
structure FromCursor (s : Store) (records : List SummaryRecord) : Prop where
  sequence : ∀ summary, .task summary ∈ records →
    summary.sequence = storedSequence s summary.task.taskRef + 1
  ordinal : ∀ attempt, .attempt attempt ∈ records →
    attempt.ordinal = storedAttempts s attempt.task.taskRef + 1
  attempts : (attemptTasks records).Sublist (summaryTasks records)
  announced : Announced [] records

/-! ## Numbered batches -/

section Numbers
variable {codec : Codec} {s : Store} {records : List SummaryRecord} {taskRef : String}

/-- Equal numbers count on only when there is at most one. -/
theorem eq_range'_iff_of_const {l : List ℕ} {n : ℕ} (h : ∀ x ∈ l, x = n) :
    l = List.range' n l.length ↔ l.length ≤ 1 := by
  match l with
  | [] => simp
  | [x] => simpa using h
  | x :: y :: l =>
      have hx : x = n := h x (by simp)
      have hy : y = n := h y (by simp)
      simp [List.range'_succ, hx, hy]

theorem length_summariesOf :
    (summariesOf taskRef records).length = (summaryTasks records).count taskRef := by
  rw [summariesOf, summaryTasks, List.count_eq_countP, List.countP_map,
    List.countP_eq_length_filter]
  congr

theorem length_attemptsOf :
    (attemptsOf taskRef records).length = (attemptTasks records).count taskRef := by
  rw [attemptsOf, attemptTasks, List.count_eq_countP, List.countP_map,
    List.countP_eq_length_filter]
  congr

theorem mem_summariesOf {summary : TaskSummary} :
    summary ∈ summariesOf taskRef records ↔
      .task summary ∈ records ∧ summary.task.taskRef = taskRef := by
  simp only [summariesOf, List.mem_filter, List.mem_filterMap, decide_eq_true_eq]
  constructor
  · intro ⟨⟨record, hmem, hrecord⟩, htask⟩
    cases record <;> simp [summaryOf] at hrecord
    subst hrecord
    exact ⟨hmem, htask⟩
  · intro ⟨hmem, htask⟩
    exact ⟨⟨_, hmem, rfl⟩, htask⟩

theorem mem_attemptsOf {attempt : AttemptSummary} :
    attempt ∈ attemptsOf taskRef records ↔
      .attempt attempt ∈ records ∧ attempt.task.taskRef = taskRef := by
  simp only [attemptsOf, List.mem_filter, List.mem_filterMap, decide_eq_true_eq]
  constructor
  · intro ⟨⟨record, hmem, hrecord⟩, htask⟩
    cases record <;> simp [attemptOf] at hrecord
    subst hrecord
    exact ⟨hmem, htask⟩
  · intro ⟨hmem, htask⟩
    exact ⟨⟨_, hmem, rfl⟩, htask⟩

theorem storedSequence_eq_progress :
    storedSequence s taskRef = ((s.progress taskRef).map fun progress => progress.2.2.1).getD 0 := by
  rw [storedSequence, Store.progress, Option.map_map]
  rfl

/-- A summary with a higher number than the stored one is applied. -/
theorem accepted_of_lt {summary : TaskSummary}
    (h : storedSequence s summary.task.taskRef < summary.sequence) :
    (applyRecord s (.task summary)).1 = true := by
  rw [applyRecord, upsertTaskSummary, if_neg]
  rw [storedSequence] at h
  cases hrow : s.activeTasks.get? summary.task.taskRef with
  | none => simp
  | some row =>
      rw [hrow, Option.map_some, Option.getD_some] at h
      simp only [TaskRow.supersedes, Option.any_some, Bool.or_eq_true, Bool.and_eq_true,
        decide_eq_true_eq]
      omega

/-- Summaries of distinct tasks, numbered above the store, are all applied. In the current
state only the tasks seen so far have moved. -/
theorem each_accepted (seen : List String) {current : Store}
    (hcurrent : ∀ taskRef, taskRef ∉ seen → current.progress taskRef = s.progress taskRef)
    (hannounced : Announced seen records) (hnodup : (summaryTasks records).Nodup)
    (hfresh : ∀ taskRef ∈ summaryTasks records, taskRef ∉ seen)
    (hnext : ∀ summary, .task summary ∈ records →
      storedSequence s summary.task.taskRef < summary.sequence) :
    Run.Each applied Accepted current records := by
  induction records generalizing seen current with
  | nil => trivial
  | cons record records ih =>
      -- a record of another kind moves no task
      have hkeep : record.advances = none → Announced seen records →
          summaryTasks (record :: records) = summaryTasks records →
          Run.Each applied Accepted (applied current record) records := by
        intro hadvances hrest htasks
        rw [htasks] at hnodup hfresh
        refine ih seen ?_ hrest hnodup hfresh fun summary hmem =>
          hnext summary (List.mem_cons_of_mem record hmem)
        intro taskRef hseen
        rw [applied, progress_applyRecord_of_ne (by simp [hadvances]), hcurrent taskRef hseen]
      cases record with
      | task summary =>
          have htasks : summaryTasks (.task summary :: records) =
              summary.task.taskRef :: summaryTasks records := rfl
          rw [htasks] at hnodup hfresh
          have hstored : storedSequence current summary.task.taskRef < summary.sequence := by
            rw [storedSequence_eq_progress, hcurrent _ (hfresh _ List.mem_cons_self),
              ← storedSequence_eq_progress]
            exact hnext summary List.mem_cons_self
          refine ⟨fun _ => accepted_of_lt hstored, ?_⟩
          refine ih (summary.task.taskRef :: seen) ?_ hannounced hnodup.of_cons ?_
            fun other hmem => hnext other (List.mem_cons_of_mem _ hmem)
          · intro taskRef hseen
            rw [List.mem_cons, not_or] at hseen
            rw [applied, progress_applyRecord_of_ne, hcurrent taskRef hseen.2]
            rw [SummaryRecord.advances]
            exact fun h => hseen.1 (Option.some.inj h).symm
          · intro taskRef hmem hseen
            obtain rfl | hseen := List.mem_cons.mp hseen
            · exact (List.nodup_cons.mp hnodup).1 hmem
            · exact hfresh taskRef (List.mem_cons_of_mem _ hmem) hseen
      | taskTransition transition =>
          refine ⟨fun h => by simp [summaryOf, attemptOf] at h, ?_⟩
          refine ih seen ?_ hannounced.2 hnodup hfresh fun summary hmem =>
            hnext summary (List.mem_cons_of_mem _ hmem)
          intro taskRef hseen
          rw [applied, progress_applyRecord_of_ne, hcurrent taskRef hseen]
          rw [SummaryRecord.advances]
          exact fun h => hseen (Option.some.inj h ▸ hannounced.1)
      | attempt attempt => exact ⟨fun _ => rfl, hkeep rfl hannounced rfl⟩
      | session session =>
          exact ⟨fun h => by simp [summaryOf, attemptOf] at h, hkeep rfl hannounced rfl⟩
      | httpExchange exchange =>
          exact ⟨fun h => by simp [summaryOf, attemptOf] at h, hkeep rfl hannounced rfl⟩
      | captureGap gap =>
          exact ⟨fun h => by simp [summaryOf, attemptOf] at h, hkeep rfl hannounced rfl⟩
      | process process =>
          exact ⟨fun h => by simp [summaryOf, attemptOf] at h, hkeep rfl hannounced rfl⟩
      | heartbeat heartbeat =>
          exact ⟨fun h => by simp [summaryOf, attemptOf] at h, hkeep rfl hannounced rfl⟩

/-! Cutting error texts changes neither tasks nor numbers. -/

theorem announced_normalize {seen : List String} :
    Announced seen (records.map (normalizeRecord codec)) ↔ Announced seen records := by
  induction records generalizing seen with
  | nil => rfl
  | cons record records ih => cases record <;> simp [normalizeRecord, Announced, ih]

theorem summaryTasks_normalize :
    summaryTasks (records.map (normalizeRecord codec)) = summaryTasks records := by
  simp only [summaryTasks, List.map_filterMap, List.filterMap_map]
  congr 1
  funext record
  cases record <;> rfl

theorem mem_normalize_task {summary : TaskSummary}
    (h : .task summary ∈ records.map (normalizeRecord codec)) :
    ∃ original, .task original ∈ records ∧ original.task = summary.task ∧
      original.sequence = summary.sequence ∧ original.phase = summary.phase ∧
      original.outcome = summary.outcome := by
  obtain ⟨record, hmem, hrecord⟩ := List.mem_map.mp h
  cases record <;> simp [normalizeRecord] at hrecord
  subst hrecord
  exact ⟨_, hmem, rfl, rfl, rfl, rfl⟩

theorem nodup_of_length_le_one {α : Type} {l : List α} (h : l.length ≤ 1) : l.Nodup := by
  match l with
  | [] => exact List.nodup_nil
  | [x] => exact List.nodup_singleton x
  | x :: y :: l => simp at h

/-- Records numbered from the cursor are numbered on exactly when no task comes twice. -/
theorem FromCursor.numbered_iff_nodup (h : FromCursor s records) :
    Numbered codec s records ↔ (summaryTasks records).Nodup := by
  have hseq : ∀ taskRef, ∀ n ∈ (summariesOf taskRef records).map TaskSummary.sequence,
      n = storedSequence s taskRef + 1 := by
    intro taskRef n hn
    obtain ⟨summary, hmem, rfl⟩ := List.mem_map.mp hn
    obtain ⟨hrecord, rfl⟩ := mem_summariesOf.mp hmem
    exact h.sequence summary hrecord
  have hord : ∀ taskRef, ∀ n ∈ (attemptsOf taskRef records).map AttemptSummary.ordinal,
      n = storedAttempts s taskRef + 1 := by
    intro taskRef n hn
    obtain ⟨attempt, hmem, rfl⟩ := List.mem_map.mp hn
    obtain ⟨hrecord, rfl⟩ := mem_attemptsOf.mp hmem
    exact h.ordinal attempt hrecord
  constructor
  · intro hnumbered
    rw [List.nodup_iff_count_le_one]
    intro taskRef
    have hlength := (eq_range'_iff_of_const (hseq taskRef)).mp
      (by rw [List.length_map]; exact hnumbered.sequences taskRef)
    rwa [List.length_map, length_summariesOf] at hlength
  · intro hnodup
    have hattempts : ∀ taskRef, (attemptsOf taskRef records).length ≤ 1 := by
      intro taskRef
      rw [length_attemptsOf]
      exact List.nodup_iff_count_le_one.mp (hnodup.sublist h.attempts) taskRef
    refine ⟨?_, ?_, ?_, ?_⟩
    · intro taskRef
      have hrange := (eq_range'_iff_of_const (hseq taskRef)).mpr (by
        rw [List.length_map, length_summariesOf]
        exact List.nodup_iff_count_le_one.mp hnodup taskRef)
      rwa [List.length_map] at hrange
    · intro taskRef
      have hrange := (eq_range'_iff_of_const (hord taskRef)).mpr (by
        rw [List.length_map]
        exact hattempts taskRef)
      rwa [List.length_map] at hrange
    · intro taskRef
      exact nodup_of_length_le_one ((List.length_filterMap_le _ _).trans (hattempts taskRef))
    · refine each_accepted [] (fun _ _ => rfl) (announced_normalize.mpr h.announced)
        (summaryTasks_normalize.symm ▸ hnodup) (fun _ _ => List.not_mem_nil) ?_
      intro summary hmem
      obtain ⟨original, horiginal, htask, hsequence, -, -⟩ := mem_normalize_task hmem
      rw [← htask, ← hsequence, h.sequence original horiginal]
      omega

end Numbers

/-! ## The batch of a segment -/

section Segment
variable {κ σ : Type} [DecidableEq κ] {wire : Wire κ σ} {client : ClientInstance} {codec : Codec}
  {toVec : List Json → Bytes} {m : Moment} {s : Store} {flowId : Uuid}
  {item : FlowItem × Option TaskKey} {index : ℕ}

/-- The tasks that a segment carries on, in order, one entry for each item that does. -/
def segmentTasks (wire : Wire κ σ) (client : ClientInstance) (m : Moment) (lane : Lane κ σ)
    (segment : TcpSegment) (processInstanceId : Option Uuid)
    (direction : Option ProcessFlowDirection) : List String :=
  (segmentItems wire client m lane segment processInstanceId direction).filterMap
    (carries client lane.store)

theorem storedSequence_of_cursor {task : TaskKey} :
    storedSequence s task.taskRef + 1 =
      ((loadTaskCursor s task).map fun cursor => cursor.sequence + 1).getD 1 := by
  rw [storedSequence, loadTaskCursor]
  cases s.activeTasks.get? task.taskRef <;> rfl

theorem storedAttempts_of_cursor {task : TaskKey} :
    storedAttempts s task.taskRef + 1 =
      ((loadTaskCursor s task).map fun cursor => cursor.attemptCount + 1).getD 1 := by
  rw [storedAttempts, loadTaskCursor]
  cases s.activeTasks.get? task.taskRef <;> rfl

/-- One summary for an item that carries on a task. -/
theorem summaryTasks_projectItem :
    summaryTasks (projectItem client codec toVec m s flowId item.2 index item.1).records =
      (carries client s item).toList := by
  obtain ⟨exchange, -, hcarries, hrecords⟩ |
    ⟨reason, lostBytes, task, cursor, gap, -, hcarries, -, -, hrecords⟩ |
    ⟨hcarries, hrecords | ⟨gap, hrecords⟩⟩ := 
      projectItem_cases client codec toVec m s flowId item index <;>
    rw [hrecords, hcarries] <;> rfl

theorem attemptTasks_projectItem :
    (attemptTasks (projectItem client codec toVec m s flowId item.2 index item.1).records).Sublist
      (carries client s item).toList := by
  obtain ⟨exchange, -, hcarries, hrecords⟩ |
    ⟨reason, lostBytes, task, cursor, gap, -, hcarries, -, -, hrecords⟩ |
    ⟨hcarries, hrecords | ⟨gap, hrecords⟩⟩ := 
      projectItem_cases client codec toVec m s flowId item index <;>
    rw [hrecords, hcarries]
  · exact List.Sublist.refl _
  · exact List.nil_sublist _
  · exact List.nil_sublist _
  · exact List.nil_sublist _

theorem announced_mono {seen seen' : List String} {records : List SummaryRecord}
    (hsub : seen ⊆ seen') (h : Announced seen records) : Announced seen' records := by
  induction records generalizing seen seen' with
  | nil => trivial
  | cons record records ih =>
      cases record with
      | task summary => exact ih (List.cons_subset_cons _ hsub) h
      | taskTransition transition => exact ⟨hsub h.1, ih hsub h.2⟩
      | _ => exact ih hsub h

theorem announced_append {seen : List String} {records records' : List SummaryRecord}
    (h : Announced seen records) (h' : Announced seen records') :
    Announced seen (records ++ records') := by
  induction records generalizing seen with
  | nil => exact h'
  | cons record records ih =>
      cases record with
      | task summary => exact ih h (announced_mono (List.subset_cons_self _ _) h')
      | taskTransition transition => exact ⟨h.1, ih h.2 h'⟩
      | _ => exact ih h h'

theorem fromCursor_projectItem :
    FromCursor s (projectItem client codec toVec m s flowId item.2 index item.1).records := by
  refine ⟨?_, ?_, summaryTasks_projectItem ▸ attemptTasks_projectItem, ?_⟩
  · intro summary hmem
    obtain ⟨exchange, -, -, hrecords⟩ | ⟨reason, lostBytes, task, cursor, gap, -, -, hcursor, -,
      hrecords⟩ | ⟨-, hrecords | ⟨gap, hrecords⟩⟩ :=
        projectItem_cases client codec toVec m s flowId item index <;>
      rw [hrecords] at hmem
    · simp [exchangeRecords] at hmem
      rw [hmem, storedSequence_of_cursor]
      rfl
    · simp [carryOn] at hmem
      rw [hmem, storedSequence_of_cursor, TaskCursor.summary, hcursor]
      rfl
    · simp at hmem
    · simp at hmem
  · intro attempt hmem
    obtain ⟨exchange, -, -, hrecords⟩ | ⟨reason, lostBytes, task, cursor, gap, -, -, -, -,
      hrecords⟩ | ⟨-, hrecords | ⟨gap, hrecords⟩⟩ :=
        projectItem_cases client codec toVec m s flowId item index <;>
      rw [hrecords] at hmem
    · simp [exchangeRecords] at hmem
      rw [hmem, storedAttempts_of_cursor]
      rfl
    · simp [carryOn] at hmem
    · simp at hmem
    · simp at hmem
  · obtain ⟨exchange, -, -, hrecords⟩ | ⟨reason, lostBytes, task, cursor, gap, -, -, -, -,
      hrecords⟩ | ⟨-, hrecords | ⟨gap, hrecords⟩⟩ :=
        projectItem_cases client codec toVec m s flowId item index <;>
      rw [hrecords]
    · exact ⟨List.mem_cons_self, trivial⟩
    · exact ⟨List.mem_cons_self, trivial⟩
    · trivial
    · trivial

/-- What holds of each part of a batch holds of the batch. -/
theorem fromCursor_flatMap {α : Type} {l : List α} {f : α → List SummaryRecord}
    (h : ∀ a ∈ l, FromCursor s (f a)) : FromCursor s (l.flatMap f) := by
  refine ⟨?_, ?_, ?_, ?_⟩
  · intro summary hmem
    obtain ⟨a, ha, hmem⟩ := List.mem_flatMap.mp hmem
    exact (h a ha).sequence summary hmem
  · intro attempt hmem
    obtain ⟨a, ha, hmem⟩ := List.mem_flatMap.mp hmem
    exact (h a ha).ordinal attempt hmem
  · simp only [attemptTasks, summaryTasks, List.filterMap_flatMap, List.map_flatMap]
    exact List.Sublist.flatMap_right l fun a ha => (h a ha).attempts
  · induction l with
    | nil => trivial
    | cons a l ih =>
        rw [List.flatMap_cons]
        exact announced_append (h a List.mem_cons_self).announced
          (ih fun b hb => h b (List.mem_cons_of_mem a hb))

/-- The summaries of a segment are about the tasks that it carries on. -/
theorem summaryTasks_flatMap {items : List (FlowItem × Option TaskKey)} :
    summaryTasks ((items.zipIdx).flatMap fun x =>
        (projectItem client codec toVec m s flowId x.1.2 x.2 x.1.1).records) =
      items.filterMap (carries client s) := by
  have hitem : ∀ x : (FlowItem × Option TaskKey) × ℕ,
      summaryTasks (projectItem client codec toVec m s flowId x.1.2 x.2 x.1.1).records =
        (carries client s x.1).toList := fun x => summaryTasks_projectItem
  simp only [summaryTasks, List.filterMap_flatMap, List.map_flatMap] at hitem ⊢
  simp only [hitem]
  rw [← List.flatMap_map (f := Prod.fst) (g := fun item => (carries client s item).toList),
    List.zipIdx_map_fst, List.filterMap_eq_flatMap_toList]

/-- The batch of a segment is numbered exactly when the segment carries on no task twice. -/
theorem numbered_iff (wire : Wire κ σ) (client : ClientInstance) (codec : Codec)
    (toVec : List Json → Bytes) (m : Moment) (lane : Lane κ σ) (segment : TcpSegment)
    (processInstanceId : Option Uuid) (direction : Option ProcessFlowDirection)
    {batch : CaptureBatch}
    (h : (handleSegment wire client codec toVec m lane segment processInstanceId direction).1 =
      .batch batch) :
    Numbered codec lane.store batch.records ↔
      (segmentTasks wire client m lane segment processInstanceId direction).Nodup := by
  obtain ⟨-, hbatch⟩ := handleSegment_cases (Prod.mk.eta (p :=
    handleSegment wire client codec toVec m lane segment processInstanceId direction)).symm
  obtain ⟨flowId, hrecords⟩ := hbatch batch h
  have hcursor : FromCursor lane.store batch.records := by
    rw [hrecords]
    exact fromCursor_flatMap fun x _ => fromCursor_projectItem
  rw [hcursor.numbered_iff_nodup, hrecords, summaryTasks_flatMap, segmentTasks]

end Segment

/-- Byte one stands for an exchange of the turn `s:t:u`, another byte for one of `s:t:v`. -/
def eitherExchange (byte : UInt8) : DecodedExchange :=
  { turnExchange byte with
    attempt := decodeHttpExchange (.v7 byte.toNat)
      ⟨"s", "t", if byte = 1 then "u" else "v", "turn", none, none⟩ (.object []) true true
      (.stream [completedPayload "r"]) 1000 }

def eitherWire : Wire Unit Unit where
  flowKey _ := some ()
  start _ _ := ()
  push _ _ segment _ :=
    (segment.payload.map fun byte => .exchange (eitherExchange byte), .ready ())

/-- One segment completes a response of each turn: each summary has sequence one. -/
theorem numbered_twoTurns :
    segmentTasks eitherWire sampleClient (momentAt 1) emptyLane (serverSegment [1, 2]) none none =
        ["s:t:u", "s:t:v"] ∧
      ∃ batch, (handleSegment eitherWire sampleClient
        (.numbered []) (fun _ => []) (momentAt 1) emptyLane (serverSegment [1, 2]) none none).1 =
          .batch batch ∧ Numbered (.numbered []) emptyLane.store batch.records := by
  have htasks : segmentTasks eitherWire sampleClient (momentAt 1) emptyLane (serverSegment [1, 2])
      none none = ["s:t:u", "s:t:v"] := by decide +kernel
  refine ⟨htasks, _, rfl, (numbered_iff eitherWire sampleClient (.numbered []) (fun _ => [])
    (momentAt 1) emptyLane (serverSegment [1, 2]) none none rfl).mpr ?_⟩
  rw [htasks]
  decide

/-- Both responses in one segment: both summaries have sequence one. -/
theorem not_numbered_pipelined :
    ∃ batch, (handleSegment turnWire sampleClient
        (.numbered []) (fun _ => []) (momentAt 1) emptyLane (serverSegment [0, 1]) none none).1 =
          .batch batch ∧ ¬ Numbered (.numbered []) emptyLane.store batch.records := by
  refine ⟨_, rfl, fun h => ?_⟩
  have hsequences := h.sequences "s:t:u"
  revert hsequences
  decide +kernel

end Codexwatch.Client
