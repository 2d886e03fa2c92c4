import Mathlib.Data.List.Dedup
import Codexwatch.Client.Evidence
import Codexwatch.Client.Numbering
import Codexwatch.Protocol.Encoding

/-!
# Captured exchanges and the checks of the protocol

The texts of an exchange go into records whose fields are limited. `normalize_record`
cuts long messages; every other text, and every blank one, reaches the checks of the
protocol as it was captured, and one refused text rolls the whole transaction back. So do an
error and a status that do not go together, a clock that was set back, and token counts whose
sum is no `u64`.

## Main definitions

* `Persists` — the batch is in limits and is encoded, and the transaction commits.
* `TrafficFits` — the exchanges, titles and stored rows that pass the checks.
* `ClientFits`, `Room` — what is left: the envelope, and the room in the outbox.
* `persists_iff` — the transaction commits exactly under these.
-/
namespace Codexwatch.Client

open Protocol Capture Relational

/-! ## Errors -/

/-- A message that is within the limit after `truncate_message`. -/
def MessageFits (message : String) : Prop :=
  Text.isBlank message = false ∨ MAX_TRUNCATED < message.utf8ByteSize

/-- The texts beside the message. -/
structure LabelsFit (error : DecodedError) : Prop where
  wireType : OptTextWithin MAX_SHORT_TEXT_BYTES error.wireType
  code : OptTextWithin MAX_SHORT_TEXT_BYTES error.code
  param : OptTextWithin MAX_SHORT_TEXT_BYTES error.param

/-- A decoded error whose record is in limits: a reason stands alone, unless there is a status. -/
def ErrorFits (error : DecodedError) : Prop :=
  match error.httpStatus, error.reason with
  | some status, _ =>
      (100 ≤ status ∧ status ≤ 599) ∧ LabelsFit error ∧
        ∀ message, error.message = some message → MessageFits message
  | none, some reason => MessageFits reason
  | none, none => LabelsFit error ∧ ∀ message, error.message = some message → MessageFits message

/-- The texts of a decoded error have a length. -/
structure Sized (error : DecodedError) : Prop where
  message : ∀ message, error.message = some message → message.utf8ByteSize < 2 ^ 64
  reason : ∀ reason, error.reason = some reason → reason.utf8ByteSize < 2 ^ 64

section Errors
variable {codec : Codec} {errorId : Uuid} {taskRef : String} {attemptId : Option Uuid}
  {occurredAtMs : TimestampMs} {kind : Option TaskEventKind}

/-- A message that may be missing fits when its replacement does. -/
theorem textWithin_truncateMessage_getD {message : Option String} {replacement : String}
    (hsize : ∀ m, message = some m → m.utf8ByteSize < 2 ^ 64)
    (hreplacement : TextWithin MAX_ERROR_MESSAGE_BYTES (truncateMessage codec replacement)) :
    TextWithin MAX_ERROR_MESSAGE_BYTES (truncateMessage codec (message.getD replacement)) ↔
      ∀ m, message = some m → MessageFits m := by
  cases message with
  | none => simpa using hreplacement
  | some m => simp [textWithin_truncateMessage codec (hsize m rfl), MessageFits]

/-- A short text that is not blank is left as it is. -/
theorem textWithin_truncateMessage_of_short {message : String}
    (hblank : Text.isBlank message = false) (hshort : message.utf8ByteSize ≤ MAX_TRUNCATED) :
    TextWithin MAX_ERROR_MESSAGE_BYTES (truncateMessage codec message) := by
  rw [truncateMessage, if_pos hshort]
  exact ⟨hblank, hshort⟩

theorem textWithin_httpMessage {status : ℕ} (h : status ≤ 599) :
    TextWithin MAX_ERROR_MESSAGE_BYTES (truncateMessage codec s!"http {status}") := by
  have hdigits := Text.utf8ByteSize_repr_le (n := status) (by omega)
  have htext : (s!"http {status}" : String) = "http " ++ status.repr := rfl
  rw [htext]
  apply textWithin_truncateMessage_of_short
  · have hmem : 'h' ∈ ("http " ++ status.repr).toList := by simp
    exact Text.not_isBlank_of_mem hmem (by decide)
  · have hhttp : ("http " : String).utf8ByteSize = 5 := by decide
    have hmax : MAX_TRUNCATED = 32768 := rfl
    rw [String.utf8ByteSize_append, hhttp, hmax]
    omega

theorem optTextWithin_getD {max : ℕ} {value : Option String} {replacement : String}
    (h : TextWithin max replacement) :
    TextWithin max (value.getD replacement) ↔ OptTextWithin max value := by
  cases value <;> simp [h]

theorem inLimits_mapErrorRecord {error : DecodedError} (hsize : Sized error)
    (href : TextWithin MAX_ID_BYTES taskRef) :
    (mapErrorRecord errorId taskRef attemptId occurredAtMs
        (normalizeError codec (structuredErrorFromDecoded error)) kind).InLimits ↔
      ErrorFits error := by
  obtain ⟨wireType, code, message, param, reason, httpStatus⟩ := error
  rw [ErrorRecord.inLimits_iff]
  cases httpStatus with
  | some status =>
      have hwire : TextWithin MAX_SHORT_TEXT_BYTES "http_error" := by decide
      constructor
      · intro h
        rcases h with ⟨_, hmessage, hwireType, hcode, hparam, _, hstatus⟩
        have hrange := hstatus status rfl
        exact ⟨hrange, ⟨(optTextWithin_getD hwire).mp (optTextWithin_some.mp hwireType), hcode,
          hparam⟩, (textWithin_truncateMessage_getD hsize.message
            (textWithin_httpMessage hrange.2)).mp hmessage⟩
      · intro h
        rcases h with ⟨hrange, hlabels, hmessage⟩
        refine ⟨href, (textWithin_truncateMessage_getD hsize.message
            (textWithin_httpMessage hrange.2)).mpr hmessage,
          optTextWithin_some.mpr ((optTextWithin_getD hwire).mpr hlabels.wireType), hlabels.code,
          hlabels.param, optTextWithin_none, ?_⟩
        intro status' hstatus'
        cases hstatus'
        exact hrange
  | none =>
      cases reason with
      | some reason =>
          have hreason := textWithin_truncateMessage codec (hsize.reason reason rfl)
          simp [structuredErrorFromDecoded, normalizeError, mapErrorRecord, ErrorFits,
            MessageFits, href, hreason]
      | none =>
          have hwire : TextWithin MAX_SHORT_TEXT_BYTES "response.failed" := by decide
          have hunknown : TextWithin MAX_ERROR_MESSAGE_BYTES
              (truncateMessage codec "unknown error") :=
            textWithin_truncateMessage_of_short (by decide) (by decide)
          constructor
          · intro h
            rcases h with ⟨_, hmessage, hwireType, hcode, hparam, _, _⟩
            exact ⟨⟨(optTextWithin_getD hwire).mp (optTextWithin_some.mp hwireType), hcode, hparam⟩,
              (textWithin_truncateMessage_getD hsize.message hunknown).mp hmessage⟩
          · intro h
            rcases h with ⟨hlabels, hmessage⟩
            exact ⟨href, (textWithin_truncateMessage_getD hsize.message hunknown).mpr hmessage,
              optTextWithin_some.mpr ((optTextWithin_getD hwire).mpr hlabels.wireType),
              hlabels.code, hlabels.param, optTextWithin_none, fun status h => by cases h⟩

end Errors

/-! ## The error of an attempt -/

/-- The last error of a whole request fits. -/
def ErrorsFit (attempt : DecodedAttempt) : Prop :=
  attempt.requestComplete = true →
    ∀ error, lastError attempt.decodedEvents = some error → ErrorFits error

section Attempts
variable {attempt : DecodedAttempt}

theorem closing_eq_none_iff {events : List DecodedEvent} :
    closing events = none ↔ ∀ event ∈ events, eventStatus event = none := by
  simp [closing]

theorem lastError_of_closing_none {events : List DecodedEvent} (h : closing events = none) :
    lastError events = none := by
  rw [lastError, List.getLast?_eq_none_iff, List.filterMap_eq_nil_iff]
  intro event hmem
  have hstatus := closing_eq_none_iff.mp h event hmem
  cases event <;> simp_all [eventStatus, eventError]

/-- A closing event that carries an error carries the last one. -/
theorem lastError_of_closing {events : List DecodedEvent} {event : DecodedEvent}
    {error : DecodedError} (h : closing events = some event) (herror : eventError event = some error) :
    lastError events = some error := by
  induction events using List.reverseRecOn with
  | nil => simp [closing] at h
  | append_singleton events last ih =>
      rw [closing_append_singleton] at h
      rw [lastError_append_singleton]
      cases hstatus : eventStatus last with
      | some status =>
          simp only [hstatus, Option.isSome_some, if_true, Option.some.injEq] at h
          rw [h, herror, Option.some_or]
      | none =>
          have hnone : eventError last = none := by cases last <;> simp_all [eventStatus, eventError]
          simp only [hstatus, Option.isSome_none, Bool.false_eq_true, if_false] at h
          rw [hnone, Option.none_or, ih h]

/-- The error of a projection: a loss of the capture, or the last error decoded. -/
theorem error_projection_cases (attempt : DecodedAttempt) :
    (∃ sawTerminal, (mapAttemptProjection attempt).error =
        some (.captureLost ⟨lostReason sawTerminal, none⟩) ∧
      (attempt.requestComplete = true → lastError attempt.decodedEvents = none)) ∨
    (attempt.requestComplete = true ∧ (mapAttemptProjection attempt).error =
      (lastError attempt.decodedEvents).map structuredErrorFromDecoded) := by
  by_cases hlost : attempt.requestComplete = false ∨ closing attempt.decodedEvents = none
  · left
    obtain ⟨reason, hreason, hp⟩ := mapAttemptProjection_of_lost hlost
    have hlast : attempt.requestComplete = true → lastError attempt.decodedEvents = none := by
      intro hrequest
      apply lastError_of_closing_none
      simpa [hrequest] using hlost
    rw [hp]
    obtain rfl | rfl := hreason
    · exact ⟨true, rfl, hlast⟩
    · exact ⟨false, rfl, hlast⟩
  · right
    rw [not_or, Bool.not_eq_false] at hlost
    obtain ⟨hrequest, hclosing⟩ := hlost
    obtain ⟨event, hevent⟩ := Option.ne_none_iff_exists'.mp hclosing
    obtain ⟨attemptId, responseId, endTurn, usage, rfl⟩ | ⟨error, status, herror, hstatus⟩ :=
      closing_cases hevent
    · rw [mapAttemptProjection_of_completed hrequest hevent]
      exact ⟨hrequest, rfl⟩
    · rw [mapAttemptProjection_of_error hrequest hevent herror hstatus,
        lastError_of_closing hevent herror]
      exact ⟨hrequest, rfl⟩

/-- A projected attempt has ended. -/
theorem attemptStatus_ne_running (attempt : DecodedAttempt) :
    (mapAttemptProjection attempt).attemptStatus ≠ .running := by
  by_cases hlost : attempt.requestComplete = false ∨ closing attempt.decodedEvents = none
  · obtain ⟨reason, -, hp⟩ := mapAttemptProjection_of_lost hlost
    simp [hp]
  · rw [not_or, Bool.not_eq_false] at hlost
    obtain ⟨hrequest, hclosing⟩ := hlost
    obtain ⟨event, hevent⟩ := Option.ne_none_iff_exists'.mp hclosing
    obtain ⟨attemptId, responseId, endTurn, usage, rfl⟩ | ⟨error, status, herror, hstatus⟩ :=
      closing_cases hevent
    · simp [mapAttemptProjection_of_completed hrequest hevent]
    · rw [mapAttemptProjection_of_error hrequest hevent herror hstatus]
      cases event <;> simp_all [eventStatus, eventError] <;> simp [← hstatus]

/-- The records of the attempt's error are in limits exactly when its last error fits. -/
theorem inLimits_projection {codec : Codec} {taskRef : String}
    (hsize : ∀ event ∈ attempt.decodedEvents, ∀ error, eventError event = some error → Sized error)
    (href : TextWithin MAX_ID_BYTES taskRef) (errorId : Uuid) (attemptId : Option Uuid)
    (occurredAtMs : TimestampMs) (kind : Option TaskEventKind) :
    (∀ error, (mapAttemptProjection attempt).error.map (normalizeError codec) = some error →
        (mapErrorRecord errorId taskRef attemptId occurredAtMs error kind).InLimits) ↔
      ErrorsFit attempt := by
  obtain ⟨sawTerminal, herror, hlast⟩ | ⟨hrequest, herror⟩ := error_projection_cases attempt
  · have hreason : TextWithin MAX_ERROR_MESSAGE_BYTES
        (truncateMessage codec (lostReason sawTerminal)) := by
      apply textWithin_truncateMessage_of_short <;> cases sawTerminal <;> decide
    have hfit : ErrorsFit attempt := by
      intro hrequest error h
      rw [hlast hrequest] at h
      cases h
    refine iff_of_true ?_ hfit
    intro error h
    rw [herror, Option.map_some, Option.some.injEq] at h
    subst h
    rw [ErrorRecord.inLimits_iff]
    simp [normalizeError, mapErrorRecord, href, hreason]
  · rw [herror, ErrorsFit]
    cases hlast : lastError attempt.decodedEvents with
    | none => simp
    | some error =>
        have hmem := List.mem_of_getLast? hlast
        obtain ⟨event, hevent, heq⟩ := List.mem_filterMap.mp hmem
        simp [hrequest, inLimits_mapErrorRecord (hsize event hevent error heq) href]

end Attempts

/-! ## The tokens of an attempt -/

def eventUsage : DecodedEvent → Option UsageSummary
  | .attemptCompleted _ _ _ usage => some usage
  | _ => none

/-- The usage of the last completed response. -/
def lastUsage (events : List DecodedEvent) : Option UsageSummary :=
  (events.filterMap eventUsage).getLast?

def usageParts (usage : UsageSummary) : ℕ :=
  usage.inputTokens + usage.outputTokens + usage.reasoningTokens

theorem scan_usage (events : List DecodedEvent) :
    (scan events).usage = (lastUsage events).elim TokenUsage.none fun usage =>
      ⟨some usage.inputTokens, some usage.outputTokens, none, some usage.reasoningTokens,
        some usage.totalTokens⟩ := by
  induction events using List.reverseRecOn with
  | nil => rfl
  | append_singleton events event ih =>
      rw [scan_append_singleton]
      cases event <;> simp_all [Scan.step, Scan.fail, lastUsage, eventUsage]

theorem usage_projection (attempt : DecodedAttempt) :
    (mapAttemptProjection attempt).usage = (scan attempt.decodedEvents).usage := by
  simp only [mapAttemptProjection, apply_ite AttemptProjection.usage, ite_self]

/-- A completed response replaces all that was counted before. -/
theorem parts_mergeUsage (current : Option TokenUsage) (attempt : DecodedAttempt) :
    (mergeUsage current (mapAttemptProjection attempt).usage).parts =
      (lastUsage attempt.decodedEvents).elim ((current.map TokenUsage.parts).getD 0)
        usageParts := by
  rw [usage_projection, scan_usage]
  cases lastUsage attempt.decodedEvents with
  | none => cases current <;> simp [mergeUsage, TokenUsage.none, TokenUsage.parts]
  | some usage => rfl

theorem parts_projection (attempt : DecodedAttempt) :
    (mapAttemptProjection attempt).usage.parts =
      (lastUsage attempt.decodedEvents).elim 0 usageParts := by
  rw [usage_projection, scan_usage]
  cases lastUsage attempt.decodedEvents <;> rfl

/-! ## The row of the task -/

/-- The columns that name a task, beside its title. -/
def TaskRow.identity (row : TaskRow) : TaskKey × Option String := (row.task, row.conversationTitle)

theorem steady_identity : Steady TaskRow.identity where
  attempt _ _ := rfl
  session _ _ := rfl

section Row
variable {s : Store} {summary : TaskSummary}

theorem get?_upsertTaskSummary_of_lt
    (h : storedSequence s summary.task.taskRef < summary.sequence) :
    (upsertTaskSummary s summary).2.activeTasks.get? summary.task.taskRef =
      some ((s.activeTasks.get? summary.task.taskRef).elim (rowOfSummary summary)
        (TaskRow.withSummary summary)) := by
  have haccepted := accepted_of_lt h
  rw [applyRecord] at haccepted
  rw [upsertTaskSummary] at haccepted ⊢
  split
  · rename_i hsuperseded
    simp [hsuperseded] at haccepted
  · exact Table.get?_upsert_self ..

/-- A transition of the event that the row already shows changes nothing. -/
theorem upsertTransition_of_progress {transition : TaskTransition} (phase : TaskPhase)
    (outcome : Option TaskOutcome) (h : s.progress transition.task.taskRef =
      some (phase, outcome, transition.sequence, transition.eventId)) :
    upsertTransition s transition = s := by
  obtain ⟨row, hrow, hprogress⟩ := Option.map_eq_some_iff.mp h
  simp only [TaskRow.progress, Prod.mk.injEq] at hprogress
  rw [upsertTransition, if_pos]
  simp [hrow, TaskRow.supersedes, hprogress]

end Row

section Apply
variable {client : ClientInstance} {title : String → Option String} {codec : Codec} {t : Tick}
  {index : ℕ} {exchange : DecodedExchange} {s : Store}

/-- Three records that move no task: the session, the attempt and the exchange. -/
theorem get?_applyRecords_leading {α : Type} {column : TaskRow → α} (hcolumn : Steady column)
    (session : SessionSummary) (attempt : AttemptSummary) (http : HttpExchangeSummary)
    (taskRef : String) :
    ((applyRecords s [.session session, .attempt attempt, .httpExchange http]).2.activeTasks.get?
        taskRef).map column = (s.activeTasks.get? taskRef).map column := by
  have hnone : ∀ {s' : Store} {record : SummaryRecord}, record.advances = none →
      ((applyRecord s' record).2.activeTasks.get? taskRef).map column =
        (s'.activeTasks.get? taskRef).map column :=
    fun h => map_get?_applyRecord_of_ne hcolumn (by simp [h])
  simp only [applyRecords]
  rw [hnone rfl, hnone rfl, hnone rfl]

/-- A summary that counts on, and its own transition. -/
theorem applyRecords_step {session : SessionSummary} (attempt : AttemptSummary)
    (http : HttpExchangeSummary) {summary : TaskSummary} {transition : TaskTransition}
    (hsession : session.task = summary.task) (htask : transition.task = summary.task)
    (hsequence : transition.sequence = summary.sequence)
    (hevent : transition.eventId = summary.lastEventId)
    (hnext : storedSequence s summary.task.taskRef < summary.sequence) :
    (applyRecords s [.session session, .attempt attempt, .httpExchange http, .task summary,
        .taskTransition transition]).1 =
      (if (s.activeTasks.get? summary.task.taskRef).isSome then [.session session] else []) ++
        [.attempt attempt, .httpExchange http, .task summary, .taskTransition transition] ∧
    (applyRecords s [.session session, .attempt attempt, .httpExchange http, .task summary,
        .taskTransition transition]).2.activeTasks.get? summary.task.taskRef =
      some (((applyRecords s [.session session, .attempt attempt,
          .httpExchange http]).2.activeTasks.get? summary.task.taskRef).elim
        (rowOfSummary summary) (TaskRow.withSummary summary)) := by
  have hleading := get?_applyRecords_leading (s := s) steady_progress session attempt http
    summary.task.taskRef
  have happend : applyRecords s [.session session, .attempt attempt, .httpExchange http,
      .task summary, .taskTransition transition] = applyRecords s
        ([.session session, .attempt attempt, .httpExchange http] ++
          [.task summary, .taskTransition transition]) := rfl
  generalize hmiddle : (applyRecords s [.session session, .attempt attempt, .httpExchange http]).2 =
    middle at hleading ⊢
  have hnext' : storedSequence middle summary.task.taskRef < summary.sequence := by
    rw [storedSequence_eq_progress, Store.progress, hleading, ← Store.progress,
      ← storedSequence_eq_progress]
    exact hnext
  have hrow := get?_upsertTaskSummary_of_lt hnext'
  have hskip : upsertTransition (upsertTaskSummary middle summary).2 transition =
      (upsertTaskSummary middle summary).2 := by
    apply upsertTransition_of_progress summary.phase summary.outcome
    rw [Store.progress, htask, hrow, Option.map_some, hsequence, hevent]
    cases middle.activeTasks.get? summary.task.taskRef <;> rfl
  have haccepted := accepted_of_lt hnext'
  constructor
  · simp only [applyRecords, applyRecord] at hmiddle haccepted ⊢
    rw [hmiddle, haccepted]
    simp only [mergeSession, hsession, if_true]
    split <;> rfl
  · rw [happend, applyRecords_append, hmiddle, ← hrow]
    simp only [applyRecords, applyRecord, hskip]

section Applied
variable (client title codec t index exchange s)

/-- The summary of an exchange, from the cursor of its task. -/
def exchangeSummary : TaskSummary :=
  taskSummaryOf title t index exchange (exchangeTask client exchange)
    (loadTaskCursor s (exchangeTask client exchange))

/-- The error of the records of an exchange, as they are applied. -/
def appliedError : Option StructuredError :=
  (mapAttemptProjection exchange.attempt).error.map (normalizeError codec)

def appliedSummary : TaskSummary :=
  { exchangeSummary client title t index exchange s with lastError := appliedError codec exchange }

def appliedAttempt : AttemptSummary :=
  { attemptSummaryOf t exchange (exchangeSummary client title t index exchange s) with
    error := appliedError codec exchange }

def appliedTransition : TaskTransition :=
  { taskTransitionOf exchange (exchangeSummary client title t index exchange s) with
    error := appliedError codec exchange }

/-- The row of the task after the exchange: what the summary says, but for the names of a row that
was there, its title where there is no other, and what sessions set. -/
def exchangeRow (parent root : Option String) (firstSeen : Option ℤ) : TaskRow :=
  { rowOfSummary (appliedSummary client title codec t index exchange s) with
    task := ((s.activeTasks.get? (exchangeTask client exchange).taskRef).map TaskRow.task).getD
      (exchangeTask client exchange)
    conversationTitle := (title exchange.attempt.identity.sessionId).or
      ((s.activeTasks.get? (exchangeTask client exchange).taskRef).bind TaskRow.conversationTitle)
    parentTurnId := parent
    rootTurnId := root
    firstSeenAt := firstSeen }

end Applied

theorem storedSequence_lt_appliedSummary :
    storedSequence s (appliedSummary client title codec t index exchange s).task.taskRef <
      (appliedSummary client title codec t index exchange s).sequence := by
  have hnext := @storedSequence_of_cursor s (exchangeTask client exchange)
  simp only [appliedSummary, exchangeSummary, taskSummaryOf]
  omega

theorem normalizedRecords_eq :
    normalizedRecords client title t index exchange codec
        (loadTaskCursor s (exchangeTask client exchange)) =
      [.session (sessionSummaryOf exchange (exchangeSummary client title t index exchange s)),
        .attempt (appliedAttempt client title codec t index exchange s),
        .httpExchange (httpExchangeOf t index exchange codec (exchangeTask client exchange)),
        .task (appliedSummary client title codec t index exchange s),
        .taskTransition (appliedTransition client title codec t index exchange s)] := rfl

theorem exists_row_of_summary (session : SessionSummary) (attempt : AttemptSummary)
    (http : HttpExchangeSummary) :
    ∃ parent root firstSeen, ((applyRecords s [.session session, .attempt attempt,
          .httpExchange http]).2.activeTasks.get? (exchangeTask client exchange).taskRef).elim
        (rowOfSummary (appliedSummary client title codec t index exchange s))
        (TaskRow.withSummary (appliedSummary client title codec t index exchange s)) =
      exchangeRow client title codec t index exchange s parent root firstSeen := by
  have hleading := get?_applyRecords_leading (s := s) steady_identity session attempt http
    (exchangeTask client exchange).taskRef
  generalize (applyRecords s [.session session, .attempt attempt, .httpExchange http]).2 =
    middle at hleading ⊢
  simp only [exchangeRow, appliedSummary, exchangeSummary, loadTaskCursor]
  cases hstored : s.activeTasks.get? (exchangeTask client exchange).taskRef with
  | none =>
      rw [hstored, Option.map_none, Option.map_eq_none_iff] at hleading
      rw [hleading]
      exact ⟨_, _, _, rfl⟩
  | some old =>
      rw [hstored, Option.map_some, Option.map_eq_some_iff] at hleading
      obtain ⟨row, hrow, hidentity⟩ := hleading
      obtain ⟨htask, htitle⟩ := Prod.mk.inj hidentity
      rw [hrow]
      refine ⟨row.parentTurnId, row.rootTurnId, row.firstSeenAt, ?_⟩
      simp only [Option.elim_some, TaskRow.withSummary, taskSummaryOf, Option.map_some,
        Option.bind_some, Option.getD_some, htask, htitle, TaskRow.cursor, Option.or_assoc,
        Option.or_self]
      rfl

end Apply

/-! ## The batch -/

theorem mem_of_mem_dedupeErrors {errors : List ErrorRecord} {error : ErrorRecord}
    (h : error ∈ dedupeErrors errors) : error ∈ errors := by
  have hfold : ∀ (l kept : List ErrorRecord), error ∈ l.foldl (fun kept error =>
      if error.errorId ∈ kept.map ErrorRecord.errorId then kept else kept ++ [error]) kept →
      error ∈ kept ∨ error ∈ l := by
    intro l
    induction l with
    | nil => simp
    | cons first l ih =>
        intro kept hmem
        obtain hkept | hrest := ih _ hmem
        · dsimp only at hkept
          split at hkept
          · exact .inl hkept
          · rw [List.mem_append, List.mem_singleton] at hkept
            obtain hkept | rfl := hkept
            · exact .inl hkept
            · exact .inr List.mem_cons_self
        · exact .inr (List.mem_cons_of_mem first hrest)
  obtain hnil | hmem := hfold errors [] h
  · cases hnil
  · exact hmem

theorem nodup_dedupeErrors (errors : List ErrorRecord) :
    ((dedupeErrors errors).map ErrorRecord.errorId).Nodup := by
  rw [dedupeErrors]
  induction errors using List.reverseRecOn with
  | nil => exact List.nodup_nil
  | append_singleton errors error ih =>
      rw [List.foldl_append, List.foldl_cons, List.foldl_nil]
      split
      · exact ih
      · rename_i hnew
        rw [List.map_append]
        exact List.nodup_append.mpr ⟨ih, List.nodup_singleton _, by
          intro id hid other hother heq
          obtain rfl := List.mem_singleton.mp hother
          exact hnew (heq ▸ hid)⟩

/-- The texts that name a task are in limits. -/
structure KeyFits (task : TaskKey) : Prop where
  provider : TextWithin 64 task.provider
  sessionId : TextWithin MAX_ID_BYTES task.sessionId
  threadId : TextWithin MAX_ID_BYTES task.threadId
  turnId : TextWithin MAX_ID_BYTES task.turnId

section Upload
variable {client : ClientInstance} {t : Tick} {w : Store} {row : TaskRow} {taskRef : String}
  {attempt : AttemptSummary} {http : HttpExchangeSummary} {summary : TaskSummary}
  {transition : TaskTransition}

theorem uploadTasks_of_forall {records : List SummaryRecord}
    (hne : records.filterMap SummaryRecord.uploadTask ≠ [])
    (h : ∀ r ∈ records.filterMap SummaryRecord.uploadTask, r = taskRef) :
    uploadTasks records = [taskRef] := by
  rw [uploadTasks, List.eq_replicate_of_mem h,
    List.replicate_dedup (by simpa using hne)]
  rfl

/-- The batch of an exchange has one upload, with one attempt and one event. -/
theorem tasks_buildWireBatch {sessions : List SummaryRecord}
    (hsessions : sessions = [] ∨
      ∃ session, sessions = [.session session] ∧ session.task.taskRef = taskRef)
    (hattempt : attempt.task.taskRef = taskRef) (hsummary : summary.task.taskRef = taskRef)
    (htransition : transition.task.taskRef = taskRef)
    (hrow : w.activeTasks.get? taskRef = some row) :
    uploadTasks (sessions ++ [.attempt attempt, .httpExchange http, .task summary,
        .taskTransition transition]) = [taskRef] ∧
    (buildWireBatch client t w 0 (sessions ++
        [.attempt attempt, .httpExchange http, .task summary, .taskTransition transition])).heartbeats
          = [] ∧
    ∃ first second : Draw, (buildWireBatch client t w 0 (sessions ++
        [.attempt attempt, .httpExchange http, .task summary, .taskTransition transition])).tasks =
      [⟨row.snapshot (t.ids (.snapshot 0 taskRef)) taskRef,
        [buildAttemptRecord (t.ids first) w.contents attempt],
        [mapTransitionEvent (t.ids second) transition],
        dedupeErrors ((buildAttemptRecord (t.ids first) w.contents attempt).error.toList ++
          (mapTransitionEvent (t.ids second) transition).error.toList), []⟩] := by
  obtain rfl | ⟨session, rfl, hsession⟩ := hsessions
  · have htasks : uploadTasks ([] ++ [.attempt attempt, .httpExchange http, .task summary,
        .taskTransition transition]) = [taskRef] := by
      apply uploadTasks_of_forall <;>
        simp [List.filterMap_cons, SummaryRecord.uploadTask, hattempt, hsummary, htransition]
    refine ⟨htasks, by simp [buildWireBatch], .record 0 0, .record 0 3, ?_⟩
    rw [buildWireBatch, htasks]
    simp [SummaryRecord.uploadTask, buildUpload, loadSnapshot, hrow, accumulatorOf, accumulate,
      hattempt, hsummary, htransition]
  · have htasks : uploadTasks ([.session session] ++ [.attempt attempt, .httpExchange http,
        .task summary, .taskTransition transition]) = [taskRef] := by
      apply uploadTasks_of_forall <;>
        simp [List.filterMap_cons, SummaryRecord.uploadTask, hattempt, hsummary, htransition,
          hsession]
    refine ⟨htasks, by simp [buildWireBatch], .record 0 1, .record 0 4, ?_⟩
    rw [buildWireBatch, htasks]
    simp [SummaryRecord.uploadTask, buildUpload, loadSnapshot, hrow, accumulatorOf, accumulate,
      hattempt, hsummary, htransition, hsession]

/-- One upload is in limits exactly when its names, its title and its error are. -/
theorem inLimits_upload_iff {c : Contents} {id errorId₁ errorId₂ : Uuid}
    {error : Option StructuredError} {p : Prop} (hattempt : attempt.task.taskRef = taskRef)
    (htransition : transition.task.taskRef = taskRef) (hordinal : attempt.ordinal ≠ 0)
    (hsequence : transition.sequence ≠ 0) (hrowError : row.lastError = error)
    (hattemptError : attempt.error = error) (htransitionError : transition.error = error)
    (herror : TextWithin MAX_ID_BYTES taskRef → ∀ errorId attemptId occurredAtMs kind,
      (∀ e, error = some e →
        (mapErrorRecord errorId taskRef attemptId occurredAtMs e kind).InLimits) ↔ p) :
    (TaskUpload.mk (row.snapshot id taskRef) [buildAttemptRecord errorId₁ c attempt]
        [mapTransitionEvent errorId₂ transition]
        (dedupeErrors ((buildAttemptRecord errorId₁ c attempt).error.toList ++
          (mapTransitionEvent errorId₂ transition).error.toList)) []).InLimits ↔
      TextWithin MAX_ID_BYTES taskRef ∧ KeyFits row.task ∧
        OptTextWithin 512 row.conversationTitle ∧ p := by
  constructor
  · rintro ⟨⟨href, hprovider, hsession, hthread, hturn, htitle, hlast⟩, _, _, _, _⟩
    refine ⟨href, ⟨hprovider, hsession, hthread, hturn⟩, htitle,
      (herror href id none row.updatedAt none).mp ?_⟩
    intro e he
    apply hlast
    simp [TaskRow.snapshot, hrowError, he]
  · rintro ⟨href, hkey, htitle, hp⟩
    have hmapped : ∀ errorId attemptId occurredAtMs kind record,
        error.map (fun e => mapErrorRecord errorId taskRef attemptId occurredAtMs e kind) =
          some record → record.InLimits := by
      intro errorId attemptId occurredAtMs kind record h
      obtain ⟨e, he, rfl⟩ := Option.map_eq_some_iff.mp h
      exact (herror href errorId attemptId occurredAtMs kind).mpr hp e he
    have hbuilt : ∀ e, (buildAttemptRecord errorId₁ c attempt).error = some e → e.InLimits := by
      intro e he
      rw [buildAttemptRecord, hattempt, hattemptError] at he
      exact hmapped _ _ _ _ e he
    have hevent : ∀ e, (mapTransitionEvent errorId₂ transition).error = some e → e.InLimits := by
      intro e he
      simp only [mapTransitionEvent, htransition, htransitionError] at he
      exact hmapped _ _ _ _ e he
    refine ⟨⟨href, hkey.provider, hkey.sessionId, hkey.threadId, hkey.turnId, htitle, ?_⟩,
      ?_, ?_, ?_, ?_⟩
    · intro e he
      simp only [TaskRow.snapshot, hrowError] at he
      exact hmapped _ _ _ _ e he
    · intro a ha
      obtain rfl := List.mem_singleton.mp ha
      have htransport : TextWithin 64 RESPONSES_TRANSPORT := by decide
      have href : (buildAttemptRecord errorId₁ c attempt).taskRef = taskRef := hattempt
      exact ⟨by rwa [href], htransport, hordinal, hbuilt⟩
    · intro event hmem
      obtain rfl := List.mem_singleton.mp hmem
      have href : (mapTransitionEvent errorId₂ transition).taskRef = taskRef := htransition
      exact ⟨by rwa [href], hsequence, hevent⟩
    · intro e he
      have hmem := mem_of_mem_dedupeErrors he
      rw [List.mem_append, Option.mem_toList, Option.mem_toList] at hmem
      exact hmem.elim (hbuilt e) (hevent e)
    · intro g hg
      cases hg

end Upload

/-! ## Persisting an exchange -/

theorem storeContents_isStored_iff {codec : Codec} {c : Contents}
    {inputs : List StoredContentInput} :
    (storeContents codec c inputs).1 = true ↔
      ∀ input ∈ inputs, Text.isBlank input.mediaType = false := by
  induction inputs generalizing c with
  | nil => simp [storeContents]
  | cons input inputs ih =>
      rw [storeContents, List.forall_mem_cons]
      cases hblank : Text.isBlank input.mediaType with
      | true => simp [persistContent, BlobStore.store, hblank]
      | false => simp [persistContent, BlobStore.store, hblank, ih]

/-- The batch of the records of a capture, at most 128. -/
def ingressBatch (client : ClientInstance) (codec : Codec) (t : Tick) (s : Store)
    (capture : CaptureBatch) : IngestBatch :=
  buildWireBatch client t (writtenStore codec s capture.records capture.contents) 0
    (applyRecords s (capture.records.map (normalizeRecord codec))).1

/-- The additions of `map_usage` do not overflow while the batch of the records is built. -/
structure AddsUp (s : Store) (records : List SummaryRecord) : Prop where
  attempt : ∀ attempt, .attempt attempt ∈ records → (mapUsageChecked attempt.usage).isSome = true
  snapshot : ∀ taskRef ∈ uploadTasks records, ∀ row, s.activeTasks.get? taskRef = some row →
    (mapUsageChecked row.usage).isSome = true

/-- The texts and numbers of the batch are in limits, the batch is encoded, and the transaction
commits. -/
structure Persists (client : ClientInstance) (codec : Codec) (t : Tick) (s : Store)
    (capture : CaptureBatch) : Prop where
  adds : AddsUp (writtenStore codec s capture.records capture.contents)
    (applyRecords s (capture.records.map (normalizeRecord codec))).1
  limits : (ingressBatch client codec t s capture).InLimits
  encodes : capture.records ≠ [] →
    ∃ encoded, codec.encodeBatch (ingressBatch client codec t s capture) = .ok encoded
  commits : (persistIngress client codec t s capture.records capture.contents).1.isSome = true

/-- There is room for the batch: it has 2 MiB at most, the outbox takes its frame, and its id is
not taken. -/
structure Room (codec : Codec) (o : Outbox) (batch : IngestBatch) (priority : Bool) : Prop where
  payload : (codec.intoWriter batch).length ≤ MAX_DECOMPRESSED_BATCH_BYTES
  capacity : ensureOutboxCapacity o (codec.encodingOf batch).bytes.length priority = true
  batchId : o.outbox.get? batch.batchId = none

section Persists
variable {client : ClientInstance} {codec : Codec} {t : Tick} {s : Store}

theorem isSome_mapUsageChecked {usage : TokenUsage} :
    (mapUsageChecked usage).isSome = true ↔ usage.parts < 2 ^ 64 := by
  rw [mapUsageChecked_eq]
  split
  · rename_i hparts
    exact iff_of_true rfl hparts
  · rename_i hparts
    exact iff_of_false (by simp) hparts

theorem length_accepted_le {records : List SummaryRecord} :
    (applyRecords s records).1.length ≤ records.length := by
  induction records generalizing s with
  | nil => rfl
  | cons record records ih =>
      have hrest := ih (s := (applyRecord s record).2)
      rw [applyRecords]
      split <;> simp <;> omega

theorem isSome_insertOutbox {o : Outbox} {encoded : EncodedBatch} {recordCount : ℕ}
    {priority : Bool} {nowMs : ℤ} :
    (insertOutbox o encoded recordCount priority nowMs).isSome = true ↔
      o.outbox.get? encoded.batchId = none := by
  rw [insertOutbox, Option.isSome_map, Option.isSome_iff_exists]
  constructor
  · rintro ⟨table, htable⟩
    exact (Table.insertNew_eq_some.mp htable).1
  · intro h
    exact ⟨_, Table.insertNew_of_none h⟩

/-- Few records are one chunk, whose batch is checked and has to find room. -/
theorem isSome_enqueueRecords_iff {records : List SummaryRecord} (hlen : records.length ≤ 128)
    (htasks : (buildWireBatch client t s 0 records).tasks ≠ []) :
    (enqueueRecords client codec t s records).isSome = true ↔
      (buildWireBatch client t s 0 records).Valid ∧
        Room codec s.outbox (buildWireBatch client t s 0 records)
          (records.any isPriorityRecord) := by
  have hne : records ≠ [] := by
    rintro rfl
    exact htasks rfl
  have hbatch : ¬ ((buildWireBatch client t s 0 records).tasks = [] ∧
      (buildWireBatch client t s 0 records).heartbeats = []) := fun h => htasks h.1
  rw [enqueueRecords, splitRecords, Chunks.chunks_of_length_le hne hlen]
  simp only [List.zipIdx_singleton, List.foldlM_cons, List.foldlM_nil, enqueueChunk, if_neg hbatch]
  cases hencode : codec.encodeBatch (buildWireBatch client t s 0 records) with
  | error e =>
      refine iff_of_false (by simp) ?_
      rintro ⟨hvalid, hroom⟩
      rw [Codec.encodeBatch_eq_ok_iff.mpr ⟨hvalid, hroom.payload, rfl⟩] at hencode
      cases hencode
  | ok encoded =>
      obtain ⟨hvalid, hpayload, rfl⟩ := Codec.encodeBatch_eq_ok_iff.mp hencode
      dsimp only
      split
      · rename_i hcapacity
        simp only [bind_pure, Option.isSome_map, isSome_insertOutbox]
        exact ⟨fun hfree => ⟨hvalid, hpayload, hcapacity, hfree⟩, fun h => h.2.batchId⟩
      · rename_i hcapacity
        exact iff_of_false (by simp) fun h => hcapacity h.2.capacity

/-- The transaction commits when the contents are stored and the batches enqueued. -/
theorem committed_iff (records : List SummaryRecord) (contents : List StoredContentInput) :
    (persistIngress client codec t s records contents).1.isSome = true ↔
      (storeContents codec (applyRecords s (records.map (normalizeRecord codec))).2.contents
        contents).1 = true ∧
      (enqueueRecords client codec t (writtenStore codec s records contents)
        (applyRecords s (records.map (normalizeRecord codec))).1).isSome = true := by
  simp only [persistIngress, writtenStore]
  split
  · rename_i hstored
    rw [hstored]
    split <;> simp [*]
  · simp [*]

end Persists

/-! ## The traffic that fits -/

/-- A decoded exchange: its provider, the id drawn for its attempt, identifiers within the limit,
and texts of machine size. -/
structure Captured (exchange : DecodedExchange) : Prop where
  attemptId : isUuidV7 exchange.attempt.attemptId = true
  provider : exchange.attempt.identity.provider = "codex"
  sessionId : TextWithin MAX_ID_BYTES exchange.attempt.identity.sessionId
  threadId : TextWithin MAX_ID_BYTES exchange.attempt.identity.threadId
  turnId : TextWithin MAX_ID_BYTES exchange.attempt.identity.turnId
  sized : ∀ event ∈ exchange.attempt.decodedEvents, ∀ error, eventError event = some error →
    Sized error

/-- The envelope of every batch of the client. -/
structure ClientFits (client : ClientInstance) : Prop where
  instanceId : isUuidV7 client.instanceId = true
  clientId : TextWithin MAX_ID_BYTES client.clientId
  hostname : TextWithin MAX_SHORT_TEXT_BYTES client.hostname
  platform : TextWithin MAX_SHORT_TEXT_BYTES client.platform
  codexVersion : TextWithin MAX_SHORT_TEXT_BYTES client.codexVersion

/-- The texts of an exchange, of its session's title and of its task's row that fit; an error that
goes with its status, times in order, and tokens that can be added. -/
structure TrafficFits (client : ClientInstance) (title : String → Option String) (t : Tick)
    (s : Store) (exchange : DecodedExchange) : Prop where
  taskRef : (exchangeTask client exchange).taskRef.utf8ByteSize ≤ MAX_ID_BYTES
  title : OptTextWithin 512 ((title exchange.attempt.identity.sessionId).or
    ((s.activeTasks.get? (exchangeTask client exchange).taskRef).bind TaskRow.conversationTitle))
  error : ErrorsFit exchange.attempt
  requestType : Text.isBlank (contentType exchange.requestHeaders "application/json") = false
  responseType : Text.isBlank (contentType exchange.responseHeaders "text/event-stream") = false
  stored : ∀ row, s.activeTasks.get? (exchangeTask client exchange).taskRef = some row →
    KeyFits row.task
  evidence : evidenceFits exchange.attempt = true
  keyed : ∀ row, s.activeTasks.get? (exchangeTask client exchange).taskRef = some row →
    row.task.taskRef = (exchangeTask client exchange).taskRef
  clock : ts (fromMs exchange.attempt.requestAtMs) ≤ t.nowMs
  started : ∀ row, s.activeTasks.get? (exchangeTask client exchange).taskRef = some row →
    ts (fromMs row.startedAt) ≤ t.nowMs
  usage : ∀ usage, lastUsage exchange.attempt.decodedEvents = some usage → usageParts usage < 2 ^ 64
  counted : lastUsage exchange.attempt.decodedEvents = none →
    ∀ row, s.activeTasks.get? (exchangeTask client exchange).taskRef = some row →
      row.usage.parts < 2 ^ 64

/-- The objects of the store are named by digests. -/
def Hashed (c : Contents) : Prop :=
  ∀ digest, (c.rawObjects.get? digest).isSome → Text.isHexDigest digest = true

theorem hashed_empty : Hashed Store.empty.contents := by
  intro digest h
  cases h

theorem Hashed.storeContents {codec : Codec} {c : Contents} (h : Hashed c)
    (inputs : List StoredContentInput) : Hashed (storeContents codec c inputs).2 := by
  induction inputs generalizing c with
  | nil => exact h
  | cons input inputs ih =>
      rw [Client.storeContents]
      cases hpersist : persistContent codec c input with
      | none => exact h
      | some persisted =>
          obtain ⟨stored, c'⟩ := persisted
          obtain ⟨-, hstored, rfl⟩ := persistContent_eq_some.mp hpersist
          refine ih ?_
          intro digest hdigest
          rw [Table.get?_replace] at hdigest
          split at hdigest
          · rename_i heq
            rw [heq, ← hstored]
            exact Text.isHexDigest_hexEncode (Vector.length_toList ..)
          · exact h digest hdigest

theorem Hashed.writtenStore {codec : Codec} {s : Store} (h : Hashed s.contents)
    (records : List SummaryRecord) (contents : List StoredContentInput) :
    Hashed (writtenStore codec s records contents).contents := by
  have hcontents : (applyRecords s (records.map (normalizeRecord codec))).2.contents =
      s.contents := contents_applyRecords ..
  rw [Client.writtenStore, hcontents]
  exact h.storeContents contents

theorem Hashed.newestObject {c : Contents} (h : Hashed c) {taskRef : String} {part : ContentPart}
    {digest : String} (hnewest : (newestObject c taskRef part).map Prod.fst = some digest) :
    Text.isHexDigest digest = true := by
  obtain ⟨r, hr, rfl⟩ := Option.map_eq_some_iff.mp hnewest
  have hmem := List.mem_of_mem_filter (List.argmax_mem hr)
  rw [← Table.get?_eq_some] at hmem
  exact h r.1 (by rw [hmem]; rfl)

section Traffic
variable (client : ClientInstance) (title : String → Option String) (codec : Codec) (t : Tick)
  (index : ℕ) (exchange : DecodedExchange) (toVec : List Json → Bytes) (s : Store)

/-- The upload of the exchange, with the draws for its errors. -/
def exchangeUpload (c : Contents) (row : TaskRow) (first second : Draw) : TaskUpload :=
  let taskRef := (exchangeTask client exchange).taskRef
  let attempt := buildAttemptRecord (t.ids first) c
    (appliedAttempt client title codec t index exchange s)
  let event := mapTransitionEvent (t.ids second)
    (appliedTransition client title codec t index exchange s)
  ⟨row.snapshot (t.ids (.snapshot 0 taskRef)) taskRef, [attempt], [event],
    dedupeErrors (attempt.error.toList ++ event.error.toList), []⟩

/-- What the transaction makes of the records and contents of an exchange: the records it accepts,
the row it leaves, and the batch. -/
structure Built (capture : CaptureBatch) (row : TaskRow) (first second : Draw) : Prop where
  shows : ∃ parent root firstSeen,
    row = exchangeRow client title codec t index exchange s parent root firstSeen
  attempt : ∀ attempt,
    .attempt attempt ∈ (applyRecords s (capture.records.map (normalizeRecord codec))).1 ↔
      attempt = appliedAttempt client title codec t index exchange s
  tasks : uploadTasks (applyRecords s (capture.records.map (normalizeRecord codec))).1 =
    [(exchangeTask client exchange).taskRef]
  stored : (writtenStore codec s capture.records capture.contents).activeTasks.get?
    (exchangeTask client exchange).taskRef = some row
  heartbeats : (ingressBatch client codec t s capture).heartbeats = []
  uploads : (ingressBatch client codec t s capture).tasks =
    [exchangeUpload client title codec t index exchange s
      (writtenStore codec s capture.records capture.contents).contents row first second]

variable {client title codec t index exchange toVec s}

theorem mediaTypes_exchangeContents {now : OffsetDateTime} {task : TaskKey} :
    (∀ input ∈ exchangeContents toVec now task exchange,
        Text.isBlank input.mediaType = false) ↔
      Text.isBlank (contentType exchange.requestHeaders "application/json") = false ∧
        Text.isBlank (contentType exchange.responseHeaders "text/event-stream") = false := by
  have hjson : Text.isBlank "application/json" = false := by decide
  have hplain : Text.isBlank "text/plain" = false := by decide
  simp only [exchangeContents, List.forall_mem_append, List.forall_mem_cons]
  constructor
  · rintro ⟨⟨⟨⟨hrequest, hresponse, _⟩, _⟩, _⟩, _⟩
    exact ⟨hrequest, hresponse⟩
  · rintro ⟨hrequest, hresponse⟩
    refine ⟨⟨⟨⟨hrequest, hresponse, by simp⟩, ?_⟩, ?_⟩, ?_⟩ <;> intro input hmem <;>
      simp only [Option.mem_toList, Option.map_eq_some_iff] at hmem <;>
      obtain ⟨body, -, rfl⟩ := hmem <;> assumption

theorem keyFits_getD (hcaptured : Captured exchange) {row : Option TaskRow} :
    KeyFits ((row.map TaskRow.task).getD (exchangeTask client exchange)) ↔
      ∀ r, row = some r → KeyFits r.task := by
  cases row with
  | none =>
      have hprovider : TextWithin 64 exchange.attempt.identity.provider := by
        rw [hcaptured.provider]
        decide
      have hfits : KeyFits (exchangeTask client exchange) :=
        ⟨hprovider, hcaptured.sessionId, hcaptured.threadId, hcaptured.turnId⟩
      simpa using hfits
  | some r => simp

/-- The colons of a task reference are not blank. -/
theorem textWithin_taskRef {task : TaskKey} :
    TextWithin MAX_ID_BYTES task.taskRef ↔ task.taskRef.utf8ByteSize ≤ MAX_ID_BYTES := by
  have hmem : ':' ∈ task.taskRef.toList := by simp [TaskKey.taskRef]
  have hblank : Text.isBlank task.taskRef = false := Text.not_isBlank_of_mem hmem (by decide)
  simp [TextWithin, hblank]

theorem exists_built {capture : CaptureBatch}
    (hrecords : capture.records = exchangeRecords client title t index exchange codec
      (loadTaskCursor s (exchangeTask client exchange))) :
    ∃ row first second,
      Built client title codec t index exchange s capture row first second := by
  have hnormalized : capture.records.map (normalizeRecord codec) = _ :=
    (congrArg _ hrecords).trans (normalizedRecords_eq (s := s))
  obtain ⟨haccepted, hrow⟩ := applyRecords_step
    (appliedAttempt client title codec t index exchange s)
    (httpExchangeOf t index exchange codec (exchangeTask client exchange))
    (show (sessionSummaryOf exchange (exchangeSummary client title t index exchange s)).task =
      (appliedSummary client title codec t index exchange s).task from rfl)
    (show (appliedTransition client title codec t index exchange s).task =
      (appliedSummary client title codec t index exchange s).task from rfl)
    rfl rfl storedSequence_lt_appliedSummary
  rw [← hnormalized] at haccepted hrow
  obtain ⟨parent, root, firstSeen, helim⟩ := @exists_row_of_summary client title codec t index
    exchange s (sessionSummaryOf exchange (exchangeSummary client title t index exchange s))
    (appliedAttempt client title codec t index exchange s)
    (httpExchangeOf t index exchange codec (exchangeTask client exchange))
  have htask : (appliedSummary client title codec t index exchange s).task =
      exchangeTask client exchange := rfl
  rw [htask, helim] at hrow
  rw [htask] at haccepted
  have hsessions : (if (s.activeTasks.get? (exchangeTask client exchange).taskRef).isSome
      then [SummaryRecord.session
        (sessionSummaryOf exchange (exchangeSummary client title t index exchange s))] else []) =
        [] ∨
      ∃ other, (if (s.activeTasks.get? (exchangeTask client exchange).taskRef).isSome
        then [SummaryRecord.session
          (sessionSummaryOf exchange (exchangeSummary client title t index exchange s))] else []) =
          [.session other] ∧
        other.task.taskRef = (exchangeTask client exchange).taskRef := by
    split
    · exact .inr ⟨_, rfl, rfl⟩
    · exact .inl rfl
  have hwritten : (writtenStore codec s capture.records capture.contents).activeTasks.get?
      (exchangeTask client exchange).taskRef =
        some (exchangeRow client title codec t index exchange s parent root firstSeen) := hrow
  obtain ⟨htasks, hheartbeats, first, second, huploads⟩ := @tasks_buildWireBatch client t _ _
    (exchangeTask client exchange).taskRef (appliedAttempt client title codec t index exchange s)
    (httpExchangeOf t index exchange codec (exchangeTask client exchange))
    (appliedSummary client title codec t index exchange s)
    (appliedTransition client title codec t index exchange s) _ hsessions rfl rfl rfl hwritten
  rw [← haccepted] at htasks hheartbeats huploads
  refine ⟨_, first, second, ⟨⟨parent, root, firstSeen, rfl⟩, ?_, htasks, hwritten, hheartbeats,
    huploads⟩⟩
  intro attempt
  rw [haccepted]
  split <;> simp

section Checks
variable {row : TaskRow} {first second : Draw} {c : Contents}

/-- The upload of an exchange is in limits exactly when its texts are. -/
theorem inLimits_exchangeUpload (hcaptured : Captured exchange)
    (hrow : ∃ parent root firstSeen,
      row = exchangeRow client title codec t index exchange s parent root firstSeen) :
    (exchangeUpload client title codec t index exchange s c row first second).InLimits ↔
      (exchangeTask client exchange).taskRef.utf8ByteSize ≤ MAX_ID_BYTES ∧
      (∀ row, s.activeTasks.get? (exchangeTask client exchange).taskRef = some row →
        KeyFits row.task) ∧
      OptTextWithin 512 ((title exchange.attempt.identity.sessionId).or
        ((s.activeTasks.get? (exchangeTask client exchange).taskRef).bind
          TaskRow.conversationTitle)) ∧
      ErrorsFit exchange.attempt := by
  obtain ⟨parent, root, firstSeen, rfl⟩ := hrow
  have hordinal : (appliedAttempt client title codec t index exchange s).ordinal ≠ 0 := by
    have hcount := @storedAttempts_of_cursor s (exchangeTask client exchange)
    simp only [appliedAttempt, attemptSummaryOf, exchangeSummary, taskSummaryOf]
    omega
  have hsequence : (appliedTransition client title codec t index exchange s).sequence ≠ 0 := by
    have hnext := @storedSequence_lt_appliedSummary client title codec t index exchange s
    have hsame : (appliedTransition client title codec t index exchange s).sequence =
        (appliedSummary client title codec t index exchange s).sequence := rfl
    omega
  have hupload := @inLimits_upload_iff
    (exchangeRow client title codec t index exchange s parent root firstSeen)
    (exchangeTask client exchange).taskRef (appliedAttempt client title codec t index exchange s)
    (appliedTransition client title codec t index exchange s) c
    (t.ids (.snapshot 0 (exchangeTask client exchange).taskRef)) (t.ids first) (t.ids second) _ _
    rfl rfl hordinal hsequence rfl rfl rfl fun href => inLimits_projection hcaptured.sized href
  rw [textWithin_taskRef] at hupload
  refine hupload.trans ?_
  rw [exchangeRow, keyFits_getD hcaptured]

theorem taskRef_getD {row : Option TaskRow} {task : TaskKey} :
    ((row.map TaskRow.task).getD task).taskRef = task.taskRef ↔
      ∀ r, row = some r → r.task.taskRef = task.taskRef := by
  cases row <;> simp

/-- The snapshot of an exchange says whether the task has ended and how. -/
theorem terminalFieldsValid_exchangeRow (parent root : Option String) (firstSeen : Option ℤ)
    (id : Uuid) (taskRef : String) :
    ((exchangeRow client title codec t index exchange s parent root firstSeen).snapshot id
      taskRef).terminalFieldsValid = true := by
  have hphase : (exchangeRow client title codec t index exchange s parent root firstSeen).phase =
      (mapAttemptProjection exchange.attempt).taskPhase := rfl
  have houtcome :
      (exchangeRow client title codec t index exchange s parent root firstSeen).outcome =
        (mapAttemptProjection exchange.attempt).taskOutcome := rfl
  have hterminal :
      (exchangeRow client title codec t index exchange s parent root firstSeen).terminalAt =
        if (mapAttemptProjection exchange.attempt).taskPhase = .terminal then
          some (ts t.terminalNow) else none := by
    simp only [exchangeRow, rowOfSummary, appliedSummary, exchangeSummary, taskSummaryOf]
    split <;> rfl
  rw [TaskSnapshot.terminalFieldsValid, TaskRow.snapshot, hphase, houtcome, hterminal]
  obtain hopen | ⟨-, hended, hcompleted, -⟩ := transition_cases exchange
  · generalize (mapAttemptProjection exchange.attempt).cause = cause at hopen
    generalize (mapAttemptProjection exchange.attempt).taskPhase = phase at hopen ⊢
    generalize (mapAttemptProjection exchange.attempt).taskOutcome = outcome at hopen ⊢
    cases hopen <;> rfl
  · rw [hended, hcompleted]
    rfl

variable (client codec exchange) in
/-- The error of an exchange fits the evidence that it is from, in each of the records. -/
theorem mapErrorRecord_appliedError {errorId : Uuid} {attemptId : Option Uuid}
    {occurredAtMs : TimestampMs} {kind : Option TaskEventKind} {record : ErrorRecord}
    (h : (appliedError codec exchange).map (fun error => mapErrorRecord errorId
      (exchangeTask client exchange).taskRef attemptId occurredAtMs error kind) = some record) :
    record.errorId = errorId ∧ record.sourceFieldsValid = true ∧
      record.taskRef = (exchangeTask client exchange).taskRef := by
  obtain ⟨normalized, hnormalized, rfl⟩ := Option.map_eq_some_iff.mp h
  obtain ⟨error, herror, rfl⟩ := Option.map_eq_some_iff.mp hnormalized
  refine ⟨mapErrorRecord_errorId, sourceFieldsValid_mapErrorRecord ?_, mapErrorRecord_taskRef⟩
  rw [errorSource_normalizeError]
  exact isDecodedSource_projection herror

theorem errors_exchangeUpload (hids : ∀ draw, isUuidV7 (t.ids draw) = true) {record : ErrorRecord}
    (hrecord : record ∈
      (exchangeUpload client title codec t index exchange s c row first second).errors) :
    isUuidV7 record.errorId = true ∧ record.sourceFieldsValid = true ∧
      record.taskRef = (exchangeTask client exchange).taskRef := by
  have hmem := mem_of_mem_dedupeErrors hrecord
  rw [List.mem_append, Option.mem_toList, Option.mem_toList] at hmem
  obtain hattempt | hevent := hmem
  · have hrecord := mapErrorRecord_appliedError client codec exchange hattempt
    exact ⟨hrecord.1 ▸ hids _, hrecord.2⟩
  · have hrecord := mapErrorRecord_appliedError client codec exchange hevent
    exact ⟨hrecord.1 ▸ hids _, hrecord.2⟩

theorem terminalFieldsValid_appliedAttempt :
    (buildAttemptRecord (t.ids first) c
      (appliedAttempt client title codec t index exchange s)).terminalFieldsValid = true ↔
        evidenceFits exchange.attempt = true := by
  have hsource : ((appliedError codec exchange).map errorSource) =
      (mapAttemptProjection exchange.attempt).error.map errorSource := by
    simp [appliedError, Function.comp_def]
  rw [← statusFits_projection, ← hsource]
  exact iff_of_eq (congrArg (· = true) (terminalFieldsValid_buildAttemptRecord rfl))

/-- The snapshot of an exchange shows a task under its own name that does not start late. -/
theorem consistent_exchangeRow (hids : ∀ draw, isUuidV7 (t.ids draw) = true)
    (parent root : Option String) (firstSeen : Option ℤ) (draw : Draw) :
    ((exchangeRow client title codec t index exchange s parent root firstSeen).snapshot (t.ids draw)
        (exchangeTask client exchange).taskRef).Consistent ↔
      ts (exchangeSummary client title t index exchange s).startedAt ≤ t.nowMs ∧
      ∀ row, s.activeTasks.get? (exchangeTask client exchange).taskRef = some row →
        row.task.taskRef = (exchangeTask client exchange).taskRef := by
  rw [← taskRef_getD]
  constructor
  · intro h
    exact ⟨h.times, h.taskRef⟩
  · rintro ⟨hstarted, hkeyed⟩
    refine ⟨hkeyed, rfl, hstarted, terminalFieldsValid_exchangeRow .., ?_, ?_⟩
    · intro error herror
      exact (mapErrorRecord_appliedError client codec exchange herror).1 ▸ hids _
    · intro error herror
      exact (mapErrorRecord_appliedError client codec exchange herror).2.1

/-- The attempt ends after it starts, with a status that its error bears out. -/
theorem consistent_appliedAttempt (hids : ∀ draw, isUuidV7 (t.ids draw) = true)
    (hattempt : isUuidV7 exchange.attempt.attemptId = true) (hhashed : Hashed c) :
    (buildAttemptRecord (t.ids first) c
        (appliedAttempt client title codec t index exchange s)).Consistent ↔
      evidenceFits exchange.attempt = true ∧
      ts (fromMs exchange.attempt.requestAtMs) ≤ t.nowMs := by
  constructor
  · intro h
    exact ⟨terminalFieldsValid_appliedAttempt.mp h.status, of_decide_eq_true h.times⟩
  · rintro ⟨hevidence, hclock⟩
    refine ⟨hattempt, decide_eq_true hclock, fun digest => hhashed.newestObject,
      fun digest => hhashed.newestObject, terminalFieldsValid_appliedAttempt.mpr hevidence, ?_, ?_⟩
    · intro error herror
      exact (mapErrorRecord_appliedError client codec exchange herror).1 ▸ hids _
    · intro error herror
      exact (mapErrorRecord_appliedError client codec exchange herror).2.1

theorem consistent_appliedTransition (hids : ∀ draw, isUuidV7 (t.ids draw) = true)
    (hevidence : evidenceFits exchange.attempt = true) :
    (mapTransitionEvent (t.ids second)
      (appliedTransition client title codec t index exchange s)).Consistent := by
  have hvalid : EvidenceValid s.contents (normalizedRecords client title t index exchange codec
      (loadTaskCursor s (exchangeTask client exchange))) :=
    evidenceValid_iff_statusFits.mpr ((statusFits_projection exchange.attempt).mpr hevidence)
  have htransition : .taskTransition (appliedTransition client title codec t index exchange s) ∈
      normalizedRecords client title t index exchange codec
        (loadTaskCursor s (exchangeTask client exchange)) := by simp [normalizedRecords_eq]
  have hevent := hvalid.evidence _ htransition (t.ids second)
  rw [validateEventEvidence, Check.ensure_eq_ok] at hevent
  refine ⟨hids _, ?_, ?_, ?_, hvalid.projection _ htransition (t.ids second), hevent⟩
  · intro error herror
    exact (mapErrorRecord_appliedError client codec exchange herror).1 ▸ hids _
  · intro error herror
    exact (mapErrorRecord_appliedError client codec exchange herror).2.1
  · intro error herror
    exact (mapErrorRecord_appliedError client codec exchange herror).2.2

/-- What is checked between the records of the upload and within them comes down to the evidence,
the clock and the names of the row. -/
theorem consistent_exchangeUpload (hids : ∀ draw, isUuidV7 (t.ids draw) = true)
    (hattempt : isUuidV7 exchange.attempt.attemptId = true) (hhashed : Hashed c)
    (hrow : ∃ parent root firstSeen,
      row = exchangeRow client title codec t index exchange s parent root firstSeen) :
    (exchangeUpload client title codec t index exchange s c row first second).Consistent ↔
      evidenceFits exchange.attempt = true ∧
      ts (fromMs exchange.attempt.requestAtMs) ≤ t.nowMs ∧
      ts (exchangeSummary client title t index exchange s).startedAt ≤ t.nowMs ∧
      ∀ row, s.activeTasks.get? (exchangeTask client exchange).taskRef = some row →
        row.task.taskRef = (exchangeTask client exchange).taskRef := by
  obtain ⟨parent, root, firstSeen, rfl⟩ := hrow
  rw [← consistent_exchangeRow hids parent root firstSeen
      (.snapshot 0 (exchangeTask client exchange).taskRef),
    ← and_assoc, ← consistent_appliedAttempt hids hattempt hhashed]
  constructor
  · intro h
    exact ⟨h.attempt _ (List.mem_singleton_self _), h.snapshot⟩
  · rintro ⟨hbuilt, hsnapshot⟩
    have hevidence := ((consistent_appliedAttempt hids hattempt hhashed).mp hbuilt).1
    refine {
      snapshot := hsnapshot
      attempt := ?_
      attemptTask := ?_
      attemptIds := List.nodup_singleton _
      ordinals := List.nodup_singleton _
      event := ?_
      eventTask := ?_
      eventOrder := List.isChain_singleton _
      lastEvent := ?_
      errorId := fun record hrecord => (errors_exchangeUpload hids hrecord).1
      errorSource := fun record hrecord => (errors_exchangeUpload hids hrecord).2.1
      errorTask := fun record hrecord => (errors_exchangeUpload hids hrecord).2.2
      errorIds := nodup_dedupeErrors _
      gapId := by intro gap hgap; cases hgap
      gapTask := by intro gap hgap; cases hgap }
    · intro attempt hmem
      obtain rfl := List.mem_singleton.mp hmem
      exact hbuilt
    · intro attempt hmem
      obtain rfl := List.mem_singleton.mp hmem
      rfl
    · intro event hmem
      obtain rfl := List.mem_singleton.mp hmem
      exact consistent_appliedTransition hids hevidence
    · intro event hmem
      obtain rfl := List.mem_singleton.mp hmem
      rfl
    · intro event hmem
      obtain rfl := Option.some.inj hmem
      exact le_rfl

end Checks

section Projected
variable {capture : CaptureBatch} {row : TaskRow} {first second : Draw}

/-- The batch of an exchange is valid when its envelope and its upload are. -/
theorem Built.valid_iff (h : Built client title codec t index exchange s capture row first second)
    (hids : ∀ draw, isUuidV7 (t.ids draw) = true) :
    (ingressBatch client codec t s capture).Valid ↔ ClientFits client ∧
      (exchangeUpload client title codec t index exchange s
        (writtenStore codec s capture.records capture.contents).contents row first second).Valid := by
  constructor
  · intro hvalid
    have henvelope := hvalid.envelope
    exact ⟨⟨henvelope.instanceId, henvelope.clientId, henvelope.hostname, henvelope.platform,
      henvelope.codexVersion⟩, hvalid.task _ (by rw [h.uploads]; exact List.mem_singleton_self _)⟩
  · rintro ⟨hclient, hupload⟩
    refine ⟨⟨rfl, hids _, hclient.instanceId, hclient.clientId, hclient.hostname, hclient.platform,
      hclient.codexVersion, ?_⟩, ?_, ?_, ?_, ?_⟩
    · rw [h.uploads, h.heartbeats]
      exact ⟨(by decide : 1 ≤ MAX_BATCH_TASKS), Nat.zero_le _⟩
    · rw [h.uploads, List.forall_mem_singleton]
      exact hupload
    · rw [h.uploads]
      exact List.nodup_singleton _
    · simp [h.heartbeats]
    · simp [h.heartbeats]

theorem Built.addsUp_iff
    (h : Built client title codec t index exchange s capture row first second) :
    AddsUp (writtenStore codec s capture.records capture.contents)
        (applyRecords s (capture.records.map (normalizeRecord codec))).1 ↔
      (∀ usage, lastUsage exchange.attempt.decodedEvents = some usage →
        usageParts usage < 2 ^ 64) ∧
      (lastUsage exchange.attempt.decodedEvents = none →
        ∀ row, s.activeTasks.get? (exchangeTask client exchange).taskRef = some row →
          row.usage.parts < 2 ^ 64) := by
  obtain ⟨parent, root, firstSeen, hrow⟩ := h.shows
  have hattempt : (appliedAttempt client title codec t index exchange s).usage.parts =
      (lastUsage exchange.attempt.decodedEvents).elim 0 usageParts := parts_projection _
  have hsnapshot : row.usage.parts = (lastUsage exchange.attempt.decodedEvents).elim
      (((s.activeTasks.get? (exchangeTask client exchange).taskRef).map
        fun row => row.usage.parts).getD 0) usageParts := by
    rw [hrow]
    refine (parts_mergeUsage ((loadTaskCursor s (exchangeTask client exchange)).map
      TaskCursor.usage) exchange.attempt).trans ?_
    rw [loadTaskCursor, Option.map_map, Option.map_map]
    rfl
  have hadds : AddsUp (writtenStore codec s capture.records capture.contents)
      (applyRecords s (capture.records.map (normalizeRecord codec))).1 ↔
      (appliedAttempt client title codec t index exchange s).usage.parts < 2 ^ 64 ∧
        row.usage.parts < 2 ^ 64 := by
    constructor
    · intro hadds
      exact ⟨isSome_mapUsageChecked.mp (hadds.attempt _ ((h.attempt _).mpr rfl)),
        isSome_mapUsageChecked.mp (hadds.snapshot _ (by simp [h.tasks]) row h.stored)⟩
    · rintro ⟨hattempt, hsnapshot⟩
      refine ⟨?_, ?_⟩
      · intro attempt hmem
        obtain rfl := (h.attempt attempt).mp hmem
        exact isSome_mapUsageChecked.mpr hattempt
      · intro taskRef hmem other hother
        rw [h.tasks, List.mem_singleton] at hmem
        rw [hmem, h.stored] at hother
        obtain rfl := Option.some.inj hother
        exact isSome_mapUsageChecked.mpr hsnapshot
  rw [hadds, hattempt, hsnapshot]
  cases lastUsage exchange.attempt.decodedEvents with
  | some usage => simp
  | none => cases s.activeTasks.get? (exchangeTask client exchange).taskRef <;> simp

/-- The transaction commits when the contents are stored, and the batch is valid and finds room. The
attempt makes it a priority batch. -/
theorem Built.committed_iff
    (h : Built client title codec t index exchange s capture row first second)
    (hlen : capture.records.length ≤ 128) :
    (persistIngress client codec t s capture.records capture.contents).1.isSome = true ↔
      (storeContents codec (applyRecords s
        (capture.records.map (normalizeRecord codec))).2.contents capture.contents).1 = true ∧
      (ingressBatch client codec t s capture).Valid ∧
        Room codec s.outbox (ingressBatch client codec t s capture) true := by
  have hpriority : (applyRecords s (capture.records.map (normalizeRecord codec))).1.any
      isPriorityRecord = true :=
    List.any_eq_true.mpr ⟨_, (h.attempt _).mpr rfl,
      decide_eq_true (attemptStatus_ne_running exchange.attempt)⟩
  have htasks : (ingressBatch client codec t s capture).tasks ≠ [] := by simp [h.uploads]
  have hlen' : (applyRecords s (capture.records.map (normalizeRecord codec))).1.length ≤ 128 := by
    have hle := @length_accepted_le s (capture.records.map (normalizeRecord codec))
    rw [List.length_map] at hle
    omega
  have houtbox : (writtenStore codec s capture.records capture.contents).outbox = s.outbox :=
    outbox_applyRecords
  rw [Client.committed_iff, isSome_enqueueRecords_iff hlen' htasks, hpriority, houtbox]
  rfl

end Projected

/-- The clock is past the start of the task, whether or not it is stored. -/
theorem startedAt_le_iff (hclock : ts (fromMs exchange.attempt.requestAtMs) ≤ t.nowMs) :
    ts (exchangeSummary client title t index exchange s).startedAt ≤ t.nowMs ↔
      ∀ row, s.activeTasks.get? (exchangeTask client exchange).taskRef = some row →
        ts (fromMs row.startedAt) ≤ t.nowMs := by
  simp only [exchangeSummary, taskSummaryOf, loadTaskCursor]
  cases s.activeTasks.get? (exchangeTask client exchange).taskRef with
  | none => simpa using hclock
  | some row => simp [TaskRow.cursor]

/-- What is captured persists exactly when it is not projected at all, or when it fits, the envelope
does, and there is room for the batch. -/
theorem persists_iff (client : ClientInstance) (title : String → Option String) (codec : Codec)
    (t : Tick) (index : ℕ) (exchange : DecodedExchange) (toVec : List Json → Bytes) (s : Store)
    (hcaptured : Captured exchange) (hids : ∀ draw, isUuidV7 (t.ids draw) = true)
    (hhashed : Hashed s.contents) :
    Persists client codec t s (projectExchange client title t index exchange codec toVec s) ↔
      (isProjected client exchange s = true →
        TrafficFits client title t s exchange ∧ ClientFits client ∧
          Room codec s.outbox (ingressBatch client codec t s
            (projectExchange client title t index exchange codec toVec s)) true) := by
  cases hprojected : isProjected client exchange s with
  | false =>
      have hempty : projectExchange client title t index exchange codec toVec s =
          CaptureBatch.empty := by
        rw [projectExchange, if_neg (by simp [hprojected])]
      refine iff_of_true ?_ (by simp)
      rw [hempty]
      refine ⟨⟨?_, ?_⟩, ⟨?_, ?_⟩, fun hne => absurd rfl hne, ?_⟩
      · simp [CaptureBatch.empty, applyRecords]
      · simp [CaptureBatch.empty, applyRecords, uploadTasks]
      · simp [ingressBatch, buildWireBatch, CaptureBatch.empty, applyRecords, uploadTasks]
      · simp [ingressBatch, buildWireBatch, CaptureBatch.empty, applyRecords]
      · rfl
  | true =>
      have hprojection : projectExchange client title t index exchange codec toVec s =
          ⟨exchangeRecords client title t index exchange codec
              (loadTaskCursor s (exchangeTask client exchange)),
            exchangeContents toVec t.now (exchangeTask client exchange) exchange⟩ := by
        rw [projectExchange, if_pos hprojected]
      generalize hcapture : projectExchange client title t index exchange codec toVec s = capture
        at hprojection ⊢
      have hrecords : capture.records = exchangeRecords client title t index exchange codec
          (loadTaskCursor s (exchangeTask client exchange)) := by rw [hprojection]
      have hcontents : (storeContents codec (applyRecords s
            (capture.records.map (normalizeRecord codec))).2.contents capture.contents).1 = true ↔
          Text.isBlank (contentType exchange.requestHeaders "application/json") = false ∧
            Text.isBlank (contentType exchange.responseHeaders "text/event-stream") = false := by
        rw [storeContents_isStored_iff, hprojection, mediaTypes_exchangeContents]
      obtain ⟨row, first, second, hbuilt⟩ := exists_built hrecords
      have hupload : (exchangeUpload client title codec t index exchange s
          (writtenStore codec s capture.records capture.contents).contents row first second).Valid ↔
            _ := TaskUpload.valid_iff.trans (and_congr
        (inLimits_exchangeUpload hcaptured hbuilt.shows)
        (consistent_exchangeUpload hids hcaptured.attemptId
          (hhashed.writtenStore capture.records capture.contents) hbuilt.shows))
      have hcommits := hbuilt.committed_iff (by rw [hrecords]; exact (by decide : 5 ≤ 128))
      have hvalid := hbuilt.valid_iff hids
      constructor
      · intro h _
        obtain ⟨hstored, hbatch, hroom⟩ := hcommits.mp h.commits
        obtain ⟨hrequest, hresponse⟩ := hcontents.mp hstored
        obtain ⟨hclient, hsent⟩ := hvalid.mp hbatch
        obtain ⟨⟨href, hkeys, htitle, herror⟩, hevidence, hclock, hstarted, hkeyed⟩ :=
          hupload.mp hsent
        obtain ⟨husage, hcounted⟩ := hbuilt.addsUp_iff.mp h.adds
        exact ⟨⟨href, htitle, herror, hrequest, hresponse, hkeys, hevidence, hkeyed, hclock,
          (startedAt_le_iff hclock).mp hstarted, husage, hcounted⟩, hclient, hroom⟩
      · intro h
        obtain ⟨hfits, hclient, hroom⟩ := h rfl
        have hsent := hupload.mpr ⟨⟨hfits.taskRef, hfits.stored, hfits.title, hfits.error⟩,
          hfits.evidence, hfits.clock, (startedAt_le_iff hfits.clock).mpr hfits.started,
          hfits.keyed⟩
        have hbatch := hvalid.mpr ⟨hclient, hsent⟩
        refine ⟨hbuilt.addsUp_iff.mpr ⟨hfits.usage, hfits.counted⟩, ⟨?_, ?_⟩, fun _ => ⟨_,
          Codec.encodeBatch_eq_ok_iff.mpr ⟨hbatch, hroom.payload, rfl⟩⟩,
          hcommits.mpr ⟨hcontents.mpr ⟨hfits.requestType, hfits.responseType⟩, hbatch, hroom⟩⟩
        · exact fun upload hmem => (TaskUpload.valid_iff.mp (hbatch.task upload hmem)).1
        · simp [hbuilt.heartbeats]

end Traffic

/-- A gateway refuses the request, with a status and an empty body. -/
def gatewayExchange : DecodedExchange where
  attempt := decodeHttpExchange (.v7 1) ⟨"s", "t", "u", "turn", none, none⟩ (.object []) true true
    (.error 502 "" none) 1000
  requestBody := []
  responseBody := []
  requestHeaders := []
  responseHeaders := []
  responseStatus := some 502

/-- The records and contents of an exchange in an empty store. -/
def sampleCapture (exchange : DecodedExchange) : CaptureBatch :=
  projectExchange sampleClient (fun _ => none) (momentAt 1).toTick 0 exchange (.writing [])
    (fun _ => []) Store.empty

theorem persists_completed :
    (sampleCapture (streamExchange (.v7 2) [completedPayload "r"])).records.length = 5 ∧
    Persists sampleClient (.writing []) (momentAt 1).toTick Store.empty
      (projectExchange sampleClient (fun _ => none) (momentAt 1).toTick 0
        (streamExchange (.v7 2) [completedPayload "r"]) (.writing []) (fun _ => [])
        Store.empty) := by
  have herrors : ∀ event ∈ (streamExchange (.v7 2) [completedPayload "r"]).attempt.decodedEvents,
      eventError event = none := by decide +kernel
  have hlast : lastError (streamExchange (.v7 2) [completedPayload "r"]).attempt.decodedEvents =
      none := by decide +kernel
  have husage : lastUsage (streamExchange (.v7 2) [completedPayload "r"]).attempt.decodedEvents =
      some UsageSummary.zero := by decide +kernel
  refine ⟨by decide +kernel, (persists_iff sampleClient (fun _ => none) (.writing [])
    (momentAt 1).toTick 0 (streamExchange (.v7 2) [completedPayload "r"]) (fun _ => []) Store.empty
    ⟨by decide, rfl, by decide, by decide, by decide, ?_⟩ (fun draw => decide_eq_true
      (Uuid.getVersionNum_v7 _)) hashed_empty).mpr ?_⟩
  · intro event hmem error h
    rw [herrors event hmem] at h
    cases h
  · intro _
    refine ⟨⟨by decide +kernel, optTextWithin_none, ?_, by decide, by decide, ?_, by decide +kernel,
      ?_, by decide, ?_, ?_, ?_⟩, ⟨by decide, by decide, by decide, by decide, by decide⟩,
      ⟨by decide +kernel, by decide +kernel, rfl⟩⟩
    · intro _ error h
      rw [hlast] at h
      cases h
    · intro row h
      cases h
    · intro row h
      cases h
    · intro row h
      cases h
    · intro usage h
      rw [husage] at h
      obtain rfl := Option.some.inj h
      decide
    · intro _ row h
      cases h

/-- The blank message is refused, and everything is rolled back. -/
theorem not_persists_gateway :
    (persistIngress sampleClient (.writing []) (momentAt 1).toTick Store.empty
      (sampleCapture gatewayExchange).records (sampleCapture gatewayExchange).contents).1 = none ∧
    ¬ (ingressBatch sampleClient (.writing []) (momentAt 1).toTick Store.empty
      (sampleCapture gatewayExchange)).InLimits ∧
    ¬ Persists sampleClient (.writing []) (momentAt 1).toTick Store.empty
      (sampleCapture gatewayExchange) := by
  have hlimits : ¬ (ingressBatch sampleClient (.writing []) (momentAt 1).toTick Store.empty
      (sampleCapture gatewayExchange)).InLimits := by
    intro h
    have hmessages : ∀ u ∈ (ingressBatch sampleClient (.writing []) (momentAt 1).toTick Store.empty
        (sampleCapture gatewayExchange)).tasks, ∀ e ∈ u.snapshot.lastError,
          Text.isBlank e.message = false :=
      fun u hu e he => ((h.task u hu).snapshot.lastError e he).message.1
    revert hmessages
    decide +kernel
  exact ⟨by decide +kernel, hlimits, fun h => hlimits h.limits⟩

end Codexwatch.Client
