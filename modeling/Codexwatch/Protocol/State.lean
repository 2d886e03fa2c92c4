import Mathlib.Data.List.Range
import Codexwatch.Protocol.Validation

/-!
# The task reducer

`TaskReducer` of `protocol/src/state.rs` applies consecutive events to the
snapshot of one task. A method that fails keeps what it has written, so `apply`
is a computation with the reducer as its state below the exceptions.

## Main definitions

* `apply event` — one event.
* `applyAll events` — a list of events, up to the first that is refused.
* `Applicable s events` — what makes a list of events acceptable to a snapshot.

## Main results

* `run_apply` — a refused event leaves the reducer as it was.
* `reduces` — the lists that are applied as a whole, and what they lead to.
-/
namespace Codexwatch.Protocol

open Check

structure ReduceOutcome where
  snapshot : TaskSnapshot
  changed : Bool

inductive ReduceError
  | invalidEvent (e : ValidationError)
  | taskRefMismatch (eventTaskRef reducerTaskRef : String)
  | nonMonotonicSequence (eventSequence currentSequence : ℕ)
  | sequenceGap (eventSequence expectedSequence : ℕ)
  | timestampRegression (eventTimestamp snapshotTimestamp : TimestampMs)
  | alreadyTerminal (existing : TerminalOutcome) (incoming : Option TerminalOutcome)
  | invalidPhaseTransition (source target : TaskPhase)

structure TaskReducer where
  snapshot : TaskSnapshot

/-- The largest `u64`. -/
def U64_MAX : ℕ := 2 ^ 64 - 1

/-- The largest `u32`. -/
def U32_MAX : ℕ := 2 ^ 32 - 1

def validPhaseTransition : TaskPhase → TaskPhase → Bool
  | .running, target =>
      target = .running ∨ target = .awaitingTool ∨ target = .retrying ∨ target = .terminal
  | .awaitingTool, target =>
      target = .awaitingTool ∨ target = .running ∨ target = .retrying ∨ target = .terminal
  | .retrying, target =>
      target = .retrying ∨ target = .running ∨ target = .awaitingTool ∨ target = .terminal
  | .terminal, _ => false

namespace TaskReducer

/-- The checks at the head of `apply`. The sum is one of `u64`. -/
def check (snapshot : TaskSnapshot) (event : TaskEvent) : Except ReduceError Unit := do
  event.validate.mapError .invalidEvent
  ensure (event.taskRef = snapshot.taskRef) (.taskRefMismatch event.taskRef snapshot.taskRef)
  ensure (snapshot.sequence < event.sequence)
    (.nonMonotonicSequence event.sequence snapshot.sequence)
  let expectedSequence := (snapshot.sequence + 1) % (U64_MAX + 1)
  ensure (event.sequence = expectedSequence) (.sequenceGap event.sequence expectedSequence)
  ensure (snapshot.updatedAtMs ≤ event.occurredAtMs)
    (.timestampRegression event.occurredAtMs snapshot.updatedAtMs)
  whenSome snapshot.terminal fun existing => .error (.alreadyTerminal existing event.terminal)
  ensure (validPhaseTransition snapshot.phase event.phase)
    (.invalidPhaseTransition snapshot.phase event.phase)

/-- Appends an item that is not there yet. -/
def pushNew (items : List String) (item : String) : List String :=
  if item ∈ items then items else items ++ [item]

/-- The assignments of `apply`. -/
def update (snapshot : TaskSnapshot) (event : TaskEvent) : TaskSnapshot :=
  let snapshot := { snapshot with
    sequence := event.sequence
    updatedAtMs := event.occurredAtMs
    phase := event.phase
    terminal := event.terminal
    model := event.model.or snapshot.model
    responseIds := event.responseId.toList.foldl pushNew snapshot.responseIds
    toolNames := event.toolNames.foldl pushNew snapshot.toolNames
    usage := event.usage
    lastError := event.error.or snapshot.lastError }
  match event.kind with
  | .attemptStarted => { snapshot with attemptCount := min (snapshot.attemptCount + 1) U32_MAX }
  | .captureGap => { snapshot with integrity := .degraded }
  | .unsupportedBuild => { snapshot with integrity := .unsupportedBuild }
  | .terminalLost =>
      { snapshot with integrity := .lost, completedAtMs := some event.occurredAtMs }
  | kind =>
      if kind.terminalHint.isSome then { snapshot with completedAtMs := some event.occurredAtMs }
      else snapshot

def apply (event : TaskEvent) : ExceptT ReduceError (StateM TaskReducer) ReduceOutcome := do
  liftExcept (check (← get).snapshot event)
  modify fun reducer => ⟨update reducer.snapshot event⟩
  return ⟨(← get).snapshot, true⟩

/-- The events one after the other, `?` after each. -/
def applyAll (events : List TaskEvent) : ExceptT ReduceError (StateM TaskReducer) Unit :=
  forM events fun event => do let _ ← apply event

variable {snapshot : TaskSnapshot} {event : TaskEvent} {events : List TaskEvent}
  {reducer reducer' : TaskReducer}

/-! ## One event -/

/-- A failed check is all that a refused event does; an accepted one is applied at once. -/
theorem run_apply : (apply event).run.run reducer =
    match check reducer.snapshot event with
    | .error e => (.error e, reducer)
    | .ok () => (.ok ⟨update reducer.snapshot event, true⟩, ⟨update reducer.snapshot event⟩) := by
  cases hcheck : check reducer.snapshot event <;> simp [apply, ExceptT.run_bind, hcheck] <;> rfl

/-- What a snapshot needs of its next event. -/
structure Admits (snapshot : TaskSnapshot) (event : TaskEvent) : Prop where
  valid : event.validate = .ok ()
  task : event.taskRef = snapshot.taskRef
  sequence : event.sequence = snapshot.sequence + 1
  time : snapshot.updatedAtMs ≤ event.occurredAtMs
  unfinished : snapshot.terminal = none

/-- The phase table forbids nothing but to leave the terminal phase. -/
theorem validPhaseTransition_iff {source target : TaskPhase} :
    validPhaseTransition source target ↔ source ≠ .terminal := by
  cases source <;> cases target <;> simp [validPhaseTransition]

theorem phase_eq_terminal_iff (h : snapshot.validate = .ok ()) :
    snapshot.phase = .terminal ↔ snapshot.terminal.isSome := by
  have hfields := (TaskSnapshot.validate_eq_ok.mp h).2.terminal
  unfold TaskSnapshot.terminalFieldsValid at hfields
  cases hphase : snapshot.phase <;> cases hterminal : snapshot.terminal <;>
    simp [hphase, hterminal] at hfields ⊢

/-- The successor of a sequence that a later one exceeds does not wrap around. -/
theorem sequence_iff (hsequence : event.sequence ≤ U64_MAX) :
    (snapshot.sequence < event.sequence ∧
        event.sequence = (snapshot.sequence + 1) % (U64_MAX + 1)) ↔
      event.sequence = snapshot.sequence + 1 := by
  constructor
  · rintro ⟨hlt, heq⟩
    rwa [Nat.mod_eq_of_lt (by omega)] at heq
  · intro heq
    refine ⟨by omega, ?_⟩
    rw [Nat.mod_eq_of_lt (by omega), heq]

theorem check_eq_ok_iff (h : snapshot.validate = .ok ()) (hsequence : event.sequence ≤ U64_MAX) :
    check snapshot event = .ok () ↔ Admits snapshot event := by
  simp only [check, bind_eq_ok, exists_unit_and, mapError_eq_ok, ensure_eq_ok, whenSome_eq_ok,
    validPhaseTransition_iff, Ne, phase_eq_terminal_iff h]
  constructor
  · rintro ⟨hvalid, htask, hlt, heq, htime, -, hopen⟩
    exact ⟨hvalid, htask, (sequence_iff hsequence).mp ⟨hlt, heq⟩, htime, by simpa using hopen⟩
  · intro hadmits
    obtain ⟨hlt, heq⟩ := (sequence_iff hsequence).mpr hadmits.sequence
    exact ⟨hadmits.valid, hadmits.task, hlt, heq, hadmits.time, by simp [hadmits.unfinished],
      by simp [hadmits.unfinished]⟩

/-- The integrity that an event of each kind leaves. -/
def integrityAfter : TaskEventKind → IntegrityState → IntegrityState
  | .captureGap, _ => .degraded
  | .unsupportedBuild, _ => .unsupportedBuild
  | .terminalLost, _ => .lost
  | _, integrity => integrity

/-- The arms of the closing match, field by field. `TerminalLost` has an arm of its own and
sets the completion time there. -/
theorem update_eq : update snapshot event = { snapshot with
    sequence := event.sequence
    updatedAtMs := event.occurredAtMs
    phase := event.phase
    terminal := event.terminal
    model := event.model.or snapshot.model
    responseIds := event.responseId.toList.foldl pushNew snapshot.responseIds
    toolNames := event.toolNames.foldl pushNew snapshot.toolNames
    usage := event.usage
    lastError := event.error.or snapshot.lastError
    attemptCount := if event.kind = .attemptStarted then min (snapshot.attemptCount + 1) U32_MAX
      else snapshot.attemptCount
    integrity := integrityAfter event.kind snapshot.integrity
    completedAtMs := if event.kind.terminalHint.isSome then some event.occurredAtMs
      else snapshot.completedAtMs } := by
  cases hkind : event.kind <;> simp [update, hkind, integrityAfter, TaskEventKind.terminalHint]

@[simp] theorem update_sequence : (update snapshot event).sequence = event.sequence := by
  rw [update_eq]

@[simp] theorem update_taskRef : (update snapshot event).taskRef = snapshot.taskRef := by
  rw [update_eq]

@[simp] theorem update_updatedAtMs :
    (update snapshot event).updatedAtMs = event.occurredAtMs := by
  rw [update_eq]

@[simp] theorem update_terminal : (update snapshot event).terminal = event.terminal := by
  rw [update_eq]

/-- The outcome of a valid event is the one its kind hints at, in the terminal phase only. -/
theorem projection_of_validate (h : event.validate = .ok ()) :
    event.terminal = event.kind.terminalHint ∧
      (event.kind.terminalHint.isSome ↔ event.phase = .terminal) := by
  have hprojection := (TaskEvent.validate_eq_ok.mp h).2.projection
  simp only [validateEventProjection, bind_eq_ok, exists_unit_and, ensure_eq_ok] at hprojection
  have hexpected : expectedTerminal event.kind = event.kind.terminalHint := by
    cases event.kind <;> rfl
  rw [hexpected] at hprojection
  exact hprojection.1

/-- An admitted event leaves a valid snapshot. -/
theorem validate_update (h : snapshot.validate = .ok ()) (hadmits : Admits snapshot event) :
    (update snapshot event).validate = .ok () := by
  obtain ⟨hlimits, hconsistent⟩ := TaskSnapshot.validate_eq_ok.mp h
  obtain ⟨hevent, hevent'⟩ := TaskEvent.validate_eq_ok.mp hadmits.valid
  obtain ⟨hterminal, hphase⟩ := projection_of_validate hadmits.valid
  have herror : ∀ e, (event.error.or snapshot.lastError) = some e →
      e.InLimits ∧ isUuidV7 e.errorId ∧ e.sourceFieldsValid := by
    intro e he
    rw [Option.or_eq_some_iff] at he
    obtain he | ⟨-, he⟩ := he
    · exact ⟨hevent.error e he, hevent'.errorId e he, hevent'.errorSource e he⟩
    · exact ⟨hlimits.lastError e he, hconsistent.lastErrorId e he,
        hconsistent.lastErrorSource e he⟩
  have hcompleted : snapshot.completedAtMs = none := by
    have hnot := mt (phase_eq_terminal_iff h).mp (by simp [hadmits.unfinished])
    have hfields := hconsistent.terminal
    unfold TaskSnapshot.terminalFieldsValid at hfields
    cases hsource : snapshot.phase <;> simp_all
  have hfields : (update snapshot event).terminalFieldsValid := by
    rw [update_eq]
    unfold TaskSnapshot.terminalFieldsValid
    cases htarget : event.phase <;> simp_all
  have htimes := hconsistent.times
  have htime := hadmits.time
  rw [update_eq] at hfields ⊢
  exact TaskSnapshot.validate_eq_ok.mpr ⟨⟨hlimits.taskRef, hlimits.provider, hlimits.sessionId,
      hlimits.threadId, hlimits.turnId, hlimits.conversationTitle, fun e he => (herror e he).1⟩,
    ⟨hconsistent.taskRef, hconsistent.requestKind, htimes.trans htime, hfields,
      fun e he => (herror e he).2.1, fun e he => (herror e he).2.2⟩⟩

/-! ## A list of events -/

/-- The lists of events that a snapshot can take. -/
structure Applicable (snapshot : TaskSnapshot) (events : List TaskEvent) : Prop where
  valid : ∀ event ∈ events, event.validate = .ok ()
  task : ∀ event ∈ events, event.taskRef = snapshot.taskRef
  sequences : events.map TaskEvent.sequence = List.range' (snapshot.sequence + 1) events.length
  times : (snapshot.updatedAtMs :: events.map TaskEvent.occurredAtMs).IsChain (· ≤ ·)
  unfinished : events ≠ [] → snapshot.terminal = none
  ending : ∀ event ∈ events.dropLast, event.terminal = none

theorem applicable_nil : Applicable snapshot [] :=
  ⟨by simp, by simp, by simp, by simp, by simp, by simp⟩

/-- The first event is admitted, and the others by what it leaves. -/
theorem applicable_cons : Applicable snapshot (event :: events) ↔
    Admits snapshot event ∧ Applicable (update snapshot event) events := by
  constructor
  · intro h
    have hsequence := h.sequences
    have htimes := h.times
    have hending := h.ending
    simp only [List.map_cons, List.length_cons, List.range'_succ, List.cons.injEq] at hsequence
    simp only [List.map_cons, List.isChain_cons_cons] at htimes
    refine ⟨⟨h.valid _ (by simp), h.task _ (by simp), hsequence.1, htimes.1,
      h.unfinished (by simp)⟩, ?_⟩
    refine ⟨fun e he => h.valid e (by simp [he]), fun e he => ?_, ?_, ?_, fun hne => ?_,
      fun e he => ?_⟩
    · rw [update_taskRef]
      exact h.task e (by simp [he])
    · rw [update_sequence, hsequence.1]
      exact hsequence.2
    · rw [update_updatedAtMs]
      exact htimes.2
    · rw [update_terminal]
      exact hending event (by simp [List.dropLast_cons_of_ne_nil hne])
    · have hne : events ≠ [] := by rintro rfl; simp at he
      exact hending e (by simp [List.dropLast_cons_of_ne_nil hne, he])
  · rintro ⟨hadmits, h⟩
    have hsequences := h.sequences
    have htimes := h.times
    have htask := h.task
    rw [update_sequence] at hsequences
    rw [update_updatedAtMs] at htimes
    rw [update_taskRef] at htask
    refine ⟨?_, ?_, ?_, ?_, fun _ => hadmits.unfinished, fun e he => ?_⟩
    · simpa using ⟨hadmits.valid, h.valid⟩
    · simpa using ⟨hadmits.task, htask⟩
    · simp [List.range'_succ, hsequences, hadmits.sequence]
    · simpa using ⟨hadmits.time, htimes⟩
    · cases events with
      | nil => simp at he
      | cons next rest =>
          rw [List.dropLast_cons_of_ne_nil (by simp), List.mem_cons] at he
          obtain rfl | he := he
          · have hopen := h.unfinished (by simp)
            rwa [update_terminal] at hopen
          · exact h.ending e he

theorem run_applyAll_cons : (applyAll (event :: events)).run.run reducer =
    match check reducer.snapshot event with
    | .error e => (.error e, reducer)
    | .ok () => (applyAll events).run.run ⟨update reducer.snapshot event⟩ := by
  rw [applyAll, run_forM_cons, ExceptT.run_bind, StateT.run_bind, run_apply]
  cases check reducer.snapshot event <;> rfl

/-- What an applicable list leaves. -/
def updates (snapshot : TaskSnapshot) (events : List TaskEvent) : TaskSnapshot :=
  events.foldl update snapshot

/-- The loop runs to its end on the applicable lists, and on them alone. -/
theorem run_applyAll (h : snapshot.validate = .ok ())
    (hsequence : ∀ event ∈ events, event.sequence ≤ U64_MAX) :
    (Applicable snapshot events ∧
        (applyAll events).run.run ⟨snapshot⟩ = (.ok (), ⟨updates snapshot events⟩)) ∨
      (¬ Applicable snapshot events ∧
        ∃ e reducer, (applyAll events).run.run ⟨snapshot⟩ = (.error e, reducer)) := by
  induction events generalizing snapshot with
  | nil => exact .inl ⟨applicable_nil, rfl⟩
  | cons event events ih =>
      rw [run_applyAll_cons]
      cases hcheck : check snapshot event with
      | error e =>
          refine .inr ⟨fun h' => ?_, e, _, rfl⟩
          have hadmits := (applicable_cons.mp h').1
          rw [(check_eq_ok_iff h (hsequence event (by simp))).mpr hadmits] at hcheck
          simp at hcheck
      | ok u =>
          have hadmits := (check_eq_ok_iff h (hsequence event (by simp))).mp hcheck
          have hrest := ih (validate_update h hadmits) fun e he => hsequence e (by simp [he])
          rw [applicable_cons, and_iff_right hadmits]
          exact hrest

/-! ## What an applied list leads to -/

theorem sequence_updates (h : Applicable snapshot events) :
    (updates snapshot events).sequence = snapshot.sequence + events.length := by
  induction events generalizing snapshot with
  | nil => rfl
  | cons event events ih =>
      obtain ⟨hadmits, hrest⟩ := applicable_cons.mp h
      have hsequence := ih hrest
      rw [update_sequence, hadmits.sequence] at hsequence
      rw [updates, List.foldl_cons, ← updates, hsequence, List.length_cons]
      omega

theorem taskRef_updates : (updates snapshot events).taskRef = snapshot.taskRef := by
  induction events generalizing snapshot with
  | nil => rfl
  | cons event events ih => rw [updates, List.foldl_cons, ← updates, ih, update_taskRef]

theorem validate_updates (h : snapshot.validate = .ok ())
    (happlicable : Applicable snapshot events) : (updates snapshot events).validate = .ok () := by
  induction events generalizing snapshot with
  | nil => exact h
  | cons event events ih =>
      obtain ⟨hadmits, hrest⟩ := applicable_cons.mp happlicable
      exact ih (validate_update h hadmits) hrest

/-- The events of an applicable list are in the order that an upload requires. -/
theorem isChain_of_applicable (h : Applicable snapshot events) :
    events.IsChain fun a b => a.terminal = none ∧ a.sequence < b.sequence := by
  induction events generalizing snapshot with
  | nil => exact List.isChain_nil
  | cons event events ih =>
      obtain ⟨-, hrest⟩ := applicable_cons.mp h
      cases events with
      | nil => exact List.isChain_singleton event
      | cons next events =>
          have hnext := (applicable_cons.mp hrest).1
          refine List.isChain_cons_cons.mpr ⟨⟨?_, ?_⟩, ih hrest⟩
          · simpa using hnext.unfinished
          · rw [hnext.sequence, update_sequence]
            omega

/-- The last event of an applicable list has the final sequence. -/
theorem sequence_getLast (h : Applicable snapshot events) {last : TaskEvent}
    (hlast : events.getLast? = some last) :
    last.sequence = snapshot.sequence + events.length := by
  obtain ⟨before, rfl⟩ := List.getLast?_eq_some_iff.mp hlast
  have hsequences := congrArg List.getLast? h.sequences
  simp [List.getLast?_range'] at hsequences
  simp
  omega

/-- The upload of the snapshot that a list of events leads to, with these events. -/
theorem validate_upload (h : snapshot.validate = .ok ())
    (happlicable : Applicable snapshot events) :
    (TaskUpload.mk (updates snapshot events) [] events [] []).validate = .ok () := by
  rw [TaskUpload.validate_eq_ok]
  constructor
  case snapshot => exact validate_updates h happlicable
  case event => exact happlicable.valid
  case eventTask =>
    intro event hevent
    rw [taskRef_updates]
    exact happlicable.task event hevent
  case eventOrder => exact isChain_of_applicable happlicable
  case lastEvent =>
    intro last hlast
    rw [sequence_updates happlicable, sequence_getLast happlicable hlast]
  all_goals simp

/-- A refused event changes nothing. A list of events is applied as a whole exactly when it is
applicable, and then the snapshot is valid, has advanced by the number of the events within the
range of `u64`, and is fit for upload with them. -/
theorem reduces (h : snapshot.validate = .ok ()) (hstart : snapshot.sequence ≤ U64_MAX)
    (hsequence : ∀ event ∈ events, event.sequence ≤ U64_MAX) :
    (∀ reducer event e reducer', (apply event).run.run reducer = (.error e, reducer') →
      reducer' = reducer) ∧
    ((∃ reducer, (applyAll events).run.run ⟨snapshot⟩ = (.ok (), reducer)) ↔
      Applicable snapshot events) ∧
    ∀ reducer, (applyAll events).run.run ⟨snapshot⟩ = (.ok (), reducer) →
      reducer.snapshot.validate = .ok () ∧
      reducer.snapshot.sequence = snapshot.sequence + events.length ∧
      reducer.snapshot.sequence ≤ U64_MAX ∧
      (TaskUpload.mk reducer.snapshot [] events [] []).validate = .ok () := by
  refine ⟨fun reducer event e reducer' hrun => ?_, ?_, fun reducer hrun => ?_⟩
  · rw [run_apply] at hrun
    cases hcheck : check reducer.snapshot event with
    | error e' =>
        rw [hcheck] at hrun
        exact (Prod.mk.inj hrun).2.symm
    | ok u =>
        rw [hcheck] at hrun
        cases hrun
  · obtain ⟨happlicable, hrun⟩ | ⟨hnot, e, reducer, hrun⟩ := run_applyAll h hsequence
    · exact iff_of_true ⟨_, hrun⟩ happlicable
    · refine iff_of_false ?_ hnot
      rintro ⟨reducer', hrun'⟩
      rw [hrun] at hrun'
      cases hrun'
  · obtain ⟨happlicable, hrun'⟩ | ⟨-, e, reducer', hrun'⟩ := run_applyAll h hsequence
    · rw [hrun'] at hrun
      obtain rfl : ⟨updates snapshot events⟩ = reducer := (Prod.mk.inj hrun).2
      refine ⟨validate_updates h happlicable, sequence_updates happlicable, ?_,
        validate_upload h happlicable⟩
      rw [sequence_updates happlicable]
      cases hlast : events.getLast? with
      | none =>
          rw [List.getLast?_eq_none_iff] at hlast
          simpa [hlast] using hstart
      | some last =>
          rw [← sequence_getLast happlicable hlast]
          exact hsequence last (List.mem_of_getLast? hlast)
    · rw [hrun] at hrun'
      cases hrun'

/-- A task that has just been seen. -/
def observedSnapshot : TaskSnapshot where
  taskRef := "s:t:u"
  identity := ⟨"openai", "s", "t", "u"⟩
  codex := ⟨"turn", none, none⟩
  conversationTitle := none
  sequence := 0
  phase := .running
  terminal := none
  integrity := .complete
  model := none
  attemptCount := 0
  toolNames := []
  responseIds := []
  usage := .zero
  startedAtMs := 1
  updatedAtMs := 1
  completedAtMs := none
  lastError := none

/-- An event of that task without evidence. -/
def plainEvent (sequence : ℕ) (kind : TaskEventKind) (phase : TaskPhase) : TaskEvent where
  eventId := .v7 sequence
  taskRef := "s:t:u"
  sequence := sequence
  occurredAtMs := 10 * sequence
  kind := kind
  phase := phase
  terminal := kind.terminalHint
  attemptId := none
  responseId := none
  model := none
  toolNames := ["shell"]
  usage := .zero
  error := none
  httpStatus := none
  exitCode := none
  signal := none
  note := none

/-- Two attempts, the first of which calls a tool, and the end of the turn. -/
def turnEvents : List TaskEvent :=
  [plainEvent 1 .attemptStarted .running, plainEvent 2 .awaitingTool .awaitingTool,
    plainEvent 3 .attemptStarted .running, plainEvent 4 .terminalCompleted .terminal]

theorem reduces_turn : ∃ reducer, (applyAll turnEvents).run.run ⟨observedSnapshot⟩ =
    (.ok (), reducer) ∧ reducer.snapshot.sequence = 4 ∧
      (TaskUpload.mk reducer.snapshot [] turnEvents [] []).validate = .ok () := by
  obtain ⟨-, hiff, hafter⟩ := @reduces observedSnapshot turnEvents (by decide +kernel) (by decide)
    (by decide)
  have happlicable : Applicable observedSnapshot turnEvents :=
    ⟨by decide +kernel, by decide +kernel, by decide +kernel, by decide +kernel,
      by decide +kernel, by decide +kernel⟩
  obtain ⟨reducer, hrun⟩ := hiff.mpr happlicable
  obtain ⟨-, hsequence, -, hupload⟩ := hafter reducer hrun
  exact ⟨reducer, hrun, hsequence, hupload⟩

end TaskReducer

end Codexwatch.Protocol
