import Codexwatch.Client.Reuse

/-!
# How often a loss is reported

An assembler that has given up answers every further segment with a conflict, and
`handle_segment` makes each answer a gap record. A loss of one direction is reported
once as long as no segment of the direction comes after it
(`reportedOnce_of_unbroken`); every segment that does is reported again
(`reported_of_broken`).

## Main definitions

* `gapReason`, `raiseReason` — what a record says of a loss.
* `reports` — the records of each segment of one direction of a flow.
* `ReportedOnce` — one report of each kind, in one batch.
-/
namespace Codexwatch.Client

open Protocol Capture Relational TcpAssembler

def Handled.records : Handled → List SummaryRecord
  | .batch b => b.records
  | .error | .nothing => []

/-- The gaps that one direction of a flow can have. -/
def lossReasons (direction : Direction) : List String :=
  ["tcp_reassembly_gap", finishReason direction]

def gapReason : SummaryRecord → Option String
  | .captureGap gap => some gap.reason
  | _ => none

/-- The loss for which the record raises the sequence of its task. -/
def raiseReason : SummaryRecord → Option String
  | .taskTransition transition =>
    match transition.error with
    | some (.captureLost loss) => some loss.reason
    | _ => none
  | _ => none

def FlowItem.gapReason : FlowItem → Option String
  | .gap reason _ => some reason
  | .exchange _ => none

/-- At most one gap when reassembly fails and one when the stream ends, no more steps of a
task than that, and one batch for them. -/
structure ReportedOnce (direction : Direction) (batches : List (List SummaryRecord)) : Prop where
  gaps : (batches.flatten.filterMap gapReason).Sublist (lossReasons direction)
  raises : ((batches.flatten.filterMap raiseReason).filter
    fun reason => reason ∈ lossReasons direction).Sublist (lossReasons direction)
  priority : (batches.filter fun records => !(records.filterMap gapReason).isEmpty).length ≤ 1

section Flows
variable {ι σ : Type} [LinearOrder ι] (parseIp : String → Option ι) (app : Application σ)
  (client : ClientInstance) (codec : Codec) (toVec : List Json → Bytes) (key : FlowKey ι)

/-- The flow that the segment belongs to, and its direction, as the segment finds them. -/
def oriented (lane : Lane (FlowKey ι) (FlowDecoders ι σ)) (event : Reception) :
    Direction × FlowDecoders ι σ :=
  found parseIp app event.attribution lane (event.moment, event.segment) key

/-- The segment belongs to this direction of the flow. -/
def InStream (direction : Direction) (lane : Lane (FlowKey ι) (FlowDecoders ι σ))
    (event : Reception) : Prop :=
  flowKeyOf parseIp event.segment = some key ∧ (oriented parseIp app key lane event).1 = direction

instance (direction : Direction) (lane : Lane (FlowKey ι) (FlowDecoders ι σ))
    (event : Reception) : Decidable (InStream parseIp app key direction lane event) :=
  inferInstanceAs (Decidable (_ ∧ _))

def handled (lane : Lane (FlowKey ι) (FlowDecoders ι σ)) (event : Reception) : Handled :=
  (handleInput (flowWire parseIp app) client codec toVec event.moment lane
    (inputOf event.attribution event.segment)).1

/-- The records of each segment of the direction, among all the segments of the lane. -/
def reports (direction : Direction) : Lane (FlowKey ι) (FlowDecoders ι σ) → List Reception →
    List (List SummaryRecord)
  | _, [] => []
  | lane, event :: events =>
    let rest := reports direction (ingested parseIp app client codec toVec lane event) events
    if InStream parseIp app key direction lane event then
      (handled parseIp app client codec toVec lane event).records :: rest
    else rest

/-- The flow of the key is still there. -/
def Present (lane : Lane (FlowKey ι) (FlowDecoders ι σ)) (event : Reception) : Prop :=
  flowKeyOf parseIp event.segment = some key → lane.flows.get? key ≠ none

/-- A segment of the flow comes in a direction whose assembler has not given up. -/
def Unbroken (lane : Lane (FlowKey ι) (FlowDecoders ι σ)) (event : Reception) : Prop :=
  flowKeyOf parseIp event.segment = some key →
    ((oriented parseIp app key lane event).2.assembler
      (oriented parseIp app key lane event).1).degraded = false

end Flows

/-! ## The assembler -/

section Assembler
variable {s : TcpAssembler} {m : ℕ} {segment : Segment}

/-- The reason that is reported for a result of the assembler. -/
def lossOf (reason : String) : AssemblerResult → List String
  | .gapDetected | .conflictDetected => [reason]
  | .pending | .advanced _ => []

theorem filterMap_gapOf (reason : String) (lostBytes : Option ℕ) (r : AssemblerResult) :
    (gapOf reason lostBytes r).filterMap FlowItem.gapReason = lossOf reason r := by
  cases r <;> rfl

theorem lossOf_sublist (reason : String) (r : AssemblerResult) :
    (lossOf reason r).Sublist [reason] := by
  cases r <;> simp [lossOf]

/-- An assembler that reports a loss has given up. -/
theorem lossOf_finish {reason : String} (h : s.finish.2.degraded = false) :
    lossOf reason s.finish.1 = [] := by
  rw [finish] at h ⊢
  split at h
  · simp [degrade] at h
  · rename_i hlost
    rw [if_neg hlost]
    rfl

theorem lossOf_pushSegment {reason : String} (h : (s.pushSegment m segment).2.degraded = false) :
    lossOf reason (s.pushSegment m segment).1 = [] := by
  cases hdegraded : s.degraded with
  | true =>
    rw [pushSegment_of_degraded hdegraded, hdegraded] at h
    cases h
  | false =>
    cases hnext : s.nextSeq with
    | none => rw [pushSegment_first hdegraded hnext, lossOf]
    | some next =>
      by_cases hempty : segment.payload = []
      · rw [pushSegment_empty hdegraded hnext hempty]
        dsimp only
        split <;> rfl
      by_cases hlater : next < segment.seq
      · rw [pushSegment_later hdegraded hnext hempty hlater, buffer] at h ⊢
        split at h
        · simp [degrade] at h
        · rename_i hnear
          rw [if_neg hnear]
          rfl
      · rw [pushSegment_reached hdegraded hnext hempty (Nat.not_lt.mp hlater)] at h ⊢
        split at h
        · rename_i hseen
          rw [if_pos hseen]
          rfl
        · rename_i hfresh
          rw [if_neg hfresh]
          rcases acceptFragment_cases m next s segment with haccept | haccept | ⟨rest, haccept⟩
          · rw [haccept]
            rfl
          · rw [haccept] at h
            simp [degrade] at h
          · rw [haccept]
            rcases flushPending_advanced m (s.deliver m rest).pending.rows.length (s.deliver m rest)
              rest.chunk with ⟨chunk, hchunk⟩
            dsimp only
            rw [hchunk, lossOf]

theorem degraded_finish (h : s.degraded = true) : s.finish.2.degraded = true := by
  rw [finish, if_pos (by simp [h])]
  rfl

end Assembler

/-! ## One segment of a flow -/

section Push
variable {ι σ : Type} {parseIp : String → Option ι} {app : Application σ}
  {d d' : FlowDecoders ι σ} {segment : TcpSegment} {t : Tick} {direction other : Direction}

def gapReasons (items : List FlowItem) : List String := items.filterMap FlowItem.gapReason

theorem gapReasons_append (items items' : List FlowItem) :
    gapReasons (items ++ items') = gapReasons items ++ gapReasons items' := List.filterMap_append ..

theorem gapReasons_exchanges (exchanges : List DecodedExchange) :
    gapReasons (exchanges.map .exchange) = [] := by
  simp [gapReasons, FlowItem.gapReason]

@[simp] theorem assembler_setAssembler (a : TcpAssembler) :
    (d.setAssembler a direction).assembler direction = a := by cases direction <;> rfl

theorem assembler_setAssembler_of_ne (a : TcpAssembler) (h : other ≠ direction) :
    (d.setAssembler a direction).assembler other = d.assembler other := by
  cases direction <;> cases other <;> first | rfl | exact absurd rfl h

@[simp] theorem assembler_setClosed : (d.setClosed direction).assembler other = d.assembler other := by
  cases direction <;> cases other <;> rfl

/-- What the assembler answers is all that reassembly reports. -/
theorem gapReasons_accept : gapReasons (d.accept app segment t direction).1 =
    lossOf "tcp_reassembly_gap"
      ((d.assembler direction).pushSegment SEQUENCE_SPACE segment.toSegment).1 := by
  rw [FlowDecoders.accept]
  split
  · rename_i chunk hpushed
    rw [hpushed]
    exact gapReasons_exchanges _
  · exact filterMap_gapOf ..

theorem assembler_accept (h : (d.accept app segment t direction).2 = some d') :
    d'.assembler direction =
        ((d.assembler direction).pushSegment SEQUENCE_SPACE segment.toSegment).2 ∧
      ∀ other, other ≠ direction → d'.assembler other = d.assembler other := by
  rw [FlowDecoders.accept] at h
  have hset : ∀ other, other ≠ direction → (d.setAssembler ((d.assembler direction).pushSegment
      SEQUENCE_SPACE segment.toSegment).2 direction).assembler other = d.assembler other :=
    fun other hother => assembler_setAssembler_of_ne _ hother
  split at h
  · rcases Option.map_eq_some_iff.mp h with ⟨application, -, rfl⟩
    refine ⟨?_, fun other hother => (hset other hother).symm ▸ ?_⟩
    · cases direction <;> rfl
    · cases other <;> rfl
  · cases h
    exact ⟨assembler_setAssembler _, hset⟩

theorem gapReasons_close : gapReasons (d.close segment direction).1 =
    if segment.fin || segment.rst then lossOf (finishReason direction) (d.assembler direction).finish.1
    else [] := by
  rw [FlowDecoders.close]
  split
  · exact filterMap_gapOf ..
  · rfl

variable (d segment direction) in
theorem assembler_close :
    (d.close segment direction).2.assembler direction =
        (if segment.fin || segment.rst then (d.assembler direction).finish.2
        else d.assembler direction) ∧
      ∀ other, other ≠ direction →
        (d.close segment direction).2.assembler other = d.assembler other := by
  rw [FlowDecoders.close]
  split
  · refine ⟨assembler_setAssembler _, fun other hother => ?_⟩
    rw [assembler_setAssembler_of_ne _ hother, assembler_setClosed]
  · exact ⟨rfl, fun _ _ => rfl⟩

theorem assembler_orient [LinearOrder ι] (attributed : Option ProcessFlowDirection) :
    (d.orient parseIp segment attributed).2.assembler other = d.assembler other := by
  simp only [FlowDecoders.orient]
  split
  · cases other <;> rfl
  · cases other <;> rfl
  · split
    · rfl
    · split
      · rfl
      · split
        · cases other <;> rfl
        · rfl

variable [LinearOrder ι] {attributed : Option ProcessFlowDirection}

/-- A segment reports each kind of gap of its direction at most once. -/
theorem gapReasons_push : (gapReasons (d.push parseIp app segment t attributed).1).Sublist
    (lossReasons (d.orient parseIp segment attributed).1) := by
  rw [FlowDecoders.push]
  dsimp only
  generalize d.orient parseIp segment attributed = oriented
  have haccept : (gapReasons (oriented.2.accept app segment t oriented.1).1).Sublist
      ["tcp_reassembly_gap"] := by
    rw [gapReasons_accept]
    exact lossOf_sublist ..
  split
  · exact haccept.trans (List.sublist_append_left _ [finishReason oriented.1])
  · rename_i d' _
    rw [gapReasons_append, gapReasons_close]
    refine haccept.append ?_
    split
    · exact lossOf_sublist ..
    · exact List.nil_sublist _

/-- A flow that goes on after a gap has a broken assembler; the other one is as it was. -/
theorem push_ready (h : (d.push parseIp app segment t attributed).2 = .ready d') :
    ((d'.assembler (d.orient parseIp segment attributed).1).degraded = false →
        gapReasons (d.push parseIp app segment t attributed).1 = []) ∧
      ∀ other, other ≠ (d.orient parseIp segment attributed).1 →
        d'.assembler other = d.assembler other := by
  rw [FlowDecoders.push] at h ⊢
  dsimp only at h ⊢
  have horient (other : Direction) :
      (d.orient parseIp segment attributed).2.assembler other = d.assembler other :=
    assembler_orient attributed
  generalize d.orient parseIp segment attributed = oriented at h horient ⊢
  cases haccepted : (oriented.2.accept app segment t oriented.1).2 with
  | none =>
    rw [haccepted] at h
    cases h
  | some accepted =>
    rw [haccepted] at h
    dsimp only at h ⊢
    rcases assembler_accept haccepted with ⟨hassembler, hother⟩
    rcases assembler_close accepted segment oriented.1 with ⟨hclosed, hclosedOther⟩
    split at h
    · cases h
    · cases h
      refine ⟨fun hdegraded => ?_, fun other hne => ?_⟩
      · rw [hclosed] at hdegraded
        rw [gapReasons_append, gapReasons_close, gapReasons_accept, List.append_eq_nil_iff]
        split at hdegraded
        · rename_i hclosing
          rw [if_pos hclosing, lossOf_finish hdegraded]
          refine ⟨lossOf_pushSegment ?_, rfl⟩
          rw [← hassembler, ← Bool.not_eq_true]
          intro hbroken
          rw [degraded_finish hbroken] at hdegraded
          cases hdegraded
        · rename_i hopen
          rw [if_neg hopen]
          refine ⟨lossOf_pushSegment ?_, rfl⟩
          rw [← hassembler]
          exact hdegraded
      · rw [hclosedOther other hne, hother other hne, horient other]

end Push

/-! ## What the records say -/

section Records
variable {client : ClientInstance} {codec : Codec} {toVec : List Json → Bytes} {m : Moment}
  {s : Store} {flowId : Uuid} {current : Option TaskKey} {index : ℕ} {direction : Direction}

/-- An exchange that is lost has reasons of its own. -/
theorem reason_of_exchange {exchange : DecodedExchange} {loss : CaptureLoss}
    (h : (mapAttemptProjection exchange.attempt).error = some (.captureLost loss)) :
    loss.reason ∉ lossReasons direction := by
  have hdecoded (error : DecodedError) : structuredErrorFromDecoded error ≠ .captureLost loss := by
    rw [structuredErrorFromDecoded]
    split <;> simp
  have hlost (hcase : exchange.attempt.requestComplete = false ∨
      closing exchange.attempt.decodedEvents = none) : loss.reason ∉ lossReasons direction := by
    rcases mapAttemptProjection_of_lost hcase with ⟨reason, hreason, hp⟩
    rw [hp] at h
    cases h
    rcases hreason with rfl | rfl <;> cases direction <;> decide
  cases hrequest : exchange.attempt.requestComplete with
  | false => exact hlost (.inl hrequest)
  | true =>
    cases hclosing : closing exchange.attempt.decodedEvents with
    | none => exact hlost (.inr hclosing)
    | some event =>
      rcases closing_cases hclosing with
        ⟨attemptId, responseId, endTurn, usage, rfl⟩ | ⟨decoded, status, herror, hstatus⟩
      · rw [mapAttemptProjection_of_completed hrequest hclosing] at h
        rcases Option.map_eq_some_iff.mp h with ⟨error, -, herror⟩
        exact absurd herror (hdecoded error)
      · rw [mapAttemptProjection_of_error hrequest hclosing herror hstatus] at h
        exact absurd (Option.some.inj h) (hdecoded decoded)

theorem gapReason_projectItem (item : FlowItem) :
    (projectItem client codec toVec m s flowId current index item).records.filterMap gapReason =
      item.gapReason.toList := by
  cases item with
  | exchange exchange =>
    rw [projectItem, projectExchange]
    split <;> simp [exchangeRecords, gapReason, FlowItem.gapReason, CaptureBatch.empty]
  | gap reason lostBytes =>
    rw [projectItem, projectGap]
    cases current with
    | none => rfl
    | some task =>
      simp only [gapTaskRecords, Option.map_some, Option.getD_some]
      split <;> rfl

/-- A gap raises the sequence of the current task, if it is live; an exchange never does for
such a reason. -/
theorem raiseReason_projectItem (item : FlowItem) :
    (((projectItem client codec toVec m s flowId current index item).records.filterMap
      raiseReason).filter fun reason => reason ∈ lossReasons direction).Sublist
        item.gapReason.toList := by
  cases item with
  | exchange exchange =>
    rw [projectItem, projectExchange]
    split
    · have hrecords : (exchangeRecords client m.title m.toTick index exchange codec
          (loadTaskCursor s (exchangeTask client exchange))).filterMap raiseReason =
          (raiseReason (.taskTransition (taskTransitionOf exchange (taskSummaryOf m.title m.toTick
            index exchange (exchangeTask client exchange)
            (loadTaskCursor s (exchangeTask client exchange)))))).toList := by
        rw [exchangeRecords, List.filterMap_cons_none rfl, List.filterMap_cons_none rfl,
          List.filterMap_cons_none rfl, List.filterMap_cons_none rfl, List.filterMap_cons,
          List.filterMap_nil]
        split <;> simp [*]
      rw [hrecords]
      simp only [raiseReason, taskTransitionOf, taskSummaryOf]
      split
      · rename_i loss herror
        rw [Option.toList_some, List.filter_singleton, decide_eq_false (reason_of_exchange herror)]
        exact List.nil_sublist _
      · exact List.nil_sublist _
    · exact List.nil_sublist _
  | gap reason lostBytes =>
    rw [projectItem, projectGap]
    cases current with
    | none => exact List.nil_sublist _
    | some task =>
      simp only [gapTaskRecords, Option.map_some, Option.getD_some]
      split
      · exact List.nil_sublist _
      · exact List.filter_sublist

/-- The records of the items of a segment, item by item. -/
def itemRecords (client : ClientInstance) (codec : Codec) (toVec : List Json → Bytes) (m : Moment)
    (s : Store) (flowId : Uuid) (items : List ((FlowItem × Option TaskKey) × ℕ)) :
    List SummaryRecord :=
  items.flatMap fun x => (projectItem client codec toVec m s flowId x.1.2 x.2 x.1.1).records

theorem gapReason_itemRecords (items : List FlowItem) (n : ℕ) :
    (itemRecords client codec toVec m s flowId
      ((walk client s current items).zipIdx n)).filterMap gapReason = gapReasons items := by
  induction items generalizing current n with
  | nil => rfl
  | cons item items ih =>
    rw [walk, List.zipIdx_cons, itemRecords, List.flatMap_cons, List.filterMap_append,
      gapReason_projectItem, ← itemRecords, ih, gapReasons, gapReasons, List.filterMap_cons]
    cases item.gapReason <;> rfl

theorem raiseReason_itemRecords (items : List FlowItem) (n : ℕ) :
    (((itemRecords client codec toVec m s flowId
      ((walk client s current items).zipIdx n)).filterMap raiseReason).filter
        fun reason => reason ∈ lossReasons direction).Sublist (gapReasons items) := by
  induction items generalizing current n with
  | nil => exact List.Sublist.refl []
  | cons item items ih =>
    rw [walk, List.zipIdx_cons, itemRecords, List.flatMap_cons, List.filterMap_append,
      List.filter_append]
    have hreasons : gapReasons (item :: items) = item.gapReason.toList ++ gapReasons items := by
      rw [gapReasons, gapReasons, List.filterMap_cons]
      cases item.gapReason <;> rfl
    rw [hreasons]
    exact (raiseReason_projectItem item).append (ih _)

end Records

/-! ## The lane -/

section Lane
variable {ι σ : Type} [LinearOrder ι] {parseIp : String → Option ι} {app : Application σ}
  {client : ClientInstance} {codec : Codec} {toVec : List Json → Bytes} {key : FlowKey ι}
  {lane : Lane (FlowKey ι) (FlowDecoders ι σ)} {event : Reception} {events : List Reception}
  {direction : Direction}

/-- What the segment completes in the flow, and what it leaves of it. -/
def pushed (parseIp : String → Option ι) (app : Application σ) (key : FlowKey ι)
    (lane : Lane (FlowKey ι) (FlowDecoders ι σ)) (event : Reception) :
    List FlowItem × FlowEnd (FlowDecoders ι σ) :=
  (flowOf (flowWire parseIp app) event.moment lane event.segment (event.attribution.map Prod.fst)
    (event.attribution.map Prod.snd) key).decoders.push parseIp app event.segment
      event.moment.toTick (event.attribution.map Prod.snd)

variable (app client codec toVec direction) in
/-- The records of a segment say no more of losses than its gaps do. -/
theorem reasons_handled (hkey : flowKeyOf parseIp event.segment = some key) :
    ((handled parseIp app client codec toVec lane event).records.filterMap gapReason).Sublist
        (gapReasons (pushed parseIp app key lane event).1) ∧
      (((handled parseIp app client codec toVec lane event).records.filterMap raiseReason).filter
        fun reason => reason ∈ lossReasons direction).Sublist
          (gapReasons (pushed parseIp app key lane event).1) := by
  rw [handled, handleInput_inputOf]
  cases hhandled : (handleSegment (flowWire parseIp app) client codec toVec event.moment lane
      event.segment (event.attribution.map Prod.fst) (event.attribution.map Prod.snd)).1 with
  | error => exact ⟨List.nil_sublist _, List.nil_sublist _⟩
  | nothing => exact ⟨List.nil_sublist _, List.nil_sublist _⟩
  | batch batch =>
    rcases (handleSegment_cases rfl).2 batch hhandled with ⟨flowId, hrecords⟩
    have hwire : (flowWire parseIp app).flowKey event.segment = some key := hkey
    rw [segmentItems, hwire] at hrecords
    have hitems : batch.records = itemRecords client codec toVec event.moment lane.store flowId
        ((walk client lane.store _ (pushed parseIp app key lane event).1).zipIdx) := hrecords
    rw [Handled.records, hitems]
    exact ⟨(gapReason_itemRecords _ _) ▸ List.Sublist.refl _, raiseReason_itemRecords _ _⟩

/-- The flow goes on with the decoders that the segment leaves. -/
theorem pushed_of_ingested (hkey : flowKeyOf parseIp event.segment = some key)
    {flow : FlowState (FlowDecoders ι σ)}
    (h : (ingested parseIp app client codec toVec lane event).flows.get? key = some flow) :
    (pushed parseIp app key lane event).2 = .ready flow.decoders := by
  have hwire : (flowWire parseIp app).flowKey event.segment = some key := hkey
  rw [ingested, (ingestInput_rest ..).1, handleInput_inputOf,
    handleSegment_eq _ _ _ _ _ _ _ _ _ hwire, Lane.get?_after, if_pos rfl, segmentOutcome] at h
  split at h
  · cases h
  · cases h
  · rename_i decoders hpush
    cases h
    exact hpush

theorem ingested_other (hkey : flowKeyOf parseIp event.segment ≠ some key) :
    (ingested parseIp app client codec toVec lane event).flows.get? key =
      lane.flows.get? key := by
  rw [ingested, (ingestInput_rest ..).1, handleInput_inputOf]
  cases hother : flowKeyOf parseIp event.segment with
  | none =>
    have hwire : (flowWire parseIp app).flowKey event.segment = none := hother
    rw [handleSegment, hwire]
  | some other =>
    have hwire : (flowWire parseIp app).flowKey event.segment = some other := hother
    rw [handleSegment_eq _ _ _ _ _ _ _ _ _ hwire, Lane.get?_after, if_neg]
    rintro rfl
    exact hkey hother

/-- The direction has reported its loss, or the flow is over. -/
def Silent (key : FlowKey ι) (direction : Direction) (lane : Lane (FlowKey ι) (FlowDecoders ι σ)) :
    Prop :=
  ∀ flow, lane.flows.get? key = some flow → (flow.decoders.assembler direction).degraded = true

theorem assembler_oriented {flow : FlowState (FlowDecoders ι σ)}
    (hflow : lane.flows.get? key = some flow) :
    (oriented parseIp app key lane event).2.assembler direction =
      flow.decoders.assembler direction := by
  rw [oriented, found, assembler_orient, flowOf, hflow]
  rfl

/-- Another segment leaves a broken direction broken. -/
theorem Silent.step (h : Silent key direction lane) (hpresent : Present parseIp key lane event)
    (hstream : ¬ InStream parseIp app key direction lane event) :
    Silent key direction (ingested parseIp app client codec toVec lane event) := by
  intro flow hflow
  by_cases hkey : flowKeyOf parseIp event.segment = some key
  · rcases Option.ne_none_iff_exists'.mp (hpresent hkey) with ⟨old, hold⟩
    have hother : direction ≠ (oriented parseIp app key lane event).1 :=
      fun heq => hstream ⟨hkey, heq.symm⟩
    have hready := (push_ready (pushed_of_ingested hkey hflow)).2 direction hother
    rw [hready, flowOf, hold]
    exact h old hold
  · rw [ingested_other hkey] at hflow
    exact h flow hflow

/-- No segment comes in a direction that is broken. -/
theorem Silent.reports_eq_nil (h : Silent key direction lane)
    (hpresent : Run.Each (ingested parseIp app client codec toVec) (Present parseIp key) lane events)
    (hwhole : Run.Each (ingested parseIp app client codec toVec) (Unbroken parseIp app key) lane
      events) : reports parseIp app client codec toVec key direction lane events = [] := by
  induction events generalizing lane with
  | nil => rfl
  | cons event events ih =>
    have hstream : ¬ InStream parseIp app key direction lane event := by
      rintro ⟨hkey, rfl⟩
      rcases Option.ne_none_iff_exists'.mp (hpresent.1 hkey) with ⟨flow, hflow⟩
      have hunbroken := hwhole.1 hkey
      rw [assembler_oriented hflow, h flow hflow] at hunbroken
      cases hunbroken
    rw [reports, if_neg hstream]
    exact ih (h.step hpresent.1 hstream) hpresent.2 hwhole.2

theorem reportedOnce_nil : ReportedOnce direction [] where
  gaps := List.nil_sublist _
  raises := List.nil_sublist _
  priority := Nat.zero_le _

theorem reportedOnce_singleton {records : List SummaryRecord}
    (hgaps : (records.filterMap gapReason).Sublist (lossReasons direction))
    (hraises : ((records.filterMap raiseReason).filter
      fun reason => reason ∈ lossReasons direction).Sublist (lossReasons direction)) :
    ReportedOnce direction [records] where
  gaps := by simpa using hgaps
  raises := by simpa using hraises
  priority := List.length_filter_le _ _

theorem ReportedOnce.cons {batches : List (List SummaryRecord)} {records : List SummaryRecord}
    (h : ReportedOnce direction batches) (hgaps : records.filterMap gapReason = [])
    (hraises : (records.filterMap raiseReason).filter
      (fun reason => reason ∈ lossReasons direction) = []) :
    ReportedOnce direction (records :: batches) where
  gaps := by simpa [hgaps] using h.gaps
  raises := by simpa [hraises] using h.raises
  priority := by simpa [hgaps] using h.priority

/-- A segment reports nothing, or its direction is silent afterwards. -/
theorem reportedOnce_cons
    (hpresent : Run.Each (ingested parseIp app client codec toVec) (Present parseIp key)
      (ingested parseIp app client codec toVec lane event) events)
    (hwhole : Run.Each (ingested parseIp app client codec toVec) (Unbroken parseIp app key)
      (ingested parseIp app client codec toVec lane event) events)
    (hrest : ReportedOnce direction (reports parseIp app client codec toVec key direction
      (ingested parseIp app client codec toVec lane event) events)) :
    ReportedOnce direction
      (reports parseIp app client codec toVec key direction lane (event :: events)) := by
  rw [reports]
  split
  · rename_i hstream
    rcases hstream with ⟨hkey, rfl⟩
    rcases reasons_handled app client codec toVec (oriented parseIp app key lane event).1 hkey with
      ⟨hgaps, hraises⟩
    by_cases hsilent : Silent key (oriented parseIp app key lane event).1
        (ingested parseIp app client codec toVec lane event)
    · rw [hsilent.reports_eq_nil hpresent hwhole]
      exact reportedOnce_singleton (hgaps.trans gapReasons_push) (hraises.trans gapReasons_push)
    · -- The flow goes on with an assembler that has not given up.
      simp only [Silent, not_forall, Bool.not_eq_true] at hsilent
      rcases hsilent with ⟨flow, hflow, hdegraded⟩
      have hnone := (push_ready (pushed_of_ingested hkey hflow)).1 hdegraded
      rw [← pushed] at hnone
      rw [hnone] at hgaps hraises
      exact hrest.cons (List.sublist_nil.mp hgaps) (List.sublist_nil.mp hraises)
  · exact hrest

/-- While no segment comes in a direction that has given up, each direction of a flow reports
its loss once. The first segment may open the flow, the others find it. -/
theorem reportedOnce_of_unbroken
    (hpresent : Run.Each (ingested parseIp app client codec toVec) (Present parseIp key)
      (ingested parseIp app client codec toVec lane event) events)
    (hwhole : Run.Each (ingested parseIp app client codec toVec) (Unbroken parseIp app key) lane
      (event :: events)) :
    ReportedOnce direction
      (reports parseIp app client codec toVec key direction lane (event :: events)) := by
  induction events generalizing lane event with
  | nil => exact reportedOnce_cons hpresent hwhole.2 reportedOnce_nil
  | cons next events ih =>
    exact reportedOnce_cons hpresent hwhole.2 (ih hpresent.2 hwhole.2)

theorem records_ofBatch (batch : CaptureBatch) : (Handled.ofBatch batch).records = batch.records := by
  rw [Handled.ofBatch]
  split
  · rename_i hempty
    rw [CaptureBatch.isEmpty, Bool.and_eq_true, List.isEmpty_iff] at hempty
    rw [Handled.records, hempty.1]
  · rfl

/-- Unless the decoders fail, every gap is reported. -/
theorem gapReason_handled (hkey : flowKeyOf parseIp event.segment = some key)
    (hgoes : (pushed parseIp app key lane event).2 ≠ .failed) :
    (handled parseIp app client codec toVec lane event).records.filterMap gapReason =
      gapReasons (pushed parseIp app key lane event).1 := by
  have hwire : (flowWire parseIp app).flowKey event.segment = some key := hkey
  have hconsumed : (segmentConsumed (flowWire parseIp app) client codec toVec event.moment lane
      event.segment (event.attribution.map Prod.fst) (event.attribution.map Prod.snd)
      key).batch.records.filterMap gapReason = gapReasons (pushed parseIp app key lane event).1 := by
    rw [segmentConsumed, records_foldl_consume, CaptureBatch.empty, List.nil_append]
    exact gapReason_itemRecords _ _
  rw [handled, handleInput_inputOf, handleSegment_eq _ _ _ _ _ _ _ _ _ hwire, segmentOutcome]
  split
  · rename_i hfailed
    exact absurd hfailed hgoes
  · exact (congrArg _ (records_ofBatch _)).trans hconsumed
  · exact (congrArg _ (records_ofBatch _)).trans hconsumed

/-- A segment that comes in a direction that has given up is reported once more. -/
theorem reported_of_broken (hkey : flowKeyOf parseIp event.segment = some key)
    (hbroken : ((oriented parseIp app key lane event).2.assembler
      (oriented parseIp app key lane event).1).degraded = true) :
    "tcp_reassembly_gap" ∈
      (handled parseIp app client codec toVec lane event).records.filterMap gapReason := by
  have hpushed : ((oriented parseIp app key lane event).2.assembler
      (oriented parseIp app key lane event).1).pushSegment SEQUENCE_SPACE event.segment.toSegment =
        (.conflictDetected, _) := pushSegment_of_degraded hbroken
  have haccept : ∃ d, (oriented parseIp app key lane event).2.accept app event.segment
      event.moment.toTick (oriented parseIp app key lane event).1 =
        ([.gap "tcp_reassembly_gap" (some event.segment.payload.length)], some d) := by
    rw [FlowDecoders.accept, hpushed]
    exact ⟨_, rfl⟩
  rcases haccept with ⟨d, haccept⟩
  have hpush : pushed parseIp app key lane event =
      ([.gap "tcp_reassembly_gap" (some event.segment.payload.length)] ++
        (d.close event.segment (oriented parseIp app key lane event).1).1,
        if (d.close event.segment (oriented parseIp app key lane event).1).2.clientClosed &&
          (d.close event.segment (oriented parseIp app key lane event).1).2.serverClosed then .closed
        else .ready (d.close event.segment (oriented parseIp app key lane event).1).2) := by
    rw [oriented, found] at haccept ⊢
    rw [pushed, FlowDecoders.push]
    simp only [haccept]
  rw [gapReason_handled hkey, hpush, gapReasons_append]
  · exact List.mem_append_left _ List.mem_cons_self
  · rw [hpush]
    dsimp only
    split <;> simp

end Lane

/-! ## A flow with a loss -/

/-- The client opens, and then its data is far ahead. -/
def lossyOpening : List Reception :=
  [reception 0 999 true true false [], reception 1 400000 true false false [1]]

/-- More data, still of the same loss. -/
def lossyRest : List Reception :=
  [reception 2 400001 true false false [2], reception 3 400002 true false false [3]]

abbrev sampleKey : FlowKey ℕ := ⟨⟨1, 50000⟩, ⟨2, 443⟩⟩

theorem reportedOnce_lossyOpening :
    ReportedOnce .clientToServer (reports sampleIp silent sampleClient (.numbered []) (fun _ => [])
      sampleKey .clientToServer emptyFlows lossyOpening) := by
  refine reportedOnce_of_unbroken ?_ ?_
  · refine ⟨fun _ => ?_, trivial⟩
    decide +kernel
  · refine ⟨fun _ => ?_, fun _ => ?_, trivial⟩ <;> decide +kernel

/-- One loss, and a gap for each segment from then on. -/
theorem not_reportedOnce_lossy :
    (reports sampleIp silent sampleClient (.numbered []) (fun _ => []) sampleKey .clientToServer
        emptyFlows (lossyOpening ++ lossyRest)).flatten.filterMap gapReason =
      ["tcp_reassembly_gap", "tcp_reassembly_gap", "tcp_reassembly_gap"] ∧
    ¬ ReportedOnce .clientToServer (reports sampleIp silent sampleClient (.numbered [])
      (fun _ => []) sampleKey .clientToServer emptyFlows (lossyOpening ++ lossyRest)) := by
  have hreasons : (reports sampleIp silent sampleClient (.numbered []) (fun _ => []) sampleKey
      .clientToServer emptyFlows (lossyOpening ++ lossyRest)).flatten.filterMap gapReason =
      ["tcp_reassembly_gap", "tcp_reassembly_gap", "tcp_reassembly_gap"] := by
    decide +kernel
  refine ⟨hreasons, fun h => ?_⟩
  have hgaps := h.gaps.length_le
  rw [hreasons] at hgaps
  revert hgaps
  decide

end Codexwatch.Client
