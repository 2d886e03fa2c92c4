import Codexwatch.Client.Lane
import Codexwatch.Lib.Run

/-!
# The table of flows

What `handle_segment` of `client/src/capture_lane.rs` writes with `note_flow_open` and
`note_flow_closed` of `client/src/store.rs`: a row for every flow from its first segment on, which
is closed with its last one. What the other tasks of the client do to the store comes in between.

The row of a flow that an error takes out of the lane is never closed, and neither are the rows
that are open when the client stops. `health_snapshot` counts them all.

## Main definitions

* `segmentFlows` — the table after a segment.
* `Recorder.step` — an input, or a transaction of another task.
* `Accounts` — which rows are open.

## Main results

* `accounts_run` — the open rows after any run.
* `rowsAdvance_run` — a row is closed once at most.
-/
namespace Codexwatch.Client

open Protocol Capture Relational

structure FlowRow where
  clientInstanceId : Uuid
  processInstanceId : Option Uuid
  localAddr : String
  remoteAddr : String
  transport : String
  createdAt : ℤ
  closedAt : Option ℤ
  deriving DecidableEq

abbrev FlowTable := Table Uuid FlowRow

namespace FlowTable

def noteFlowOpen (flows : FlowTable) (client : ClientInstance) (flowId : Uuid)
    (processInstanceId : Option Uuid) (localAddr remoteAddr transport : String)
    (createdAt : OffsetDateTime) : FlowTable :=
  flows.insertIgnore flowId
    ⟨client.instanceId, processInstanceId, localAddr, remoteAddr, transport, ts createdAt, none⟩

def noteFlowClosed (flows : FlowTable) (flowId : Uuid) (closedAt : OffsetDateTime) : FlowTable :=
  flows.modify flowId fun row => { row with closedAt := some (ts closedAt) }

def isOpen (row : FlowRow) : Bool := row.closedAt = none

/-- The `active_flows` of `health_snapshot`. -/
def activeFlows (flows : FlowTable) : ℕ := flows.countWhere fun _ row => isOpen row

def Open (flows : FlowTable) (flowId : Uuid) : Prop :=
  ∃ row, flows.get? flowId = some row ∧ row.closedAt = none

end FlowTable

/-! ## The writes of the lane -/

section Lane
variable {κ σ : Type} [DecidableEq κ] (wire : Wire κ σ) (ends : σ → String × String)
  (client : ClientInstance) (codec : Codec) (toVec : List Json → Bytes) (m : Moment)

def segmentFlows (lane : Lane κ σ) (segment : TcpSegment) (processInstanceId : Option Uuid)
    (direction : Option ProcessFlowDirection) (flows : FlowTable) : FlowTable :=
  match wire.flowKey segment with
  | none => flows
  | some key =>
      let flow := flowOf wire m lane segment processInstanceId direction key
      let opened := flows.noteFlowOpen client flow.flowId flow.processInstanceId
        (ends flow.decoders).1 (ends flow.decoders).2 "tcp" m.now
      match (wire.push m.toTick flow.decoders segment direction).2 with
      | .closed => opened.noteFlowClosed flow.flowId m.now
      | .failed | .ready _ => opened

/-- The flow that a segment takes out of the lane without closing its row. -/
def segmentLoss (lane : Lane κ σ) (segment : TcpSegment) (processInstanceId : Option Uuid)
    (direction : Option ProcessFlowDirection) : Option Uuid :=
  (wire.flowKey segment).bind fun key =>
    let flow := flowOf wire m lane segment processInstanceId direction key
    match (wire.push m.toTick flow.decoders segment direction).2 with
    | .failed => some flow.flowId
    | .closed | .ready _ => none

def inputFlows (lane : Lane κ σ) (flows : FlowTable) : CaptureInput → FlowTable
  | .tcpSegment segment => segmentFlows wire ends client m lane segment none none flows
  | .attributedTcpSegment segment processInstanceId direction =>
      segmentFlows wire ends client m lane segment (some processInstanceId) (some direction) flows
  | .captureGap .. | .processObserved _ | .processExit _ => flows

def inputLoss (lane : Lane κ σ) : CaptureInput → Option Uuid
  | .tcpSegment segment => segmentLoss wire m lane segment none none
  | .attributedTcpSegment segment processInstanceId direction =>
      segmentLoss wire m lane segment (some processInstanceId) (some direction)
  | .captureGap .. | .processObserved _ | .processExit _ => none

end Lane

/-- The lane, and the table that it writes besides. -/
structure Recorder (κ σ : Type) [DecidableEq κ] where
  lane : Lane κ σ
  flows : FlowTable

inductive RecorderEvent
  | ingest (m : Moment) (input : CaptureInput)
  /-- Another task of the client has written to the store. -/
  | other (transaction : Store → Store)

section Recorder
variable {κ σ : Type} [DecidableEq κ] (wire : Wire κ σ) (ends : σ → String × String)
  (client : ClientInstance) (codec : Codec) (toVec : List Json → Bytes)

def Recorder.step (r : Recorder κ σ) : RecorderEvent → Recorder κ σ
  | .ingest m input =>
      { lane := (ingestInput wire client codec toVec m r.lane input).2
        flows := inputFlows wire ends client m r.lane r.flows input }
  | .other transaction => { r with lane := { r.lane with store := transaction r.lane.store } }

def RecorderEvent.loss (r : Recorder κ σ) : RecorderEvent → Option Uuid
  | .ingest m input => inputLoss wire m r.lane input
  | .other _ => none

/-- The identifier drawn for a flow is not in the table. -/
def RecorderEvent.Fresh (r : Recorder κ σ) : RecorderEvent → Prop
  | .ingest m _ => r.flows.get? (m.ids .flow) = none
  | .other _ => True

instance (r : Recorder κ σ) : ∀ e, Decidable (RecorderEvent.Fresh r e)
  | .ingest m _ => inferInstanceAs (Decidable (r.flows.get? (m.ids .flow) = none))
  | .other _ => .isTrue trivial

end Recorder

/-! ## Open rows -/

/-- Since the table was `before`, the flows of the list have come, and are open. -/
structure Accounts (before flows : FlowTable) (ids : List Uuid) : Prop where
  nodup : ids.Nodup
  opened : ∀ id ∈ ids, before.get? id = none ∧ flows.Open id
  kept : ∀ id row, before.get? id = some row → flows.get? id = some row
  only : ∀ id, flows.Open id → before.Open id ∨ id ∈ ids

section Accounts
variable {before flows : FlowTable} {ids ids' : List Uuid} {id : Uuid}

theorem accounts_self (flows : FlowTable) : Accounts flows flows [] where
  nodup := List.nodup_nil
  opened id hid := by simp at hid
  kept _ _ h := h
  only _ h := .inl h

theorem Accounts.perm (h : Accounts before flows ids) (hperm : ids.Perm ids') :
    Accounts before flows ids' where
  nodup := hperm.nodup_iff.mp h.nodup
  opened id hid := h.opened id (hperm.mem_iff.mpr hid)
  kept := h.kept
  only id hopen := (h.only id hopen).imp_right hperm.mem_iff.mp

variable (client : ClientInstance) (processInstanceId : Option Uuid)
  (localAddr remoteAddr transport : String) (now : OffsetDateTime)

/-- The row of a flow is there already. -/
theorem Accounts.again (h : Accounts before flows ids) (hid : id ∈ ids) :
    Accounts before (flows.noteFlowOpen client id processInstanceId localAddr remoteAddr transport
      now) ids := by
  rcases (h.opened id hid).2 with ⟨row, hrow, -⟩
  rw [FlowTable.noteFlowOpen, Table.insertIgnore_of_some hrow]
  exact h

theorem Accounts.open (h : Accounts before flows ids) (hfresh : flows.get? id = none) :
    Accounts before (flows.noteFlowOpen client id processInstanceId localAddr remoteAddr transport
      now) (id :: ids) := by
  have hget (k : Uuid) (hk : k ≠ id) : (flows.noteFlowOpen client id processInstanceId localAddr
      remoteAddr transport now).get? k = flows.get? k := by
    rw [FlowTable.noteFlowOpen, Table.insertIgnore_of_none hfresh, Table.get?_put_of_ne hk]
  have hnew : (flows.noteFlowOpen client id processInstanceId localAddr remoteAddr transport
      now).Open id := by
    rw [FlowTable.noteFlowOpen, Table.insertIgnore_of_none hfresh]
    exact ⟨_, Table.get?_put_self _ _ _, rfl⟩
  have hbefore : before.get? id = none := by
    by_contra hsome
    rcases Option.ne_none_iff_exists'.mp hsome with ⟨row, hrow⟩
    rw [h.kept id row hrow] at hfresh
    cases hfresh
  have hne (k : Uuid) (row : FlowRow) (hrow : flows.get? k = some row) : k ≠ id := by
    rintro rfl
    cases hrow.symm.trans hfresh
  refine ⟨?_, ?_, ?_, ?_⟩
  · refine List.nodup_cons.mpr ⟨fun hid => ?_, h.nodup⟩
    rcases (h.opened id hid).2 with ⟨row, hrow, -⟩
    exact hne id row hrow rfl
  · intro k hk
    rcases List.mem_cons.mp hk with rfl | hk
    · exact ⟨hbefore, hnew⟩
    · rcases h.opened k hk with ⟨hnone, row, hrow, hopen⟩
      exact ⟨hnone, row, (hget k (hne k row hrow)).trans hrow, hopen⟩
  · intro k row hrow
    have hkept := h.kept k row hrow
    rw [hget k (hne k row hkept), hkept]
  · intro k hopen
    by_cases hk : k = id
    · exact .inr (List.mem_cons.mpr (.inl hk))
    · rcases hopen with ⟨row, hrow, hclosed⟩
      rw [hget k hk] at hrow
      exact (h.only k ⟨row, hrow, hclosed⟩).imp_right (List.mem_cons_of_mem id)

theorem Accounts.close (h : Accounts before flows (id :: ids)) :
    Accounts before (flows.noteFlowClosed id now) ids := by
  have hget (k : Uuid) (hk : k ≠ id) : (flows.noteFlowClosed id now).get? k = flows.get? k := by
    rw [FlowTable.noteFlowClosed, Table.get?_modify, if_neg hk]
  rcases List.nodup_cons.mp h.nodup with ⟨hnot, hnodup⟩
  refine ⟨hnodup, ?_, ?_, ?_⟩
  · intro k hk
    rcases h.opened k (List.mem_cons_of_mem id hk) with ⟨hnone, row, hrow, hopen⟩
    exact ⟨hnone, row, (hget k fun heq => hnot (heq ▸ hk)).trans hrow, hopen⟩
  · intro k row hrow
    have hk : k ≠ id := by
      rintro rfl
      cases hrow.symm.trans (h.opened k List.mem_cons_self).1
    rw [hget k hk, h.kept k row hrow]
  · rintro k ⟨row, hrow, hopen⟩
    by_cases hk : k = id
    · subst hk
      rw [FlowTable.noteFlowClosed, Table.get?_modify, if_pos rfl, Option.map_eq_some_iff] at hrow
      rcases hrow with ⟨old, -, rfl⟩
      cases hopen
    · rw [hget k hk] at hrow
      rcases h.only k ⟨row, hrow, hopen⟩ with hbefore | hid
      · exact .inl hbefore
      · exact .inr ((List.mem_cons.mp hid).resolve_left hk)

/-- The flows with an open row. -/
def openIds (flows : FlowTable) : List Uuid :=
  (flows.rows.filter fun row => FlowTable.isOpen row.2).map Prod.fst

theorem mem_openIds : id ∈ openIds flows ↔ flows.Open id := by
  simp only [openIds, FlowTable.Open, FlowTable.isOpen, List.mem_map, List.mem_filter,
    decide_eq_true_eq]
  constructor
  · rintro ⟨row, ⟨hrow, hopen⟩, rfl⟩
    exact ⟨row.2, Table.mem_rows_iff.mp hrow, hopen⟩
  · rintro ⟨row, hrow, hopen⟩
    exact ⟨(id, row), ⟨Table.get?_eq_some.mp hrow, hopen⟩, rfl⟩

theorem nodup_openIds (flows : FlowTable) : (openIds flows).Nodup :=
  flows.nodup.sublist (List.filter_sublist.map _)

theorem Accounts.openIds_perm (h : Accounts before flows ids) :
    (openIds flows).Perm (openIds before ++ ids) := by
  have hdisjoint : List.Disjoint (openIds before) ids := by
    intro id hbefore hid
    rcases mem_openIds.mp hbefore with ⟨row, hrow, -⟩
    cases hrow.symm.trans (h.opened id hid).1
  rw [List.perm_ext_iff_of_nodup (nodup_openIds flows)
    (List.nodup_append'.mpr ⟨nodup_openIds before, h.nodup, hdisjoint⟩)]
  intro id
  rw [mem_openIds, List.mem_append, mem_openIds]
  refine ⟨h.only id, fun hid => ?_⟩
  rcases hid with ⟨row, hrow, hopen⟩ | hid
  · exact ⟨row, h.kept id row hrow, hopen⟩
  · exact (h.opened id hid).2

theorem activeFlows_eq_length (flows : FlowTable) :
    flows.activeFlows = (openIds flows).length := by
  rw [FlowTable.activeFlows, Table.countWhere, openIds, List.length_map,
    List.countP_eq_length_filter]

/-- The open rows are those from before and those of the flows. -/
theorem Accounts.activeFlows_eq (h : Accounts before flows ids) :
    flows.activeFlows = before.activeFlows + ids.length := by
  rw [activeFlows_eq_length, h.openIds_perm.length_eq, List.length_append, activeFlows_eq_length]

end Accounts

/-! ## Rows over time -/

/-- A row stays, and changes when it is closed and then no more. -/
def RowsAdvance (flows flows' : FlowTable) : Prop :=
  ∀ id row, flows.get? id = some row → flows'.get? id = some row ∨
    row.closedAt = none ∧ ∃ closedAt,
      flows'.get? id = some { row with closedAt := some closedAt }

section RowsAdvance
variable {flows flows' flows'' : FlowTable}

theorem RowsAdvance.refl (flows : FlowTable) : RowsAdvance flows flows := fun _ _ h => .inl h

theorem RowsAdvance.trans (h : RowsAdvance flows flows') (h' : RowsAdvance flows' flows'') :
    RowsAdvance flows flows'' := by
  intro id row hrow
  rcases h id row hrow with hsame | ⟨hopen, closedAt, hclosed⟩
  · exact h' id row hsame
  · rcases h' id _ hclosed with hsame | ⟨hagain, -⟩
    · exact .inr ⟨hopen, closedAt, hsame⟩
    · cases hagain

theorem rowsAdvance_noteFlowOpen (flows : FlowTable) (client : ClientInstance) (flowId : Uuid)
    (processInstanceId : Option Uuid) (localAddr remoteAddr transport : String)
    (now : OffsetDateTime) : RowsAdvance flows (flows.noteFlowOpen client flowId processInstanceId
      localAddr remoteAddr transport now) := by
  intro id row hrow
  refine .inl ?_
  rw [FlowTable.noteFlowOpen, Table.get?_insertIgnore]
  by_cases hid : id = flowId
  · subst hid
    simp [hrow]
  · rw [if_neg hid, hrow]

theorem rowsAdvance_noteFlowClosed {flowId : Uuid} (h : flows.Open flowId) (now : OffsetDateTime) :
    RowsAdvance flows (flows.noteFlowClosed flowId now) := by
  intro id row hrow
  rw [FlowTable.noteFlowClosed, Table.get?_modify]
  by_cases hid : id = flowId
  · subst hid
    rcases h with ⟨row', hrow', hopen⟩
    obtain rfl := Option.some.inj (hrow.symm.trans hrow')
    exact .inr ⟨hopen, ts now, by rw [if_pos rfl, hrow]; rfl⟩
  · exact .inl (by rw [if_neg hid, hrow])

end RowsAdvance

/-! ## A segment -/

section Lane
variable {κ σ : Type} [DecidableEq κ]

/-- The flows that the lane holds. -/
def tracked (lane : Lane κ σ) : List Uuid := lane.flows.rows.map fun row => row.2.flowId

/-- Those under other keys. -/
def others (lane : Lane κ σ) (key : κ) : List Uuid :=
  (lane.flows.deleteWhere fun k _ => k = key).rows.map fun row => row.2.flowId

theorem tracked_of_some {lane : Lane κ σ} {key : κ} {flow : FlowState σ}
    (h : lane.flows.get? key = some flow) :
    (tracked lane).Perm (flow.flowId :: others lane key) := (Table.perm_delete h).map _

theorem tracked_of_none {lane : Lane κ σ} {key : κ} (h : lane.flows.get? key = none) :
    tracked lane = others lane key := by
  have hrows : (lane.flows.deleteWhere fun k _ => k = key).rows = lane.flows.rows := by
    refine List.filter_eq_self.mpr fun row hrow => ?_
    simp [Table.get?_eq_none.mp h row hrow]
  rw [tracked, others, hrows]

theorem tracked_after (lane : Lane κ σ) (key : κ) (outcome : SegmentOutcome σ) :
    tracked (lane.after key outcome) =
      others lane key ++ (outcome.flow.map FlowState.flowId).toList := by
  rw [tracked, others, Lane.after]
  cases outcome.flow with
  | none => simp
  | some flow =>
      have hnone : (lane.flows.deleteWhere fun k _ => k = key).get? key = none := by
        rw [Table.get?_delete, if_pos rfl]
      simp [Table.rows_put_of_none hnone]

variable {wire : Wire κ σ} {ends : σ → String × String} {client : ClientInstance} {codec : Codec}
  {toVec : List Json → Bytes} {m : Moment} {before flows : FlowTable} {lost : List Uuid}
  {lane : Lane κ σ}

variable (wire client m) in
/-- The flow of a segment, with those under other keys, after `note_flow_open`. -/
theorem accounts_opened (segment : TcpSegment) (processInstanceId : Option Uuid)
    (direction : Option ProcessFlowDirection) (key : κ) (localAddr remoteAddr : String)
    (h : Accounts before flows (tracked lane ++ lost))
    (hfresh : flows.get? (m.ids .flow) = none) :
    Accounts before (flows.noteFlowOpen client
        (flowOf wire m lane segment processInstanceId direction key).flowId
        (flowOf wire m lane segment processInstanceId direction key).processInstanceId
        localAddr remoteAddr "tcp" m.now)
      ((flowOf wire m lane segment processInstanceId direction key).flowId ::
        (others lane key ++ lost)) := by
  cases hget : lane.flows.get? key with
  | none =>
      have hid : (flowOf wire m lane segment processInstanceId direction key).flowId =
          m.ids .flow := by simp [flowOf, hget]
      rw [tracked_of_none hget] at h
      rw [hid]
      exact h.open _ _ _ _ _ _ hfresh
  | some flow =>
      have hid : (flowOf wire m lane segment processInstanceId direction key).flowId =
          flow.flowId := by simp [flowOf, hget]
      rw [hid]
      exact (h.perm ((tracked_of_some hget).append_right lost)).again _ _ _ _ _ _
        List.mem_cons_self

theorem accounts_segment (segment : TcpSegment) (processInstanceId : Option Uuid)
    (direction : Option ProcessFlowDirection)
    (h : Accounts before flows (tracked lane ++ lost))
    (hfresh : flows.get? (m.ids .flow) = none) :
    Accounts before
      (segmentFlows wire ends client m lane segment processInstanceId direction flows)
      (tracked (handleSegment wire client codec toVec m lane segment processInstanceId direction).2
        ++ (lost ++ (segmentLoss wire m lane segment processInstanceId direction).toList)) := by
  cases hkey : wire.flowKey segment with
  | none => simpa [segmentFlows, segmentLoss, handleSegment, hkey] using h
  | some key =>
      rw [handleSegment_eq wire client codec toVec m lane segment processInstanceId direction hkey,
        tracked_after]
      simp only [segmentFlows, segmentLoss, hkey, segmentOutcome, Option.bind_some]
      generalize hflow : flowOf wire m lane segment processInstanceId direction key = flow
      have hopened := accounts_opened wire client m segment processInstanceId direction key
        (ends flow.decoders).1 (ends flow.decoders).2 h hfresh
      rw [hflow] at hopened
      cases (wire.push m.toTick flow.decoders segment direction).2 with
      | failed =>
          refine hopened.perm ?_
          simp only [Option.map_none, Option.toList_none, List.append_nil, Option.toList_some]
          rw [← List.append_assoc]
          exact (List.perm_append_singleton _ _).symm
      | closed => simpa using hopened.close m.now
      | ready decoders =>
          refine hopened.perm ?_
          simp only [Option.map_some, Option.toList_some, Option.toList_none, List.append_nil]
          rw [List.append_assoc]
          exact List.perm_middle.symm

theorem rowsAdvance_segment (segment : TcpSegment) (processInstanceId : Option Uuid)
    (direction : Option ProcessFlowDirection)
    (h : Accounts before flows (tracked lane ++ lost))
    (hfresh : flows.get? (m.ids .flow) = none) :
    RowsAdvance flows
      (segmentFlows wire ends client m lane segment processInstanceId direction flows) := by
  cases hkey : wire.flowKey segment with
  | none =>
      simp only [segmentFlows, hkey]
      exact .refl flows
  | some key =>
      simp only [segmentFlows, hkey]
      generalize hflow : flowOf wire m lane segment processInstanceId direction key = flow
      have hopened := accounts_opened wire client m segment processInstanceId direction key
        (ends flow.decoders).1 (ends flow.decoders).2 h hfresh
      rw [hflow] at hopened
      have hadvances := rowsAdvance_noteFlowOpen flows client flow.flowId flow.processInstanceId
        (ends flow.decoders).1 (ends flow.decoders).2 "tcp" m.now
      cases (wire.push m.toTick flow.decoders segment direction).2 with
      | failed => exact hadvances
      | closed =>
          exact hadvances.trans
            (rowsAdvance_noteFlowClosed (hopened.opened _ List.mem_cons_self).2 m.now)
      | ready decoders => exact hadvances

theorem rowsAdvance_step {r : Recorder κ σ} {e : RecorderEvent}
    (h : Accounts before r.flows (tracked r.lane ++ lost)) (hfresh : e.Fresh r) :
    RowsAdvance r.flows (r.step wire ends client codec toVec e).flows := by
  cases e with
  | other transaction => exact .refl r.flows
  | ingest m input =>
      cases input with
      | tcpSegment segment => exact rowsAdvance_segment segment none none h hfresh
      | attributedTcpSegment segment processInstanceId direction =>
          exact rowsAdvance_segment segment (some processInstanceId) (some direction) h hfresh
      | captureGap flowId task observedAt reason lostBytes => exact .refl r.flows
      | processObserved process => exact .refl r.flows
      | processExit process => exact .refl r.flows

theorem accounts_step {r : Recorder κ σ} {e : RecorderEvent}
    (h : Accounts before r.flows (tracked r.lane ++ lost)) (hfresh : e.Fresh r) :
    Accounts before (r.step wire ends client codec toVec e).flows
      (tracked (r.step wire ends client codec toVec e).lane ++
        (lost ++ (e.loss wire r).toList)) := by
  cases e with
  | other transaction => simpa [Recorder.step, RecorderEvent.loss, tracked] using h
  | ingest m input =>
      have hflows : (ingestInput wire client codec toVec m r.lane input).2.flows =
          (handleInput wire client codec toVec m r.lane input).2.flows := by
        rw [ingestInput]
        split
        · rfl
        · rfl
        · split <;> rfl
      have htracked : tracked (ingestInput wire client codec toVec m r.lane input).2 =
          tracked (handleInput wire client codec toVec m r.lane input).2 := by
        rw [tracked, tracked, hflows]
      simp only [Recorder.step, RecorderEvent.loss, htracked]
      cases input with
      | tcpSegment segment => exact accounts_segment segment none none h hfresh
      | attributedTcpSegment segment processInstanceId direction =>
          exact accounts_segment segment (some processInstanceId) (some direction) h hfresh
      | captureGap flowId task observedAt reason lostBytes =>
          simpa [inputFlows, inputLoss, handleInput] using h
      | processObserved process => simpa [inputFlows, inputLoss, handleInput] using h
      | processExit process => simpa [inputFlows, inputLoss, handleInput, tracked] using h

/-- What takes a flow out of the lane is answered with an error. -/
theorem ingestInput_of_loss {input : CaptureInput} {flowId : Uuid}
    (h : inputLoss wire m lane input = some flowId) :
    (ingestInput wire client codec toVec m lane input).1 = .error := by
  have hsegment (segment : TcpSegment) (processInstanceId : Option Uuid)
      (direction : Option ProcessFlowDirection)
      (hloss : segmentLoss wire m lane segment processInstanceId direction = some flowId) :
      (handleSegment wire client codec toVec m lane segment processInstanceId direction).1 =
        .error := by
    rw [segmentLoss, Option.bind_eq_some_iff] at hloss
    rcases hloss with ⟨key, hkey, hloss⟩
    rw [handleSegment_eq wire client codec toVec m lane segment processInstanceId direction hkey]
    simp only [segmentOutcome] at hloss ⊢
    cases hpush : (wire.push m.toTick
        (flowOf wire m lane segment processInstanceId direction key).decoders segment
        direction).2 with
    | failed => rfl
    | closed => simp [hpush] at hloss
    | ready decoders => simp [hpush] at hloss
  have hhandled : (handleInput wire client codec toVec m lane input).1 = .error := by
    cases input with
    | tcpSegment segment => exact hsegment segment none none h
    | attributedTcpSegment segment processInstanceId direction =>
        exact hsegment segment (some processInstanceId) (some direction) h
    | captureGap | processObserved | processExit => cases h
  rw [ingestInput, hhandled]

variable (wire ends client codec toVec) in
/-- The flows that a run takes out of the lane without closing their rows. -/
def lostFlows (r : Recorder κ σ) (es : List RecorderEvent) : List Uuid :=
  Run.trace (Recorder.step wire ends client codec toVec) (fun r e => (e.loss wire r).toList) r es

/-- After a run the open rows are those from before, those of the flows that the lane holds, and
those of the flows that it has lost. -/
theorem accounts_run {r : Recorder κ σ} {es : List RecorderEvent}
    (h : Accounts before r.flows (tracked r.lane ++ lost))
    (hfresh : Run.Each (Recorder.step wire ends client codec toVec)
      (fun r e => RecorderEvent.Fresh r e) r es) :
    Accounts before (Run.run (Recorder.step wire ends client codec toVec) r es).flows
      (tracked (Run.run (Recorder.step wire ends client codec toVec) r es).lane ++
        (lost ++ lostFlows wire ends client codec toVec r es)) := by
  induction es generalizing r lost with
  | nil => simpa [lostFlows, Run.trace] using h
  | cons e es ih =>
      have hrest := ih (accounts_step h hfresh.1) hfresh.2
      rw [List.append_assoc] at hrest
      exact hrest

theorem rowsAdvance_run {r : Recorder κ σ} {es : List RecorderEvent}
    (h : Accounts before r.flows (tracked r.lane ++ lost))
    (hfresh : Run.Each (Recorder.step wire ends client codec toVec)
      (fun r e => RecorderEvent.Fresh r e) r es) :
    RowsAdvance r.flows (Run.run (Recorder.step wire ends client codec toVec) r es).flows := by
  induction es generalizing r lost with
  | nil => exact .refl r.flows
  | cons e es ih =>
      exact (rowsAdvance_step h hfresh.1).trans (ih (accounts_step h hfresh.1) hfresh.2)

end Lane

end Codexwatch.Client
