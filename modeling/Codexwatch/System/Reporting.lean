import Codexwatch.Client.Uploads
import Codexwatch.Server.Cleanup
import Codexwatch.System.Delivery

/-!
# From the client's store to the server

The system of `Delivery` with the whole store in place of a bare outbox: batches come from
transactions of `persist_ingress`, which record all of their batches or none. The server's
cleanup runs as well. A run without it is a run of `Delivery`, event by event; with it, a
batch may be applied again when its receipt is gone, but still none is lost.

## Main definitions

* `World`, `step` — the system.
* `recordedBatches` — the batches of a transaction.
* `Delivered` — what a run guarantees.

## Main results

* `view_step` — a step is the steps of `Delivery` that it emits.
* `recorded_run`.
-/
namespace Codexwatch.System.Reporting

open Protocol Client Server Relational

inductive Event
  /-- A transaction of the client. -/
  | persist (t : Tick) (records : List SummaryRecord) (contents : List StoredContentInput)
  /-- Uploads, commands and cleanup leave the client's full content so. -/
  | tend (contents : Contents)
  /-- `flush_outbox_once` sends the next due batch. -/
  | send (now : OffsetDateTime)
  | deliver (request : ℕ) (now : TimestampMs)
  | acknowledge (reply : ℕ) (nowMs : ℤ)
  | retry (batchId : Uuid) (error : String) (now : OffsetDateTime)
  /-- Another request reaches the server. -/
  | post (principal : Principal) (body : Bytes) (now : TimestampMs)
  /-- A statement of the server's cleanup. -/
  | sweep (sweep : Sweep) (now : TimestampMs)

structure World where
  store : Store
  /-- Every batch that a transaction recorded. -/
  batches : List IngestBatch
  requests : List Bytes
  replies : List IngestAck
  server : Database
  /-- The batches whose writes were done, in order. -/
  log : List Effect

def World.start : World := ⟨.empty, [], [], [], .empty, []⟩

/-- An empty batch is not recorded. -/
def isReported (batch : IngestBatch) : Bool := ¬ (batch.tasks = [] ∧ batch.heartbeats = [])

/-- The batches of a transaction, if it commits. -/
def recordedBatches (client : ClientInstance) (codec : Codec) (t : Tick) (s : Store)
    (records : List SummaryRecord) (contents : List StoredContentInput) : List IngestBatch :=
  if (persistIngress client codec t s records contents).1.isSome then
    (wireBatches client t (writtenStore codec s records contents)
      (applyRecords s (records.map (normalizeRecord codec))).1).filter isReported
  else []

def Event.isSweep : Event → Bool
  | .sweep _ _ => true
  | _ => false

section System
variable (codec : Codec) (client : ClientInstance) (role : TokenRole)

def step (w : World) : Event → World
  | .persist t records contents =>
      { w with
        store := (persistIngress client codec t w.store records contents).2
        batches := w.batches ++ recordedBatches client codec t w.store records contents }
  | .tend contents => { w with store := { w.store with contents } }
  | .send now =>
      match nextDueBatch w.store.outbox now with
      | none => w
      | some (_, row) => { w with requests := w.requests ++ [row.body] }
  | .deliver request now =>
      match w.requests[request]? with
      | none => w
      | some body =>
          let result := ingest codec (token client role) body now w.server
          { w with
            server := result.2
            replies := w.replies ++ ackOf result.1
            log := w.log ++ effectOf client.clientId result.1 }
  | .acknowledge reply nowMs =>
      match w.replies[reply]? with
      | none => w
      | some ack =>
          { w with store := { w.store with outbox := markBatchAcked w.store.outbox ack nowMs } }
  | .retry batchId error now =>
      { w with
        store := { w.store with outbox := markBatchRetry codec w.store.outbox batchId error now } }
  | .post principal body now =>
      let result := ingest codec principal body now w.server
      { w with
        server := result.2
        log := w.log ++ effectOf principal.clientId result.1 }
  | .sweep sweep now => { w with server := w.server.sweep sweep now }

/-! ## A run of `Delivery` -/

/-- What `Delivery` sees of the system. -/
def World.view (w : World) : System.World where
  client := w.store.outbox
  enqueued := w.batches.map codec.encodingOf
  requests := w.requests
  replies := w.replies
  server := w.server
  log := w.log

def enqueueOf (t : Tick) (priority : Bool) (batch : IngestBatch) : System.Event :=
  .enqueue batch (batch.tasks.length + batch.heartbeats.length) priority t.nowMs

/-- The events of `Delivery` that an event is. -/
def emit (w : World) : Event → List System.Event
  | .persist t records contents =>
      (recordedBatches client codec t w.store records contents).map <|
        enqueueOf t ((applyRecords w.store (records.map (normalizeRecord codec))).1.any
          isPriorityRecord)
  | .tend _ => []
  | .send now => [.send now]
  | .deliver request now => [.deliver request now]
  | .acknowledge reply nowMs => [.acknowledge reply nowMs]
  | .retry batchId error now => [.retry batchId error now]
  | .post principal body now => [.post principal body now]
  | .sweep _ _ => []

end System

section Enqueue
variable {codec : Codec} {client : ClientInstance} {t : Tick} {s : Store}

/-- A chunk is skipped when its batch is empty, and is enqueued otherwise. -/
theorem enqueueChunk_cases {priority : Bool} {inserted inserted' : ℕ × Outbox}
    {chunk : List SummaryRecord × ℕ}
    (h : enqueueChunk client codec t s priority inserted chunk = some inserted') :
    isReported (buildWireBatch client t s chunk.2 chunk.1) = false ∧ inserted' = inserted ∨
    isReported (buildWireBatch client t s chunk.2 chunk.1) = true ∧ ∃ encoded,
      codec.encodeBatch (buildWireBatch client t s chunk.2 chunk.1) = .ok encoded ∧
      insertOutbox inserted.2 encoded
        ((buildWireBatch client t s chunk.2 chunk.1).tasks.length +
          (buildWireBatch client t s chunk.2 chunk.1).heartbeats.length) priority t.nowMs =
        some inserted'.2 := by
  simp only [enqueueChunk] at h
  split at h
  · rename_i hempty
    cases h
    exact .inl ⟨by simp [isReported, hempty], rfl⟩
  · rename_i hne
    split at h
    · cases h
    · rename_i encoded hencode
      split at h
      · rcases Option.map_eq_some_iff.mp h with ⟨o, ho, rfl⟩
        exact .inr ⟨decide_eq_true hne, encoded, hencode, ho⟩
      · cases h

/-- The loop over the chunks enqueues one batch after the other. -/
theorem run_enqueueChunks (role : TokenRole) {priority : Bool} {chunks : List (List SummaryRecord × ℕ)}
    {inserted inserted' : ℕ × Outbox} {w : System.World}
    (h : chunks.foldlM (enqueueChunk client codec t s priority) inserted = some inserted')
    (hw : w.client = inserted.2) :
    let batches := (chunks.map fun r => buildWireBatch client t s r.2 r.1).filter isReported
    Run.run (System.step codec client role) w (batches.map (enqueueOf t priority)) =
        { w with
          client := inserted'.2
          enqueued := w.enqueued ++ batches.map codec.encodingOf } ∧
      ∀ batch ∈ batches, codec.encodeBatch batch = .ok (codec.encodingOf batch) := by
  induction chunks generalizing inserted w with
  | nil =>
      cases h
      simp [← hw]
  | cons chunk chunks ih =>
      rw [List.foldlM_cons] at h
      rcases Option.bind_eq_some_iff.mp h with ⟨middle, hmiddle, hrest⟩
      rcases enqueueChunk_cases hmiddle with ⟨hskip, rfl⟩ | ⟨hreport, encoded, hencode, ho⟩
      · simpa [hskip] using ih hrest hw
      · have hencoding : encoded = codec.encodingOf (buildWireBatch client t s chunk.2 chunk.1) :=
          (Codec.encodeBatch_eq_ok_iff.mp hencode).2.2.symm
        have hstep : System.step codec client role w
            (enqueueOf t priority (buildWireBatch client t s chunk.2 chunk.1)) =
            { w with
              client := middle.2
              enqueued := w.enqueued ++
                [codec.encodingOf (buildWireBatch client t s chunk.2 chunk.1)] } := by
          have hclient : { buildWireBatch client t s chunk.2 chunk.1 with client := client } =
              buildWireBatch client t s chunk.2 chunk.1 := rfl
          rw [hencoding] at ho
          simp only [System.step, enqueueOf, hclient, hencode, hw, hencoding, ho]
        have hlater := ih (w := System.step codec client role w
          (enqueueOf t priority (buildWireBatch client t s chunk.2 chunk.1))) hrest
          (by rw [hstep])
        rw [hstep] at hlater
        simp only [List.map_cons, List.filter_cons, hreport, if_true, Run.run_cons, hstep,
          List.forall_mem_cons]
        refine ⟨?_, hencoding ▸ hencode, hlater.2⟩
        simpa [List.append_assoc] using hlater.1

/-- A transaction is its batches, enqueued one after the other. -/
theorem view_persist (role : TokenRole) (w : World) (t : Tick) (records : List SummaryRecord)
    (contents : List StoredContentInput) :
    (step codec client role w (.persist t records contents)).view codec =
        Run.run (System.step codec client role) (w.view codec)
          (emit codec client w (.persist t records contents)) ∧
      ∀ batch ∈ recordedBatches client codec t w.store records contents,
        codec.encodeBatch batch = .ok (codec.encodingOf batch) := by
  rcases persistIngress_cases client codec t w.store records contents with
    ⟨hfailed, files, hrollback⟩ | ⟨inserted, outbox, henqueue, hdone, hwritten⟩
  · have hnone : recordedBatches client codec t w.store records contents = [] := by
      simp [recordedBatches, hfailed]
    simp [step, emit, hnone, hrollback, World.view, Store.rollback]
  · have houtbox : (writtenStore codec w.store records contents).outbox = w.store.outbox :=
      outbox_applyRecords
    have hbatches : recordedBatches client codec t w.store records contents =
        ((splitRecords (applyRecords w.store (records.map (normalizeRecord codec))).1).zipIdx.map
          fun r => buildWireBatch client t (writtenStore codec w.store records contents) r.2
            r.1).filter isReported := by
      rw [recordedBatches, if_pos hdone, wireBatches]
    have hrun := run_enqueueChunks role (w := w.view codec) henqueue
      (by rw [houtbox]; rfl)
    rw [hbatches]
    refine ⟨?_, hrun.2⟩
    simp only [emit, hbatches, hrun.1]
    simp [step, World.view, hwritten, hbatches]

/-- Every step but a cleanup is the steps that it emits. -/
theorem view_step (role : TokenRole) (w : World) (e : Event) (h : e.isSweep = false) :
    (step codec client role w e).view codec =
      Run.run (System.step codec client role) (w.view codec) (emit codec client w e) := by
  cases e with
  | persist t records contents => exact (view_persist role w t records contents).1
  | tend contents => rfl
  | send now =>
      simp only [step, emit, Run.run_cons, Run.run_nil, System.step, World.view]
      split <;> simp_all
  | deliver request now =>
      simp only [step, emit, Run.run_cons, Run.run_nil, System.step, World.view]
      split <;> simp_all
  | acknowledge reply nowMs =>
      simp only [step, emit, Run.run_cons, Run.run_nil, System.step, World.view]
      split <;> simp_all
  | retry batchId error now => rfl
  | post principal body now => rfl
  | sweep sweep now => cases h

end Enqueue

/-! ## What was acknowledged was done -/

section Accounts
variable {codec : Codec} {client : ClientInstance} {role : TokenRole}

/-- A receipt was there before, or is of what the request wrote. -/
theorem hasReceipt_of_ingest {principal : Principal} {body : Bytes} {now : TimestampMs}
    {db : Database} {clientId : String} {batchId : Uuid} {sha : String}
    (h : HasReceipt (ingest codec principal body now db).2 clientId batchId sha) :
    HasReceipt db clientId batchId sha ∨
      (clientId, batchId, sha) ∈
        effectOf principal.clientId (ingest codec principal body now db).1 := by
  rcases ingest_cases codec principal body now db with
    ⟨d, -, haccepts, heq⟩ | ⟨d, receipt, -, -, heq⟩ | ⟨status, heq⟩
  · rw [heq] at h ⊢
    rcases h with ⟨row, hrow, rfl⟩
    rw [applied_ingestReceipts, Table.get?_put] at hrow
    split at hrow
    · rename_i hkey
      cases hkey
      cases hrow
      exact .inr (by simp [effectOf, haccepts.clientId])
    · exact .inl ⟨row, hrow, rfl⟩
  · rw [heq] at h
    exact .inl h
  · rw [heq] at h
    exact .inl h

/-- The log has what was recorded and left the outbox, what was acknowledged, and what has a
receipt. -/
structure Accounted (client : ClientInstance) (w : System.World) : Prop where
  kept : ∀ b ∈ w.enqueued, w.client.Holds b.batchId b.payloadSha256 b.bytes ∨
    (client.clientId, b.batchId, b.payloadSha256) ∈ w.log
  replied : ∀ ack ∈ w.replies, (client.clientId, ack.batchId, ack.payloadSha256) ∈ w.log
  receipts : ∀ batchId sha, HasReceipt w.server client.clientId batchId sha →
    (client.clientId, batchId, sha) ∈ w.log

theorem Accounted.ingest {w : System.World} (h : Accounted client w) (codec : Codec)
    (principal : Principal) (body : Bytes) (now : TimestampMs) (batchId : Uuid) (sha : String)
    (hreceipt : HasReceipt (ingest codec principal body now w.server).2 client.clientId batchId
      sha) :
    (client.clientId, batchId, sha) ∈
      w.log ++ effectOf principal.clientId (Server.ingest codec principal body now w.server).1 := by
  rw [List.mem_append]
  exact (hasReceipt_of_ingest hreceipt).imp_left (h.receipts batchId sha)

theorem Accounted.step {w : System.World} (h : Accounted client w) (e : System.Event) :
    Accounted client (System.step codec client role w e) := by
  cases e with
  | enqueue batch recordCount priority nowMs =>
      rw [System.step]
      split
      · exact h
      · split
        · exact h
        · rename_i encoded _ o ho
          refine ⟨?_, h.replied, h.receipts⟩
          intro b hb
          rw [List.mem_append, List.mem_singleton] at hb
          rcases hb with hb | rfl
          · exact (h.kept b hb).imp_left (holds_insertOutbox ho)
          · exact .inl (holds_insertOutbox_self ho)
  | send now =>
      rw [System.step]
      split
      · exact h
      · exact ⟨h.kept, h.replied, h.receipts⟩
  | deliver request now =>
      rw [System.step]
      split
      · exact h
      · rename_i body _
        have hreceipts := h.ingest codec (token client role) body now
        refine ⟨fun b hb => (h.kept b hb).imp_right (List.mem_append_left _), ?_, hreceipts⟩
        intro ack hack
        rw [List.mem_append] at hack
        rcases hack with hack | hack
        · exact List.mem_append_left _ (h.replied ack hack)
        · refine hreceipts _ _ (hasReceipt_of_ack ?_)
          cases hreply : (Server.ingest codec (token client role) body now w.server).1 with
          | ack body' => simp_all [ackOf]
          | conflict _ _ => simp [hreply, ackOf] at hack
          | err _ => simp [hreply, ackOf] at hack
  | acknowledge reply nowMs =>
      rw [System.step]
      split
      · exact h
      · rename_i ack hack
        refine ⟨?_, h.replied, h.receipts⟩
        intro b hb
        by_cases hmatch : b.batchId = ack.batchId ∧ b.payloadSha256 = ack.payloadSha256
        · right
          rw [hmatch.1, hmatch.2]
          exact h.replied ack (List.mem_of_getElem? hack)
        · exact (h.kept b hb).imp_left fun hheld => holds_markBatchAcked.mpr ⟨hheld, hmatch⟩
  | retry batchId error now =>
      exact ⟨fun b hb => (h.kept b hb).imp_left holds_markBatchRetry.mpr, h.replied, h.receipts⟩
  | post principal body now =>
      exact ⟨fun b hb => (h.kept b hb).imp_right (List.mem_append_left _),
        fun ack hack => List.mem_append_left _ (h.replied ack hack),
        h.ingest codec principal body now⟩

/-- Cleanup takes receipts away, and adds none. -/
theorem hasReceipt_of_sweep {db : Database} {sweep : Sweep} {now : TimestampMs}
    {clientId : String} {batchId : Uuid} {sha : String}
    (h : HasReceipt (db.sweep sweep now) clientId batchId sha) :
    HasReceipt db clientId batchId sha := by
  rcases h with ⟨row, hrow, hsha⟩
  refine ⟨row, ?_, hsha⟩
  cases sweep with
  | receipts =>
      rw [Database.sweep, deleteBefore, Table.get?_deleteWhere] at hrow
      exact (Option.filter_eq_some_iff.mp hrow).1
  | heartbeats => exact hrow
  | ephemera table => cases table <;> exact hrow

theorem accounted_step {w : World} (h : Accounted client (w.view codec)) (e : Event) :
    Accounted client ((step codec client role w e).view codec) := by
  cases hsweep : e.isSweep with
  | false =>
      rw [view_step role w e hsweep]
      exact Run.invariant (I := Accounted client) (fun _ e hw => hw.step e) h _
  | true =>
      cases e with
      | sweep sweep now =>
          exact ⟨h.kept, h.replied, fun _ _ hreceipt => h.receipts _ _ (hasReceipt_of_sweep hreceipt)⟩
      | _ => cases hsweep

end Accounts

/-! ## Runs -/

/-- What a run guarantees. -/
structure Delivered (codec : Codec) (client : ClientInstance) (role : TokenRole)
    (es : List Event) : Prop where
  /-- A batch that a transaction recorded is in the outbox until its writes were done. -/
  kept : ∀ b ∈ (Run.run (step codec client role) .start es).batches,
    (Run.run (step codec client role) .start es).store.outbox.Holds b.batchId
        (codec.encodingOf b).payloadSha256 (codec.encodingOf b).bytes ∨
      (client.clientId, b.batchId, (codec.encodingOf b).payloadSha256) ∈
        (Run.run (step codec client role) .start es).log
  /-- Every step leaves the server alone, cleans it up, or does and logs the writes of one
  batch. -/
  effects : ∀ pre e post, es = pre ++ e :: post → e.isSweep = false →
    WritesLogged codec ((Run.run (step codec client role) .start pre).view codec)
      ((Run.run (step codec client role) .start (pre ++ [e])).view codec)
  /-- Without cleanup the run is one of `Delivery`, -/
  refines : (∀ e ∈ es, e.isSweep = false) →
    (Run.run (step codec client role) .start es).view codec =
      Run.run (System.step codec client role) (.start Store.empty.outbox .empty)
        (Run.trace (step codec client role) (emit codec client) .start es)
  /-- and no batch is written twice. -/
  once : (∀ e ∈ es, e.isSweep = false) →
    ((Run.run (step codec client role) .start es).log.map fun e => (e.1, e.2.1)).Nodup

theorem writesLogged (codec : Codec) (client : ClientInstance) (role : TokenRole) (w : World)
    (e : Event) (h : e.isSweep = false) :
    WritesLogged codec (w.view codec) ((step codec client role w e).view codec) := by
  have hsame : WritesLogged codec (w.view codec) (w.view codec) := .inl ⟨rfl, rfl⟩
  cases e with
  | persist t records contents => exact .inl ⟨rfl, rfl⟩
  | tend contents => exact .inl ⟨rfl, rfl⟩
  | send now =>
      rw [step]
      split
      · exact hsame
      · exact .inl ⟨rfl, rfl⟩
  | deliver request now =>
      rw [step]
      split
      · exact hsame
      · exact writesLogged_ingest codec (token client role) _ now _ _ rfl rfl
  | acknowledge reply nowMs =>
      rw [step]
      split
      · exact hsame
      · exact .inl ⟨rfl, rfl⟩
  | retry batchId error now => exact .inl ⟨rfl, rfl⟩
  | post principal body now => exact writesLogged_ingest codec principal body now _ _ rfl rfl
  | sweep sweep now => cases h

theorem refines_run (codec : Codec) (client : ClientInstance) (role : TokenRole)
    {es : List Event} (h : ∀ e ∈ es, e.isSweep = false) :
    (Run.run (step codec client role) .start es).view codec =
      Run.run (System.step codec client role) (.start Store.empty.outbox .empty)
        (Run.trace (step codec client role) (emit codec client) .start es) := by
  refine Run.view_run (P := fun _ e => e.isSweep = false)
    (fun w e hsweep => view_step role w e hsweep) ?_
  rw [Run.each_iff_forall_prefix]
  exact fun done e hstart => h e (hstart.subset (by simp))

theorem recorded_run (codec : Codec) (client : ClientInstance) (role : TokenRole)
    (es : List Event) : Delivered codec client role es where
  kept := by
    have haccounted : Accounted client
        ((Run.run (step codec client role) .start es).view codec) := by
      refine Run.invariant (I := fun w : World => Accounted client (w.view codec))
        (fun _ e hw => accounted_step hw e) ?_ es
      constructor <;> simp [World.start, World.view, HasReceipt, Database.empty]
    intro b hb
    exact haccounted.kept _ (List.mem_map_of_mem hb)
  effects := by
    intro pre e post _ hsweep
    rw [Run.run_snoc]
    exact writesLogged codec client role _ e hsweep
  refines := refines_run codec client role
  once := by
    intro h
    have hinv := Run.invariant (I := Inv client)
      (fun w e hw => (inv_step hw e : Inv client (System.step codec client role w e)))
      (inv_start client Store.empty.outbox .empty)
      (Run.trace (step codec client role) (emit codec client) .start es)
    rw [← refines_run codec client role h] at hinv
    exact hinv.once

end Codexwatch.System.Reporting
