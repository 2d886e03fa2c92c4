import Codexwatch.System.Provenance

/-!
# The flush loop

The loop of the daemon that calls `flush_outbox_once`, with what the other loops and the
network do in between. A batch whose delivery fails waits for five seconds at least, and so
lets the others pass: a batch that is due is sent within as many flushes as there are batches
that were recorded before it, whatever becomes of those, and whatever is recorded meanwhile.

## Main definitions

* `flushOutboxOnce`, `daemonStep` — the loop.
* `InRound` — an event within five seconds of a moment.

## Main results

* `run_trace` — a run of the loop is a run of the system.
* `sent_of_round` — no batch is starved.
-/
namespace Codexwatch.System.Reporting

open Protocol Client Server Relational

/-! ## The loop -/

/-- What becomes of a request, and with which error. -/
inductive Fate
  | answered
  /-- The server gets the request, the client no answer. -/
  | replyLost (error : String)
  | requestLost (error : String)

/-- A call of `flush_outbox_once` reads the clock when it looks for a batch, and again when
it writes down what became of it. -/
structure Flush where
  fate : Fate
  now : OffsetDateTime
  later : OffsetDateTime
  serverNow : TimestampMs

inductive DaemonEvent
  | flush (f : Flush)
  /-- A step of another loop, of the network or of the server. -/
  | other (e : Event)

section Loop
variable (codec : Codec) (client : ClientInstance) (role : TokenRole)
  (describe : IngestReply → String)

/-- `post_ingest`, with the errors of `error_for_status`; the server never answers `204`. -/
def postIngest (f : Flush) (body : Bytes) (w : World) : Except String IngestAck × World :=
  let sent := { w with requests := w.requests ++ [body] }
  let delivered := step codec client role sent (.deliver w.requests.length f.serverNow)
  match f.fate with
  | .requestLost error => (.error error, sent)
  | .replyLost error => (.error error, delivered)
  | .answered =>
      match (ingest codec (token client role) body f.serverNow w.server).1 with
      | .ack ack => (.ok ack, delivered)
      | reply => (.error (describe reply), delivered)

def flushOutboxOnce (f : Flush) (w : World) : World :=
  match nextDueBatch w.store.outbox f.now with
  | none => w
  | some (batchId, row) =>
      let (answer, w) := postIngest codec client role describe f row.body w
      match answer with
      | .ok ack =>
          { w with
            store := { w.store with outbox := markBatchAcked w.store.outbox ack (ts f.later) } }
      | .error error =>
          { w with
            store := { w.store with
              outbox := markBatchRetry codec w.store.outbox batchId error f.later } }

def daemonStep (w : World) : DaemonEvent → World
  | .flush f => flushOutboxOnce codec client role describe f w
  | .other e => step codec client role w e

/-! ## A run of the system -/

/-- The steps that a call takes. -/
def flushEvents (f : Flush) (w : World) : List Event :=
  match nextDueBatch w.store.outbox f.now with
  | none => []
  | some (batchId, row) =>
      .send f.now ::
        match f.fate with
        | .requestLost error => [.retry batchId error f.later]
        | .replyLost error =>
            [.deliver w.requests.length f.serverNow, .retry batchId error f.later]
        | .answered =>
            .deliver w.requests.length f.serverNow ::
              match (ingest codec (token client role) row.body f.serverNow w.server).1 with
              | .ack _ => [.acknowledge w.replies.length (ts f.later)]
              | reply => [.retry batchId (describe reply) f.later]

def eventsOf (w : World) : DaemonEvent → List Event
  | .flush f => flushEvents codec client role describe f w
  | .other e => [e]

variable {codec client role describe}

theorem step_eq_run (w : World) (e : DaemonEvent) :
    daemonStep codec client role describe w e =
      Run.run (step codec client role) w (eventsOf codec client role describe w e) := by
  cases e with
  | other e => rfl
  | flush f =>
      rw [daemonStep, eventsOf, flushOutboxOnce, flushEvents]
      cases hdue : nextDueBatch w.store.outbox f.now with
      | none => rfl
      | some due =>
          cases hfate : f.fate with
          | requestLost error => simp [postIngest, hfate, hdue, step]
          | replyLost error => simp [postIngest, hfate, hdue, step]
          | answered =>
              cases hreply : (ingest codec (token client role) due.2.body f.serverNow
                w.server).1 with
              | ack ack => simp [postIngest, hfate, hdue, step, hreply, ackOf]
              | conflict error detail => simp [postIngest, hfate, hdue, step, hreply]
              | err status => simp [postIngest, hfate, hdue, step, hreply]

/-- What holds of every run of the system holds of the daemon. -/
theorem run_trace (w : World) (es : List DaemonEvent) :
    Run.run (daemonStep codec client role describe) w es =
      Run.run (step codec client role) w
        (Run.trace (daemonStep codec client role describe)
          (eventsOf codec client role describe) w es) :=
  have hstep (w : World) (e : DaemonEvent) (_ : True) :
      id (daemonStep codec client role describe w e) =
        Run.run (step codec client role) (id w) (eventsOf codec client role describe w e) :=
    step_eq_run w e
  Run.view_run hstep (Run.each_iff_forall_prefix.mpr fun _ _ _ => trivial)

end Loop

/-! ## One call -/

section Calls
variable {codec : Codec} {client : ClientInstance} {role : TokenRole}
  {describe : IngestReply → String}

/-- What a row holds is decoded to the batch that it is stored for. -/
def Genuine (codec : Codec) (o : Outbox) : Prop :=
  ∀ batchId row, o.outbox.get? batchId = some row → ∃ decoded,
    codec.decodeBatchWithPayload row.body = .ok decoded ∧ decoded.batch.batchId = batchId ∧
      decoded.payloadSha256 = row.payloadSha256

/-- The server acknowledges the batch that it is sent. -/
theorem ack_of_decode {principal : Principal} {body : Bytes} {now : TimestampMs} {db : Database}
    {ack : IngestAck} {decoded : DecodedBatch}
    (hdecode : codec.decodeBatchWithPayload body = .ok decoded)
    (hack : (ingest codec principal body now db).1 = .ack ack) :
    ack.batchId = decoded.batch.batchId ∧ ack.payloadSha256 = decoded.payloadSha256 := by
  rcases ingest_cases codec principal body now db with
    ⟨d, hd, -, heq⟩ | ⟨d, receipt, hd, -, heq⟩ | ⟨status, heq⟩
  · rw [hdecode] at hd
    cases hd
    rw [heq] at hack
    cases hack
    exact ⟨rfl, rfl⟩
  · rw [hdecode] at hd
    cases hd
    rw [heq] at hack
    split at hack
    · rename_i hsha
      cases hack
      exact ⟨rfl, hsha⟩
    · cases hack
  · rw [heq] at hack
    cases hack

/-- A batch that is not delivered waits for five seconds, and for ten minutes at most. -/
theorem backoffDelay_bounds (attemptCount : ℕ) :
    5 * 1000000000 ≤ backoffDelay attemptCount ∧ backoffDelay attemptCount ≤ 600 * 1000000000 := by
  have hpos : 1 ≤ 2 ^ min attemptCount 10 := Nat.one_le_two_pow
  rw [backoffDelay]
  omega

theorem ts_add_backoff (later : OffsetDateTime) (attemptCount : ℕ) :
    ts later + 5000 ≤ ts (later + backoffDelay attemptCount) := by
  have hdelay := (backoffDelay_bounds attemptCount).1
  simp only [ts]
  omega

/-- A call leaves the rows of other batches alone; the row of the batch that it sent is gone, or
waits. -/
theorem flush_spec (client : ClientInstance) (role : TokenRole) (describe : IngestReply → String)
    {w : World} (hgenuine : Genuine codec w.store.outbox) {f : Flush}
    {batchId : Uuid} {row : OutboxRow}
    (hdue : nextDueBatch w.store.outbox f.now = some (batchId, row)) :
    (∀ other, other ≠ batchId →
      (flushOutboxOnce codec client role describe f w).store.outbox.outbox.get? other =
        w.store.outbox.outbox.get? other) ∧
    ∀ row', (flushOutboxOnce codec client role describe f w).store.outbox.outbox.get? batchId =
      some row' → ts f.later + 5000 ≤ row'.nextAttemptAt := by
  have hmem := List.mem_of_mem_filter (List.argmin_mem hdue)
  have hrow : w.store.outbox.outbox.get? batchId = some row := Table.mem_rows_iff.mp hmem
  have hretry (error : String) :
      (∀ other, other ≠ batchId →
        (markBatchRetry codec w.store.outbox batchId error f.later).outbox.get? other =
          w.store.outbox.outbox.get? other) ∧
      ∀ row', (markBatchRetry codec w.store.outbox batchId error f.later).outbox.get? batchId =
        some row' → ts f.later + 5000 ≤ row'.nextAttemptAt := by
    simp only [markBatchRetry, Table.get?_modify, if_true, hrow, Option.map_some]
    refine ⟨fun other hne => if_neg hne, ?_⟩
    intro row' hrow'
    cases hrow'
    exact ts_add_backoff f.later row.attemptCount
  have hacked {ack : IngestAck}
      (hack : (ingest codec (token client role) row.body f.serverNow w.server).1 = .ack ack) :
      (∀ other, other ≠ batchId →
        (markBatchAcked w.store.outbox ack (ts f.later)).outbox.get? other =
          w.store.outbox.outbox.get? other) ∧
      ∀ row', (markBatchAcked w.store.outbox ack (ts f.later)).outbox.get? batchId =
        some row' → ts f.later + 5000 ≤ row'.nextAttemptAt := by
    rcases hgenuine batchId row hrow with ⟨decoded, hdecode, hid, hsha⟩
    have hsame := ack_of_decode hdecode hack
    simp only [markBatchAcked, Table.get?_deleteWhere, hsame, hid, hsha]
    constructor
    · intro other hne
      cases w.store.outbox.outbox.get? other <;> simp [hne]
    · simp [hrow]
  simp only [flushOutboxOnce, hdue, postIngest]
  cases hfate : f.fate with
  | requestLost error => exact hretry error
  | replyLost error =>
      simp only [step, List.getElem?_concat_length]
      exact hretry error
  | answered =>
      simp only [step, List.getElem?_concat_length]
      cases hreply : (ingest codec (token client role) row.body f.serverNow w.server).1 with
      | ack ack => exact hacked hreply
      | conflict error detail => exact hretry _
      | err status => exact hretry _

/-- A transaction keeps the rows of the outbox, and adds rows of its own time. -/
theorem outbox_persist (codec : Codec) (client : ClientInstance) (role : TokenRole) (w : World)
    (t : Tick) (records : List SummaryRecord) (contents : List StoredContentInput) :
    (∀ batchId row, w.store.outbox.outbox.get? batchId = some row →
      (step codec client role w (.persist t records contents)).store.outbox.outbox.get? batchId =
        some row) ∧
    ∀ batchId row, (step codec client role w (.persist t records contents)).store.outbox.outbox.get?
      batchId = some row → w.store.outbox.outbox.get? batchId = some row ∨
        row.createdAt = t.nowMs := by
  have hview : (step codec client role w (.persist t records contents)).view codec = _ :=
    (view_persist role w t records contents).1
  have houtbox : (step codec client role w (.persist t records contents)).store.outbox =
      ((step codec client role w (.persist t records contents)).view codec).client := rfl
  rw [houtbox, hview]
  refine Run.invariant_of_each (P := fun _ e => ∃ priority batch, e = enqueueOf t priority batch)
    (I := fun w' : System.World =>
      (∀ batchId row, w.store.outbox.outbox.get? batchId = some row →
        w'.client.outbox.get? batchId = some row) ∧
      ∀ batchId row, w'.client.outbox.get? batchId = some row →
        w.store.outbox.outbox.get? batchId = some row ∨ row.createdAt = t.nowMs) ?_
    ⟨fun _ _ h => h, fun _ _ h => .inl h⟩ ?_
  · rintro w' e ⟨hold, hnew⟩ ⟨priority, batch, rfl⟩
    rw [enqueueOf, System.step]
    split
    · exact ⟨hold, hnew⟩
    · split
      · exact ⟨hold, hnew⟩
      · rename_i encoded _ o ho
        rcases Option.map_eq_some_iff.mp ho with ⟨table, htable, rfl⟩
        rcases Table.insertNew_eq_some.mp htable with ⟨hfree, rfl⟩
        constructor
        · intro batchId row hrow
          have hkept := hold batchId row hrow
          rw [Table.get?_put_of_ne]
          · exact hkept
          · rintro rfl
            rw [hfree] at hkept
            cases hkept
        · intro batchId row hrow
          rw [Table.get?_put] at hrow
          split at hrow
          · cases hrow
            exact .inr rfl
          · exact hnew batchId row hrow
  · rw [Run.each_iff_forall_prefix]
    intro done e hstart
    have hmem := hstart.subset (List.mem_append_right done (List.mem_singleton_self e))
    rcases List.mem_map.mp hmem with ⟨batch, -, rfl⟩
    exact ⟨_, batch, rfl⟩

end Calls

/-! ## A round -/

/-- The batch that an event of the loop sends. -/
def sends (w : World) : DaemonEvent → Option Uuid
  | .flush f => (nextDueBatch w.store.outbox f.now).map Prod.fst
  | .other _ => none

def isFlush : DaemonEvent → Bool
  | .flush _ => true
  | .other _ => false

/-- An event within five seconds of `start`, when what is recorded comes after `createdAt`.
Only the loop sends batches and takes answers to them. -/
def InRound (start createdAt : ℤ) : DaemonEvent → Prop
  | .flush f => start ≤ ts f.now ∧ ts f.now < start + 5000 ∧ start ≤ ts f.later
  | .other (.persist t _ _) => createdAt < t.nowMs
  | .other (.send _) | .other (.acknowledge _ _) | .other (.retry _ _ _) => False
  | .other _ => True

/-- A row that may be sent in the round before one of `createdAt`. -/
def isAhead (start createdAt : ℤ) (row : OutboxRow) : Bool :=
  row.createdAt ≤ createdAt && row.nextAttemptAt < start + 5000

def ahead (start createdAt : ℤ) (o : Outbox) : ℕ :=
  o.outbox.countWhere fun _ row => isAhead start createdAt row

section Round
variable {codec : Codec} {client : ClientInstance} {role : TokenRole}
  {describe : IngestReply → String} {start : ℤ} {batchId : Uuid} {row : OutboxRow}

/-- Another loop keeps the rows, and adds none ahead. -/
theorem keeps_other (codec : Codec) (client : ClientInstance) (role : TokenRole) {w : World}
    {createdAt : ℤ} {e : Event} (h : InRound start createdAt (.other e)) :
    (∀ batchId row, w.store.outbox.outbox.get? batchId = some row →
      (step codec client role w e).store.outbox.outbox.get? batchId = some row) ∧
    ∀ batchId row, (step codec client role w e).store.outbox.outbox.get? batchId = some row →
      isAhead start createdAt row → w.store.outbox.outbox.get? batchId = some row := by
  have hsame {o : Outbox} (ho : o = w.store.outbox) :
      (∀ batchId row, w.store.outbox.outbox.get? batchId = some row →
        o.outbox.get? batchId = some row) ∧
      ∀ batchId row, o.outbox.get? batchId = some row → isAhead start createdAt row →
        w.store.outbox.outbox.get? batchId = some row := by
    rw [ho]
    exact ⟨fun _ _ hrow => hrow, fun _ _ hrow _ => hrow⟩
  cases e with
  | persist t records contents =>
      have hpersist := outbox_persist codec client role w t records contents
      refine ⟨hpersist.1, fun batchId row hrow hahead => ?_⟩
      rcases hpersist.2 batchId row hrow with hold | hcreated
      · exact hold
      · have hlater : createdAt < t.nowMs := h
        simp only [isAhead, Bool.and_eq_true, decide_eq_true_iff] at hahead
        omega
  | deliver request now => exact hsame (by rw [step]; split <;> rfl)
  | send now => exact h.elim
  | acknowledge reply nowMs => exact h.elim
  | retry batchId error now => exact h.elim
  | tend contents => exact hsame rfl
  | post principal body now => exact hsame rfl
  | sweep sweep now => exact hsame rfl

/-- A call in a round that sends another batch leaves fewer ahead. -/
theorem ahead_flush_lt (client : ClientInstance) (role : TokenRole)
    (describe : IngestReply → String) {w : World} (hgenuine : Genuine codec w.store.outbox) {f : Flush}
    (hround : InRound start row.createdAt (.flush f))
    (hrow : w.store.outbox.outbox.get? batchId = some row) (hdue : row.nextAttemptAt ≤ ts f.now)
    (hother : sends w (.flush f) ≠ some batchId) :
    (flushOutboxOnce codec client role describe f w).store.outbox.outbox.get? batchId = some row ∧
      ahead start row.createdAt (flushOutboxOnce codec client role describe f w).store.outbox <
        ahead start row.createdAt w.store.outbox := by
  have hmem : (batchId, row) ∈
      w.store.outbox.outbox.rows.filter fun r => r.2.nextAttemptAt ≤ ts f.now :=
    List.mem_filter.mpr ⟨Table.mem_rows_iff.mpr hrow, decide_eq_true hdue⟩
  cases hnext : nextDueBatch w.store.outbox f.now with
  | none =>
      rw [List.argmin_eq_none.mp hnext] at hmem
      cases hmem
  | some sent =>
      have hne : batchId ≠ sent.1 := by
        rintro rfl
        exact hother (by simp [sends, hnext])
      have hspec := flush_spec client role describe hgenuine hnext
      have hsent := List.mem_filter.mp (List.argmin_mem hnext)
      have hfirst : sent.2.createdAt ≤ row.createdAt :=
        List.le_of_mem_argmin (f := fun r : Uuid × OutboxRow => r.2.createdAt) hmem hnext
      refine ⟨(hspec.1 batchId hne).trans hrow, ?_⟩
      have hlater : ∀ row',
          (flushOutboxOnce codec client role describe f w).store.outbox.outbox.get? sent.1 =
            some row' → isAhead start row.createdAt row' = false := by
        intro row' hrow'
        have hwaits := hspec.2 row' hrow'
        have hround' := hround.2.2
        simp only [isAhead, Bool.and_eq_false_iff, decide_eq_false_iff_not, not_lt]
        omega
      refine Table.countWhere_lt_of_kept ?_ (Table.mem_rows_iff.mp hsent.1) ?_ hlater
      · intro other row' hrow' hahead
        by_cases hid : other = sent.1
        · subst hid
          rw [hlater row' hrow'] at hahead
          cases hahead
        · rw [← hspec.1 other hid]
          exact hrow'
      · have hdue' := of_decide_eq_true hsent.2
        have hround' := hround.2.1
        simp only [isAhead, Bool.and_eq_true, decide_eq_true_iff]
        omega

/-- In a round with as many calls as there are batches ahead, the batch is sent. -/
theorem meets_of_ahead {w : World} {es : List DaemonEvent}
    (hgenuine : Run.Each (daemonStep codec client role describe)
      (fun w _ => Genuine codec w.store.outbox) w es)
    (hround : ∀ e ∈ es, InRound start row.createdAt e)
    (hrow : w.store.outbox.outbox.get? batchId = some row) (hdue : row.nextAttemptAt ≤ start)
    (hcount : ahead start row.createdAt w.store.outbox ≤ es.countP isFlush) :
    Run.Meets (daemonStep codec client role describe) (fun w e => sends w e = some batchId) w
      es := by
  induction es generalizing w with
  | nil =>
      -- the batch itself is ahead
      have hahead : isAhead start row.createdAt row := by
        simp only [isAhead, Bool.and_eq_true, decide_eq_true_iff]
        omega
      have hempty : Table.Kept (fun _ row' => isAhead start row.createdAt row') Table.empty
          w.store.outbox.outbox := fun _ _ h _ => by cases h
      have hpos : 0 < ahead start row.createdAt w.store.outbox :=
        Nat.zero_lt_of_lt (Table.countWhere_lt_of_kept hempty hrow hahead fun _ h => by cases h)
      rw [List.countP_nil] at hcount
      omega
  | cons e es ih =>
      rw [List.forall_mem_cons] at hround
      cases e with
      | flush f =>
          by_cases hsends : sends w (.flush f) = some batchId
          · exact ⟨[], .flush f, by simp, hsends⟩
          · rw [List.countP_cons_of_pos rfl] at hcount
            have hdue' : row.nextAttemptAt ≤ ts f.now := hdue.trans hround.1.1
            have hflush := ahead_flush_lt client role describe hgenuine.1 hround.1 hrow hdue' hsends
            exact (ih hgenuine.2 hround.2 hflush.1 (by rw [daemonStep]; omega)).cons
      | other e =>
          rw [List.countP_cons_of_neg (by simp [isFlush])] at hcount
          have hkeeps := keeps_other codec client role (w := w) hround.1
          have hle : ahead start row.createdAt (step codec client role w e).store.outbox ≤
              ahead start row.createdAt w.store.outbox :=
            Table.countWhere_le_of_kept fun id row' => hkeeps.2 id row'
          exact (ih hgenuine.2 hround.2 (hkeeps.1 batchId row hrow) (hle.trans hcount)).cons

end Round

/-! ## Runs -/

section Runs
variable {codec : Codec} {client : ClientInstance} {role : TokenRole}
  {describe : IngestReply → String}

/-- The outbox of a run holds batches that can be read. -/
theorem genuine_run {es : List Event}
    (hlawful : ∀ b ∈ (Run.run (step codec client role) .start es).batches, codec.LawfulFor b) :
    Genuine codec (Run.run (step codec client role) .start es).store.outbox := by
  intro batchId row hrow
  rcases (sourced_run codec client role es).rows batchId row hrow with
    ⟨encoded, hencoded, hid, hsha, hbody⟩
  rcases List.mem_map.mp hencoded with ⟨b, hb, rfl⟩
  rw [hbody]
  exact ⟨_, Codec.decode_encodeBatch (hlawful b hb) (encodes_of_mem hb), hid, hsha.symm⟩

end Runs

/-- A batch that is due is sent within as many calls as there are batches ahead of it, whatever
the network and the server do with those, and whatever is recorded, posted or cleaned up in
between. -/
theorem sent_of_round (codec : Codec) (client : ClientInstance) (role : TokenRole)
    (describe : IngestReply → String) (before es : List DaemonEvent) (start : ℤ) (batchId : Uuid)
    (row : OutboxRow)
    (hlawful : ∀ b ∈ (Run.run (daemonStep codec client role describe) .start
      (before ++ es)).batches, codec.LawfulFor b)
    (hrow : (Run.run (daemonStep codec client role describe) .start
      before).store.outbox.outbox.get? batchId = some row)
    (hdue : row.nextAttemptAt ≤ start) (hround : ∀ e ∈ es, InRound start row.createdAt e)
    (hcount : ahead start row.createdAt
      (Run.run (daemonStep codec client role describe) .start before).store.outbox ≤
        es.countP isFlush) :
    Run.Meets (daemonStep codec client role describe) (fun w e => sends w e = some batchId)
      (Run.run (daemonStep codec client role describe) .start before) es := by
  refine meets_of_ahead ?_ hround hrow hdue hcount
  rw [Run.each_iff_forall_prefix]
  rintro done e ⟨rest, rfl⟩
  rw [← Run.run_append, run_trace]
  apply genuine_run
  intro b hb
  rw [← run_trace] at hb
  -- later steps keep the batch in the record
  apply hlawful
  rw [List.append_assoc, ← List.append_assoc before, Run.run_append, run_trace]
  exact Run.invariant (I := fun w : World => b ∈ w.batches) (fun _ _ => mem_batches_step) hb _

/-- The batch that is in the outbox of the sample. -/
def sampleRow : OutboxRow where
  payloadSha256 := ((Codec.writing [sampleReport]).encodingOf sampleReport).payloadSha256
  body := sampleReport.cbor
  recordCount := 1
  createdAt := 0
  nextAttemptAt := 0
  attemptCount := 0
  lastError := none
  isPriority := true

theorem sent_of_round_timeout :
    Run.Meets (daemonStep (.writing [sampleReport]) sampleClient .client fun _ => "")
      (fun w e => sends w e = some (.v7 0))
      (Run.run (daemonStep (.writing [sampleReport]) sampleClient .client fun _ => "") .start
        [.other (.persist placeTick timeoutRecords [])])
      [.flush ⟨.requestLost "", 0, 0, 5⟩] := by
  refine sent_of_round (.writing [sampleReport]) sampleClient .client (fun _ => "")
    [.other (.persist placeTick timeoutRecords [])] [.flush ⟨.requestLost "", 0, 0, 5⟩] 0 (.v7 0)
    sampleRow ?_ (by decide +kernel) (by decide) ?_ (by decide +kernel)
  · have hbatches : (Run.run (daemonStep (.writing [sampleReport]) sampleClient .client fun _ => "")
        .start ([.other (.persist placeTick timeoutRecords [])] ++
          [.flush ⟨.requestLost "", 0, 0, 5⟩])).batches = [sampleReport] := by decide +kernel
    intro b hb
    rw [hbatches] at hb
    exact lawfulFor_sampleReport b hb
  · simp [InRound, ts]

end Codexwatch.System.Reporting
