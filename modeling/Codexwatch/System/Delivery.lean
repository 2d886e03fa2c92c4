import Codexwatch.Lib.Run
import Codexwatch.Client.Outbox
import Codexwatch.Server.Ingest

/-!
# From the outbox to the server

The client's outbox, the network and the server's `ingest` as one system. A message
is never taken out of the network: a lost message is one that is not looked at
again, a delayed one is looked at later, a duplicated one is looked at twice. Other
senders, of this client or of another, may post anything at any time.

The invariant ties the outbox and the acknowledgements in flight to the server's
receipts. It does not depend on the codec: the outbox matches an acknowledgement by
batch id and digest, and the server writes a receipt whenever it acknowledges.

## Main definitions

* `World` — the state of the system, with a log of the batches applied.
* `step` — one event.
* `ExactlyOnce` — what a run guarantees.
-/
namespace Codexwatch.System

open Protocol Client Server

inductive Event
  /-- The client records a batch; a refusal of the outbox is no event. -/
  | enqueue (batch : IngestBatch) (recordCount : ℕ) (priority : Bool) (nowMs : ℤ)
  /-- `flush_outbox_once` sends the next due batch. -/
  | send (now : OffsetDateTime)
  /-- A request that was sent reaches the server. -/
  | deliver (request : ℕ) (now : TimestampMs)
  /-- The client receives an acknowledgement. -/
  | acknowledge (reply : ℕ) (nowMs : ℤ)
  /-- The client gives up on an answer, or gets an error. -/
  | retry (batchId : Uuid) (error : String) (now : OffsetDateTime)
  /-- Another request reaches the server. -/
  | post (principal : Principal) (body : Bytes) (now : TimestampMs)

/-- `(client_id, batch_id, payload_sha256)`. -/
abbrev Effect := String × Uuid × String

structure World where
  client : Outbox
  /-- Every batch that was ever recorded. -/
  enqueued : List EncodedBatch
  requests : List Bytes
  replies : List IngestAck
  server : Database
  /-- The batches whose writes were done, in order. -/
  log : List Effect

/-- Nothing is in flight and nothing was recorded yet. -/
def World.start (client : Outbox) (server : Database) : World := ⟨client, [], [], [], server, []⟩

/-- What a reply says was written. -/
def effectOf (clientId : String) : IngestReply → List Effect
  | .ack body => if body.duplicate then [] else [(clientId, body.batchId, body.payloadSha256)]
  | .conflict _ _ => []
  | .err _ => []

/-- The acknowledgement in a reply. -/
def ackOf : IngestReply → List IngestAck
  | .ack body => [body]
  | .conflict _ _ => []
  | .err _ => []

section System
variable (codec : Codec) (client : ClientInstance) (role : TokenRole)

/-- The token of the client is bound to its client id. -/
def token : Principal := ⟨client.clientId, role⟩

def step (w : World) : Event → World
  | .enqueue batch recordCount priority nowMs =>
      match codec.encodeBatch { batch with client } with
      | .error _ => w
      | .ok encoded =>
          match insertOutbox w.client encoded recordCount priority nowMs with
          | none => w
          | some o => { w with client := o, enqueued := w.enqueued ++ [encoded] }
  | .send now =>
      match nextDueBatch w.client now with
      | none => w
      | some (_, row) => { w with requests := w.requests ++ [row.body] }
  | .deliver request now =>
      match w.requests[request]? with
      | none => w
      | some body =>
          let result := ingest codec (token client role) body now w.server
          { w with
            server := result.2
            replies := w.replies ++ ackOf result.1
            log := w.log ++ effectOf client.clientId result.1 }
  | .acknowledge reply nowMs =>
      match w.replies[reply]? with
      | none => w
      | some ack => { w with client := markBatchAcked w.client ack nowMs }
  | .retry batchId error now =>
      { w with client := markBatchRetry codec w.client batchId error now }
  | .post principal body now =>
      let result := ingest codec principal body now w.server
      { w with
        server := result.2
        log := w.log ++ effectOf principal.clientId result.1 }

/-! ## The invariant -/

structure Inv (w : World) : Prop where
  once : (w.log.map fun e => (e.1, e.2.1)).Nodup
  logged : ∀ e ∈ w.log, HasReceipt w.server e.1 e.2.1 e.2.2
  replied : ∀ ack ∈ w.replies, HasReceipt w.server client.clientId ack.batchId ack.payloadSha256
  kept : ∀ b ∈ w.enqueued, w.client.Holds b.batchId b.payloadSha256 b.bytes ∨
    HasReceipt w.server client.clientId b.batchId b.payloadSha256

theorem inv_start (o : Outbox) (db : Database) : Inv client (.start o db) :=
  ⟨List.nodup_nil, by simp [World.start], by simp [World.start], by simp [World.start]⟩

variable {codec client role} {w : World}

/-- A request adds at most its own effect to the log, and only if it had no receipt. -/
theorem log_ingest (codec : Codec) (principal : Principal) (body : Bytes) (now : TimestampMs)
    (hw : Inv client w) :
    ((w.log ++ effectOf principal.clientId (ingest codec principal body now w.server).1).map
        fun e => (e.1, e.2.1)).Nodup ∧
      ∀ e ∈ w.log ++ effectOf principal.clientId (ingest codec principal body now w.server).1,
        HasReceipt (ingest codec principal body now w.server).2 e.1 e.2.1 e.2.2 := by
  have hlogged : ∀ e ∈ w.log,
      HasReceipt (ingest codec principal body now w.server).2 e.1 e.2.1 e.2.2 := fun e he =>
    hasReceipt_ingest (hw.logged e he)
  rcases ingest_cases codec principal body now w.server with
    ⟨d, -, haccepts, heq⟩ | ⟨d, receipt, -, -, heq⟩ | ⟨status, heq⟩
  · have heffect : effectOf principal.clientId (ingest codec principal body now w.server).1 =
        [(principal.clientId, d.batch.batchId, d.payloadSha256)] := by
      rw [heq]
      rfl
    have hack := hasReceipt_of_ack (congrArg Prod.fst heq)
    rw [heffect]
    refine ⟨?_, ?_⟩
    · rw [List.map_append, List.nodup_append]
      refine ⟨hw.once, by simp, ?_⟩
      intro key hkey key' hkey'
      obtain ⟨e, he, rfl⟩ := List.mem_map.mp hkey
      obtain rfl := List.mem_singleton.mp hkey'
      intro hsame
      obtain ⟨row, hrow, -⟩ := hw.logged e he
      obtain ⟨hclient, hbatch⟩ := Prod.mk.inj hsame
      rw [hclient, hbatch, haccepts.noReceipt] at hrow
      cases hrow
    · intro e he
      rw [List.mem_append, List.mem_singleton] at he
      rcases he with he | rfl
      · exact hlogged e he
      · exact hack
  · have heffect : effectOf principal.clientId (ingest codec principal body now w.server).1 =
        [] := by
      rw [heq]
      by_cases hsha : receipt.payloadSha256 = d.payloadSha256 <;> simp [hsha, effectOf]
    rw [heffect, List.append_nil]
    exact ⟨hw.once, hlogged⟩
  · have heffect : effectOf principal.clientId (ingest codec principal body now w.server).1 =
        [] := by
      rw [heq]
      rfl
    rw [heffect, List.append_nil]
    exact ⟨hw.once, hlogged⟩

theorem inv_step (hw : Inv client w) (e : Event) : Inv client (step codec client role w e) := by
  cases e with
  | enqueue batch recordCount priority nowMs =>
      rw [step]
      split
      · exact hw
      · split
        · exact hw
        · rename_i encoded _ o ho
          refine ⟨hw.once, hw.logged, hw.replied, ?_⟩
          intro b hb
          rw [List.mem_append, List.mem_singleton] at hb
          rcases hb with hb | rfl
          · exact (hw.kept b hb).imp_left (holds_insertOutbox ho)
          · exact .inl (holds_insertOutbox_self ho)
  | send now =>
      rw [step]
      split
      · exact hw
      · exact ⟨hw.once, hw.logged, hw.replied, hw.kept⟩
  | deliver request now =>
      rw [step]
      split
      · exact hw
      · rename_i body _
        obtain ⟨honce, hlogged⟩ := log_ingest codec (token client role) body now hw
        refine ⟨honce, hlogged, ?_, fun b hb => (hw.kept b hb).imp_right hasReceipt_ingest⟩
        intro ack hack
        rw [List.mem_append] at hack
        rcases hack with hack | hack
        · exact hasReceipt_ingest (hw.replied ack hack)
        · cases hreply : (ingest codec (token client role) body now w.server).1 with
          | ack body' =>
              rw [hreply] at hack
              obtain rfl := List.mem_singleton.mp hack
              exact hasReceipt_of_ack hreply
          | conflict _ _ =>
              rw [hreply] at hack
              cases hack
          | err _ =>
              rw [hreply] at hack
              cases hack
  | acknowledge reply nowMs =>
      rw [step]
      split
      · exact hw
      · rename_i ack hack
        have hreceipt := hw.replied ack (List.mem_of_getElem? hack)
        refine ⟨hw.once, hw.logged, hw.replied, ?_⟩
        intro b hb
        by_cases hmatch : b.batchId = ack.batchId ∧ b.payloadSha256 = ack.payloadSha256
        · right
          rw [hmatch.1, hmatch.2]
          exact hreceipt
        · exact (hw.kept b hb).imp_left fun h => holds_markBatchAcked.mpr ⟨h, hmatch⟩
  | retry batchId error now =>
      exact ⟨hw.once, hw.logged, hw.replied, fun b hb =>
        (hw.kept b hb).imp_left holds_markBatchRetry.mpr⟩
  | post principal body now =>
      obtain ⟨honce, hlogged⟩ := log_ingest codec principal body now hw
      exact ⟨honce, hlogged, fun ack hack => hasReceipt_ingest (hw.replied ack hack),
        fun b hb => (hw.kept b hb).imp_right hasReceipt_ingest⟩

/-! ## Runs -/

/-- A step leaves the server alone, or does the writes of one batch and logs it. -/
def WritesLogged (codec : Codec) (w w' : World) : Prop :=
  (w'.log = w.log ∧ w'.server = w.server) ∨
    ∃ body decoded now, codec.decodeBatchWithPayload body = .ok decoded ∧
      w'.log = w.log ++
        [(decoded.batch.client.clientId, decoded.batch.batchId, decoded.payloadSha256)] ∧
      w'.server = applied w.server decoded.batch decoded.payloadSha256 now

theorem writesLogged_ingest (codec : Codec) (principal : Principal) (body : Bytes)
    (now : TimestampMs) (w w' : World)
    (hserver : w'.server = (ingest codec principal body now w.server).2)
    (hlog : w'.log =
      w.log ++ effectOf principal.clientId (ingest codec principal body now w.server).1) :
    WritesLogged codec w w' := by
  rcases ingest_cases codec principal body now w.server with
    ⟨d, hdecode, haccepts, heq⟩ | ⟨d, receipt, -, -, heq⟩ | ⟨status, heq⟩
  · right
    refine ⟨body, d, now, hdecode, ?_, by rw [hserver, heq]⟩
    rw [hlog, heq, haccepts.clientId]
    rfl
  · left
    rw [hlog, hserver, heq]
    by_cases hsha : receipt.payloadSha256 = d.payloadSha256 <;> simp [hsha, effectOf]
  · left
    rw [hlog, hserver, heq]
    simp [effectOf]

theorem writesLogged_step (w : World) (e : Event) :
    WritesLogged codec w (step codec client role w e) := by
  have hsame : WritesLogged codec w w := .inl ⟨rfl, rfl⟩
  cases e with
  | enqueue batch recordCount priority nowMs =>
      rw [step]
      split
      · exact hsame
      · split
        · exact hsame
        · exact .inl ⟨rfl, rfl⟩
  | send now =>
      rw [step]
      split
      · exact hsame
      · exact .inl ⟨rfl, rfl⟩
  | deliver request now =>
      rw [step]
      split
      · exact hsame
      · exact writesLogged_ingest codec (token client role) _ now _ _ rfl rfl
  | acknowledge reply nowMs =>
      rw [step]
      split
      · exact hsame
      · exact .inl ⟨rfl, rfl⟩
  | retry batchId error now => exact .inl ⟨rfl, rfl⟩
  | post principal body now => exact writesLogged_ingest codec principal body now _ _ rfl rfl

/-- A batch is missing from the outbox after a step that found it there only when the
server holds its receipt. -/
theorem left_step (hw : Inv client w) (e : Event) {batchId : Uuid} {sha : String} {body : Bytes}
    (hbefore : w.client.Holds batchId sha body)
    (hafter : ¬ (step codec client role w e).client.Holds batchId sha body) :
    HasReceipt (step codec client role w e).server client.clientId batchId sha := by
  cases e with
  | enqueue batch recordCount priority nowMs =>
      rw [step] at hafter
      split at hafter
      · exact absurd hbefore hafter
      · split at hafter
        · exact absurd hbefore hafter
        · rename_i ho
          exact absurd (holds_insertOutbox ho hbefore) hafter
  | send now =>
      rw [step] at hafter
      split at hafter <;> exact absurd hbefore hafter
  | deliver request now =>
      rw [step] at hafter
      split at hafter <;> exact absurd hbefore hafter
  | acknowledge reply nowMs =>
      rw [step] at hafter ⊢
      split at hafter
      · exact absurd hbefore hafter
      · rename_i ack hack
        rw [holds_markBatchAcked, not_and, not_not] at hafter
        obtain ⟨rfl, rfl⟩ := hafter hbefore
        exact hw.replied ack (List.mem_of_getElem? hack)
  | retry other error now =>
      exact absurd (holds_markBatchRetry.mpr hbefore) hafter
  | post principal body now => exact absurd hbefore hafter

/-- What a run from an idle network guarantees. -/
structure ExactlyOnce (codec : Codec) (client : ClientInstance) (role : TokenRole) (w₀ : World)
    (es : List Event) : Prop where
  /-- Every step leaves the server alone or does and logs the writes of one batch. -/
  effects : ∀ pre e post, es = pre ++ e :: post →
    WritesLogged codec (Run.run (step codec client role) w₀ pre)
      (Run.run (step codec client role) w₀ (pre ++ [e]))
  /-- No `(client_id, batch_id)` is logged twice. -/
  once : ((Run.run (step codec client role) w₀ es).log.map fun e => (e.1, e.2.1)).Nodup
  /-- A batch leaves the outbox only when its receipt is there. -/
  left : ∀ pre e post, es = pre ++ e :: post → ∀ batchId sha body,
    (Run.run (step codec client role) w₀ pre).client.Holds batchId sha body →
      ¬ (Run.run (step codec client role) w₀ (pre ++ [e])).client.Holds batchId sha body →
        HasReceipt (Run.run (step codec client role) w₀ (pre ++ [e])).server client.clientId
          batchId sha
  /-- Every recorded batch is in the outbox or has its receipt. -/
  kept : ∀ b ∈ (Run.run (step codec client role) w₀ es).enqueued,
    (Run.run (step codec client role) w₀ es).client.Holds b.batchId b.payloadSha256 b.bytes ∨
      HasReceipt (Run.run (step codec client role) w₀ es).server client.clientId b.batchId
        b.payloadSha256
  /-- A batch id with a receipt is acknowledged as a duplicate under the same digest, and
  refused under another; neither writes a row. -/
  repeated : ∀ (principal : Principal) body now decoded sha,
    codec.decodeBatchWithPayload body = .ok decoded → principal.role.canIngest →
      decoded.batch.client.clientId = principal.clientId →
        HasReceipt (Run.run (step codec client role) w₀ es).server principal.clientId
          decoded.batch.batchId sha →
          ∃ reply, ingest codec principal body now
              (Run.run (step codec client role) w₀ es).server =
                (reply, (Run.run (step codec client role) w₀ es).server) ∧
            if sha = decoded.payloadSha256 then
              reply = .ack ⟨decoded.batch.batchId, sha, 0, 0, true⟩
            else ∃ error detail, reply = .conflict error detail

/-- Delivery is exactly once, for every interleaving. -/
theorem exactlyOnce_run (codec : Codec) (client : ClientInstance) (role : TokenRole)
    (outbox : Outbox) (server : Database) (es : List Event) :
    ExactlyOnce codec client role (.start outbox server) es := by
  have hinv (l : List Event) :
      Inv client (Run.run (step codec client role) (.start outbox server) l) :=
    Run.invariant (I := Inv client) (fun w e hw => inv_step hw e) (inv_start client outbox server) l
  refine ⟨?_, (hinv es).once, ?_, (hinv es).kept, ?_⟩
  · rintro pre e post -
    rw [Run.run_snoc]
    exact writesLogged_step _ e
  · rintro pre e post - batchId sha body hbefore hafter
    rw [Run.run_snoc] at hafter ⊢
    exact left_step (hinv pre) e hbefore hafter
  · rintro principal body now decoded sha hdecode hrole hclient ⟨row, hrow, rfl⟩
    refine ⟨_, ingest_of_receipt hdecode hrole hclient hrow, ?_⟩
    by_cases hsha : row.payloadSha256 = decoded.payloadSha256
    · simp [hsha]
    · simp [hsha]

end System

end Codexwatch.System
