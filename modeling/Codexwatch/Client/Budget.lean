import Mathlib.Algebra.Order.BigOperators.Group.List
import Codexwatch.Client.Ingress
import Codexwatch.Lib.Run

/-!
# The budget of the outbox

`ensure_outbox_capacity` is asked before every insertion, and an acknowledgement
only deletes. Batches without priority therefore leave 64 MiB of the hard cap
free, and a batch with priority fits as long as those with priority fill less.

## Main definitions

* `WithinBudget` — the two bounds.
* `Enqueuing` — an outbox that a call of `persist_ingress` passes through.
* `outbox_budget` — the bounds in every reachable state, and what is refused.
-/
namespace Codexwatch.Client

open Protocol Relational

/-- What the outbox may hold: the hard cap, and the cap of batches without priority. -/
structure WithinBudget (o : Outbox) : Prop where
  total : outboxBytes o (fun _ => true) ≤ OUTBOX_HARD_CAP_BYTES
  routine : outboxBytes o (fun row => !row.isPriority) ≤
    OUTBOX_HARD_CAP_BYTES - OUTBOX_PRIORITY_RESERVE_BYTES

section Bytes
variable {o o' : Outbox}

theorem outboxBytes_add : outboxBytes o OutboxRow.isPriority +
    outboxBytes o (fun row => !row.isPriority) = outboxBytes o fun _ => true := by
  unfold outboxBytes
  induction o.outbox.rows with
  | nil => simp
  | cons r rows ih => cases hpriority : r.2.isPriority <;> simp [hpriority] at ih ⊢ <;> omega

theorem outboxBytes_insertOutbox {encoded : EncodedBatch} {recordCount : ℕ} {priority : Bool}
    {nowMs : ℤ} (h : insertOutbox o encoded recordCount priority nowMs = some o') :
    outboxBytes o' (fun _ => true) = outboxBytes o (fun _ => true) + encoded.bytes.length ∧
      outboxBytes o' OutboxRow.isPriority =
        outboxBytes o OutboxRow.isPriority + if priority then encoded.bytes.length else 0 := by
  obtain ⟨table, htable, rfl⟩ := Option.map_eq_some_iff.mp h
  obtain ⟨hfree, rfl⟩ := Table.insertNew_eq_some.mp htable
  simp only [outboxBytes, Table.rows_put_of_none hfree]
  cases priority <;> simp

theorem outboxBytes_markBatchAcked_le {ack : IngestAck} {nowMs : ℤ} (p : OutboxRow → Bool) :
    outboxBytes (markBatchAcked o ack nowMs) p ≤ outboxBytes o p := by
  apply List.Sublist.sum_le_sum
  · exact (List.filter_sublist.filter _).map _
  · simp

/-- A batch that is let in keeps the outbox within its budget. -/
theorem WithinBudget.insertOutbox (h : WithinBudget o) {encoded : EncodedBatch} {recordCount : ℕ}
    {priority : Bool} {nowMs : ℤ}
    (hcapacity : ensureOutboxCapacity o encoded.bytes.length priority = true)
    (hinsert : insertOutbox o encoded recordCount priority nowMs = some o') :
    WithinBudget o' := by
  have hroutine := h.routine
  have hadd := @outboxBytes_add o
  have hadd' := @outboxBytes_add o'
  obtain ⟨htotal, hpriority⟩ := outboxBytes_insertOutbox hinsert
  simp only [ensureOutboxCapacity, Bool.and_eq_true, decide_eq_true_eq, Bool.or_eq_true]
    at hcapacity
  constructor
  · omega
  · cases priority <;> simp at hpriority hcapacity <;> omega

theorem WithinBudget.markBatchAcked (h : WithinBudget o) (ack : IngestAck) (nowMs : ℤ) :
    WithinBudget (markBatchAcked o ack nowMs) where
  total := (outboxBytes_markBatchAcked_le _).trans h.total
  routine := (outboxBytes_markBatchAcked_le _).trans h.routine

/-- The reserve is for the batches with priority. -/
theorem WithinBudget.refused (h : WithinBudget o) {n : ℕ}
    (hrefused : ensureOutboxCapacity o n true = false) :
    OUTBOX_HARD_CAP_BYTES < outboxBytes o (fun _ => true) + n ∧
      OUTBOX_PRIORITY_RESERVE_BYTES < outboxBytes o OutboxRow.isPriority + n := by
  have hroutine := h.routine
  have hadd := @outboxBytes_add o
  simp only [ensureOutboxCapacity, Bool.true_or, Bool.and_true, decide_eq_false_iff_not,
    not_le] at hrefused
  have hcaps : OUTBOX_PRIORITY_RESERVE_BYTES ≤ OUTBOX_HARD_CAP_BYTES := by decide
  omega

end Bytes

/-! ## The loop of a call -/

section Calls
variable (client : ClientInstance) (codec : Codec) (t : Tick) (s : Store)
  (records : List SummaryRecord) (contents : List StoredContentInput)

/-- The records that a call enqueues, in numbered chunks. -/
def enqueuedChunks : List (List SummaryRecord × ℕ) :=
  (splitRecords (applyRecords s (records.map (normalizeRecord codec))).1).zipIdx

/-- Whether the batches of a call have priority. -/
def hasPriority : Bool :=
  (applyRecords s (records.map (normalizeRecord codec))).1.any isPriorityRecord

/-- The loop of a call over its first chunks. -/
def enqueueFirst (chunks : List (List SummaryRecord × ℕ)) : Option (ℕ × Outbox) :=
  chunks.foldlM (enqueueChunk client codec t (writtenStore codec s records contents)
    (hasPriority codec s records)) (0, s.outbox)

/-- An outbox that a call passes through. -/
def Enqueuing (o : Outbox) : Prop :=
  ∃ done inserted, done <+: enqueuedChunks codec s records ∧
    enqueueFirst client codec t s records contents done = some (inserted, o)

/-- Some batch of the call finds no room in the outbox that the call has reached. -/
def Refused : Prop :=
  ∃ done chunk inserted o encoded, done ++ [chunk] <+: enqueuedChunks codec s records ∧
    enqueueFirst client codec t s records contents done = some (inserted, o) ∧
    codec.encodeBatch (buildWireBatch client t (writtenStore codec s records contents) chunk.2
      chunk.1) = .ok encoded ∧
    ¬ ((buildWireBatch client t (writtenStore codec s records contents) chunk.2 chunk.1).tasks = [] ∧
      (buildWireBatch client t (writtenStore codec s records contents) chunk.2
        chunk.1).heartbeats = []) ∧
    ensureOutboxCapacity o encoded.bytes.length (hasPriority codec s records) = false

variable {client codec t s records contents}

theorem WithinBudget.enqueueChunk {priority : Bool} {inserted inserted' : ℕ × Outbox}
    {chunk : List SummaryRecord × ℕ} (h : WithinBudget inserted.2)
    (henqueue : enqueueChunk client codec t s priority inserted chunk = some inserted') :
    WithinBudget inserted'.2 := by
  simp only [Client.enqueueChunk] at henqueue
  split at henqueue
  · cases henqueue
    exact h
  · split at henqueue
    · cases henqueue
    · split at henqueue
      · rename_i hcapacity
        rw [Option.map_eq_some_iff] at henqueue
        rcases henqueue with ⟨o, ho, rfl⟩
        exact h.insertOutbox hcapacity ho
      · cases henqueue

theorem WithinBudget.enqueuing (h : WithinBudget s.outbox) {o : Outbox}
    (henqueuing : Enqueuing client codec t s records contents o) : WithinBudget o := by
  rcases henqueuing with ⟨done, inserted, -, hdone⟩
  exact Run.invariant_foldlM (J := fun inserted : ℕ × Outbox => WithinBudget inserted.2)
    (fun _ _ _ hb hchunk => hb.enqueueChunk hchunk) h hdone

theorem WithinBudget.persistIngress (h : WithinBudget s.outbox) :
    WithinBudget (persistIngress client codec t s records contents).2.outbox := by
  rcases persistIngress_cases client codec t s records contents with
    ⟨-, files, heq⟩ | ⟨inserted, outbox, henqueue, -, heq⟩
  · rw [heq]
    exact h
  · rw [heq]
    have houtbox : (writtenStore codec s records contents).outbox = s.outbox := outbox_applyRecords
    rw [enqueueRecords, houtbox] at henqueue
    exact h.enqueuing ⟨_, inserted, List.prefix_rfl, henqueue⟩

/-- A refusal ends the call, and nothing but files is left of it. -/
theorem persistIngress_of_refused (h : Refused client codec t s records contents) :
    (persistIngress client codec t s records contents).1 = none ∧
      ∃ files, (persistIngress client codec t s records contents).2 = s.rollback files := by
  rcases persistIngress_cases client codec t s records contents with
    hrollback | ⟨inserted', outbox, henqueue, -, -⟩
  · exact hrollback
  · exfalso
    rcases h with ⟨done, chunk, inserted, o, encoded, ⟨rest, hchunks⟩, hdone, hencode, hne, hfull⟩
    have houtbox : (writtenStore codec s records contents).outbox = s.outbox := outbox_applyRecords
    have hrefused : enqueueChunk client codec t (writtenStore codec s records contents)
        (hasPriority codec s records) (inserted, o) chunk = none := by
      simp only [Client.enqueueChunk, if_neg hne, hencode, hfull, Bool.false_eq_true, if_false]
    have hall : enqueueFirst client codec t s records contents (enqueuedChunks codec s records) =
        some (inserted', outbox) := by
      rw [enqueueRecords, houtbox] at henqueue
      exact henqueue
    rw [← hchunks, enqueueFirst, List.append_assoc, List.foldlM_append] at hall
    rw [enqueueFirst] at hdone
    simp [hdone, hrefused] at hall

end Calls

/-! ## Reachable states -/

inductive OutboxEvent
  | persistIngress (t : Tick) (records : List SummaryRecord) (contents : List StoredContentInput)
  | markBatchAcked (ack : IngestAck) (now : OffsetDateTime)

section Runs
variable (client : ClientInstance) (codec : Codec)

def outboxStep (s : Store) : OutboxEvent → Store
  | .persistIngress t records contents => (persistIngress client codec t s records contents).2
  | .markBatchAcked ack now => { s with outbox := markBatchAcked s.outbox ack (ts now) }

/-- What the budget promises in a state, and of every call of `persist_ingress` made there. -/
structure Budgeted (s : Store) : Prop where
  within : WithinBudget s.outbox
  during : ∀ t records contents o, Enqueuing client codec t s records contents o → WithinBudget o
  refused : ∀ t records contents o n, Enqueuing client codec t s records contents o →
    ensureOutboxCapacity o n true = false →
      OUTBOX_HARD_CAP_BYTES < outboxBytes o (fun _ => true) + n ∧
      OUTBOX_PRIORITY_RESERVE_BYTES < outboxBytes o OutboxRow.isPriority + n
  rollback : ∀ t records contents, Refused client codec t s records contents →
    (persistIngress client codec t s records contents).1 = none ∧
      ∃ files, (persistIngress client codec t s records contents).2 = s.rollback files

/-- Whatever is persisted and acknowledged, the outbox stays within its budget, a batch with
priority is refused only over the hard cap, and a refused call leaves every table as it was. -/
theorem outbox_budget (events : List OutboxEvent) :
    Budgeted client codec (Run.run (outboxStep client codec) .empty events) := by
  have hwithin : WithinBudget (Run.run (outboxStep client codec) .empty events).outbox := by
    apply Run.invariant (I := fun s : Store => WithinBudget s.outbox)
    · intro s event hs
      cases event with
      | persistIngress t records contents => exact hs.persistIngress
      | markBatchAcked ack now => exact hs.markBatchAcked ack (ts now)
    · exact ⟨by simp [outboxBytes, Store.empty, Table.empty],
        by simp [outboxBytes, Store.empty, Table.empty]⟩
  exact ⟨hwithin, fun _ _ _ _ => hwithin.enqueuing,
    fun _ _ _ _ _ henqueuing => (hwithin.enqueuing henqueuing).refused,
    fun _ _ _ => persistIngress_of_refused⟩

end Runs

end Codexwatch.Client
