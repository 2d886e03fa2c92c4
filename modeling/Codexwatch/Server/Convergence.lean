import Codexwatch.Lib.Redelivery
import Codexwatch.Lib.Run
import Codexwatch.Server.Ingest

/-!
# Snapshots of one task, delivered in any order

A client puts the successive uploads of a task in batches of their own. A batch that
failed once is retried after a backoff, so batches reach the server in any order and
any number of times. The task row after any deliveries is the row of the batch that
was last delivered for the first time (`delivered_run`): `persist_task_upload` writes
it without looking at the sequence of the stored snapshot.

## Main definitions

* `TaskBatch taskRef` — a batch with an upload of the task.
* `deliver` — one delivery.
* `Converges` — what a run of deliveries owes the reader of the task row.
-/
namespace Codexwatch.Server

open Protocol Relational Redelivery

/-- A batch with an upload of the task. -/
structure TaskBatch (taskRef : String) where
  batch : IngestBatch
  upload : TaskUpload
  mem_tasks : upload ∈ batch.tasks
  taskRef_eq : upload.snapshot.taskRef = taskRef
  deriving DecidableEq

def TaskBatch.sequence {taskRef : String} (b : TaskBatch taskRef) : ℕ := b.upload.snapshot.sequence

/-- A batch and the server's clock when it arrives. -/
structure Delivery (taskRef : String) where
  sent : TaskBatch taskRef
  now : TimestampMs

section Deliveries
variable (codec : Codec) (principal : Principal) {taskRef : String}

def deliver (db : Database) (d : Delivery taskRef) : Database :=
  (ingest codec principal (codec.encodingOf d.sent.batch).bytes d.now db).2

/-- The row that a batch stores the task as. -/
def TaskBatch.row (b : TaskBatch taskRef) : TaskRow :=
  taskRowOf principal.clientId b.upload.snapshot

/-- The batches of one client with the uploads of one task: they encode, and their
identifiers and sequences are their own. -/
structure Outgoing (batches : List (TaskBatch taskRef)) : Prop where
  role : principal.role.canIngest
  client : ∀ b ∈ batches, b.batch.client.clientId = principal.clientId
  encodes : ∀ b ∈ batches, codec.encodeBatch b.batch = .ok (codec.encodingOf b.batch)
  lawful : ∀ b ∈ batches, codec.LawfulFor b.batch
  batchIds : ∀ a ∈ batches, ∀ b ∈ batches, a.batch.batchId = b.batch.batchId → a = b
  sequences : ∀ a ∈ batches, ∀ b ∈ batches, a.sequence = b.sequence → a = b
  heartbeatIds : ∀ b ∈ batches, (b.batch.heartbeats.map Heartbeat.heartbeatId).Nodup
  heartbeatsDisjoint : ∀ a ∈ batches, ∀ b ∈ batches, a ≠ b → ∀ g ∈ a.batch.heartbeats,
    ∀ h ∈ b.batch.heartbeats, g.heartbeatId ≠ h.heartbeatId

/-- After the deliveries `ds` of some of the batches: the task row is the one held, a
batch has a receipt when it was delivered, and its heartbeats are new until then. -/
structure Delivered (batches ds : List (TaskBatch taskRef)) (db : Database) : Prop where
  task : db.tasks.get? taskRef = (held ds).map (TaskBatch.row principal)
  receipts : ∀ b ∈ batches,
    (db.ingestReceipts.get? (principal.clientId, b.batch.batchId)).isSome ↔ b ∈ ds
  heartbeats : ∀ b ∈ batches, b ∉ ds → ∀ h ∈ b.batch.heartbeats,
    db.heartbeats.get? h.heartbeatId = none

variable {codec principal} {batches ds : List (TaskBatch taskRef)} {db : Database}

/-- A batch that is applied stores its own upload of the task. -/
theorem task_applied {b : TaskBatch taskRef} {sha : String} {now : TimestampMs}
    (hvalid : b.batch.Valid) (hclient : b.batch.client.clientId = principal.clientId) :
    (applied db b.batch sha now).tasks.get? taskRef = some (b.row principal) := by
  have hnodup : ((taskRows b.batch).map Prod.fst).Nodup := by
    have hkeys : (taskRows b.batch).map Prod.fst =
        b.batch.tasks.map fun u => u.snapshot.taskRef := by simp [taskRows, Function.comp_def]
    rw [hkeys]
    exact hvalid.taskRefs
  rw [applied_tasks]
  refine Table.get?_putAll_of_nodup hnodup (List.mem_map.mpr ⟨b.upload, b.mem_tasks, ?_⟩)
  rw [b.taskRef_eq, hclient]
  rfl

theorem delivered_deliver (hout : Outgoing codec principal batches)
    (h : Delivered principal batches ds db) {d : Delivery taskRef} (hd : d.sent ∈ batches) :
    Delivered principal batches (ds ++ [d.sent]) (deliver codec principal db d) := by
  have hdecode := Codec.decode_encodeBatch (hout.lawful _ hd) (hout.encodes _ hd)
  by_cases hmem : d.sent ∈ ds
  · -- a repetition: the receipt answers it
    obtain ⟨receipt, hreceipt⟩ := Option.isSome_iff_exists.mp ((h.receipts _ hd).mpr hmem)
    have hsame : deliver codec principal db d = db := by
      rw [deliver, ingest_of_receipt hdecode hout.role (hout.client _ hd) hreceipt]
    have hiff : ∀ b, b ∈ ds ++ [d.sent] ↔ b ∈ ds := by
      intro b
      rw [List.mem_append, List.mem_singleton]
      exact ⟨fun hb => hb.elim id fun he => he ▸ hmem, .inl⟩
    rw [hsame]
    refine ⟨by rw [held_snoc_of_mem hmem, h.task], ?_, ?_⟩
    · intro b hb
      rw [hiff, h.receipts b hb]
    · intro b hb hnot
      exact h.heartbeats b hb fun hb' => hnot ((hiff b).mpr hb')
  · have hvalid := (Codec.encodeBatch_eq_ok_iff.mp (hout.encodes _ hd)).1
    have haccepts : Accepts principal d.sent.batch db := by
      refine ⟨hout.role, hout.client _ hd, ?_, hout.heartbeatIds _ hd, h.heartbeats _ hd hmem⟩
      rw [← Option.not_isSome_iff_eq_none, h.receipts _ hd]
      exact hmem
    rw [deliver, ingest_of_accepts hdecode haccepts]
    refine ⟨?_, ?_, ?_⟩
    · rw [held_snoc_of_not_mem hmem, task_applied hvalid (hout.client _ hd)]
      rfl
    · intro b hb
      rw [applied_ingestReceipts, Table.get?_put, List.mem_append, List.mem_singleton]
      by_cases hbd : b = d.sent
      · simp [hbd, hout.client _ hd]
      · have hid : b.batch.batchId ≠ d.sent.batch.batchId := fun he =>
          hbd (hout.batchIds b hb _ hd he)
        simp [hid, hbd, h.receipts b hb]
    · intro b hb hnot g hg
      rw [List.mem_append, not_or, List.mem_singleton] at hnot
      rw [applied_heartbeats, Table.get?_putAll_of_not_mem]
      · exact h.heartbeats b hb hnot.1 g hg
      · rw [List.map_map]
        intro hmem'
        obtain ⟨g', hg', heq⟩ := List.mem_map.mp hmem'
        exact hout.heartbeatsDisjoint _ hd b hb (Ne.symm hnot.2) g' hg' g hg heq

/-- The task row after a run is the row of the batch last delivered for the first time. -/
theorem delivered_run (hout : Outgoing codec principal batches)
    (h : Delivered principal batches [] db) {ds : List (Delivery taskRef)}
    (hds : ∀ d ∈ ds, d.sent ∈ batches) :
    Delivered principal batches (ds.map Delivery.sent)
      (Run.run (deliver codec principal) db ds) := by
  induction ds using List.reverseRecOn with
  | nil => exact h
  | append_singleton ds d ih =>
      rw [List.map_append, Run.run_snoc]
      exact delivered_deliver hout (ih fun e he => hds e (by simp [he])) (hds d (by simp))

/-! ## Convergence -/

/-- Along the run the stored sequence never decreases and no terminal snapshot gives way
to a non-terminal one of a lower sequence; once every batch was delivered, the stored
snapshot is the one with the greatest sequence. -/
structure Converges (codec : Codec) (principal : Principal) (batches : List (TaskBatch taskRef))
    (db : Database) (ds : List (Delivery taskRef)) : Prop where
  sequence : ∀ pre d post, ds = pre ++ d :: post →
    ∀ old, (Run.run (deliver codec principal) db pre).tasks.get? taskRef = some old →
      ∃ new, (Run.run (deliver codec principal) db (pre ++ [d])).tasks.get? taskRef = some new ∧
        old.snapshotJson.sequence ≤ new.snapshotJson.sequence
  terminal : ∀ pre d post, ds = pre ++ d :: post → ∀ old new,
    (Run.run (deliver codec principal) db pre).tasks.get? taskRef = some old →
      (Run.run (deliver codec principal) db (pre ++ [d])).tasks.get? taskRef = some new →
        ¬ (old.phase = .terminal ∧ new.phase ≠ .terminal ∧
          new.snapshotJson.sequence < old.snapshotJson.sequence)
  final : (∀ b ∈ batches, b ∈ ds.map Delivery.sent) → ∀ b ∈ batches,
    (∀ a ∈ batches, a.sequence ≤ b.sequence) →
      (Run.run (deliver codec principal) db ds).tasks.get? taskRef = some (b.row principal)

/-- The snapshots converge exactly when the first deliveries of the batches come in the
order of their sequences. -/
theorem converges_iff (hout : Outgoing codec principal batches)
    (hstart : Delivered principal batches [] db) {ds : List (Delivery taskRef)}
    (hds : ∀ d ∈ ds, d.sent ∈ batches) :
    Converges codec principal batches db ds ↔
      FirstsIncrease TaskBatch.sequence (ds.map Delivery.sent) := by
  have hrow : ∀ l : List (Delivery taskRef), (∀ d ∈ l, d.sent ∈ batches) →
      (Run.run (deliver codec principal) db l).tasks.get? taskRef =
        (held (l.map Delivery.sent)).map (TaskBatch.row principal) := fun l hl =>
    (delivered_run hout hstart hl).task
  have hrank : ∀ a ∈ ds.map Delivery.sent, ∀ b ∈ ds.map Delivery.sent,
      a.sequence = b.sequence → a = b := by
    simp only [List.forall_mem_map]
    exact fun a ha b hb => hout.sequences _ (hds a ha) _ (hds b hb)
  rw [← neverDecreases_iff hrank]
  constructor
  · intro h pre' d' post' hsplit old hold
    obtain ⟨pre, rest, rfl, rfl, hrest⟩ := List.map_eq_append_iff.mp hsplit
    obtain ⟨d, post, rfl, rfl, -⟩ := List.map_eq_cons_iff.mp hrest
    have hpre : ∀ e ∈ pre, e.sent ∈ batches := fun e he => hds e (by simp [he])
    have hpred : ∀ e ∈ pre ++ [d], e.sent ∈ batches := fun e he =>
      hds e (by rw [List.mem_append, List.mem_singleton] at he; rcases he with he | rfl <;> simp [*])
    obtain ⟨new, hnew, hle⟩ := h.sequence pre d post rfl (old.row principal)
      (by rw [hrow pre hpre, hold]; rfl)
    rw [hrow _ hpred, List.map_append, List.map_singleton] at hnew
    obtain ⟨b, hb, rfl⟩ := Option.map_eq_some_iff.mp hnew
    exact ⟨b, hb, hle⟩
  · intro h
    have hsequence : ∀ pre d post, ds = pre ++ d :: post → ∀ old,
        (Run.run (deliver codec principal) db pre).tasks.get? taskRef = some old →
        ∃ new, (Run.run (deliver codec principal) db (pre ++ [d])).tasks.get? taskRef =
          some new ∧ old.snapshotJson.sequence ≤ new.snapshotJson.sequence := by
      rintro pre d post rfl old hold
      rw [hrow pre fun e he => hds e (by simp [he])] at hold
      obtain ⟨a, ha, rfl⟩ := Option.map_eq_some_iff.mp hold
      obtain ⟨b, hb, hle⟩ := h (pre.map Delivery.sent) d.sent (post.map Delivery.sent) (by simp)
        a ha
      refine ⟨b.row principal, ?_, hle⟩
      rw [hrow _ fun e he => hds e (by
        rw [List.mem_append, List.mem_singleton] at he; rcases he with he | rfl <;> simp [*]),
        List.map_append, List.map_singleton, hb]
      rfl
    refine ⟨hsequence, ?_, ?_⟩
    · rintro pre d post hsplit old new hold hnew ⟨-, -, hlt⟩
      obtain ⟨new', hnew', hle⟩ := hsequence pre d post hsplit old hold
      obtain rfl := Option.some.inj (hnew.symm.trans hnew')
      omega
    · intro hall b hb hmax
      obtain ⟨m, hm⟩ : ∃ m, held (ds.map Delivery.sent) = some m := by
        have hne : (ds.map Delivery.sent).eraseDups ≠ [] :=
          List.ne_nil_of_mem (List.mem_eraseDups.mpr (hall b hb))
        exact ⟨_, List.getLast?_eq_some_getLast hne⟩
      obtain ⟨d, hd, rfl⟩ := List.mem_map.mp (mem_of_held hm)
      have hle := rank_le_of_held ((neverDecreases_iff hrank).mp h) hm b (hall b hb)
      have heq := hout.sequences _ (hds d hd) b hb (le_antisymm (hmax _ (hds d hd)) hle)
      rw [hrow ds hds, hm, heq]
      rfl

end Deliveries

/-! ## Two batches -/

def sampleTaskBatch (n : ℕ) : TaskBatch "s:t:u" where
  batch := sampleBatch "a" "u" n n
  upload := ⟨sampleSnapshot "u" n, [], [], [], []⟩
  mem_tasks := by simp [sampleBatch]
  taskRef_eq := by simp [sampleSnapshot]

def sampleTaskBatches : List (TaskBatch "s:t:u") := [sampleTaskBatch 1, sampleTaskBatch 2]

def sampleCodec : Codec := .writing (sampleTaskBatches.map TaskBatch.batch)

def clientA : Principal := ⟨"a", .client⟩

theorem find_sampleTaskBatches : ∀ b ∈ sampleTaskBatches,
    (sampleTaskBatches.map TaskBatch.batch).find? (fun other =>
      other.cbor.isPrefixOf b.batch.cbor) = some b.batch := by
  decide +kernel

theorem outgoing_sample : Outgoing sampleCodec clientA sampleTaskBatches where
  role := by decide
  client := by decide +kernel
  encodes := by decide +kernel
  lawful b hb := Codec.lawfulFor_writing (find_sampleTaskBatches b hb)
  batchIds := by decide +kernel
  sequences := by decide +kernel
  heartbeatIds := by decide +kernel
  heartbeatsDisjoint := by decide +kernel

theorem delivered_empty {taskRef : String} (principal : Principal)
    (batches : List (TaskBatch taskRef)) : Delivered principal batches [] Database.empty where
  task := rfl
  receipts _ _ := by simp [Database.empty]
  heartbeats _ _ _ _ _ := rfl

/-- The first batch is delivered twice before the second. -/
theorem converges_sample : Converges sampleCodec clientA sampleTaskBatches Database.empty
    [⟨sampleTaskBatch 1, 20⟩, ⟨sampleTaskBatch 1, 21⟩, ⟨sampleTaskBatch 2, 22⟩] :=
  (converges_iff outgoing_sample (delivered_empty _ _) (by decide)).mpr (by decide)

/-- The first batch fails once and is retried after the second: the older snapshot stays. -/
theorem not_converges_sample : ¬ Converges sampleCodec clientA sampleTaskBatches Database.empty
    [⟨sampleTaskBatch 2, 20⟩, ⟨sampleTaskBatch 1, 21⟩] := by
  intro h
  obtain ⟨new, hnew, hle⟩ := h.sequence [⟨sampleTaskBatch 2, 20⟩] ⟨sampleTaskBatch 1, 21⟩ [] rfl
    ((sampleTaskBatch 2).row clientA) (by decide +kernel)
  have hstored : (Run.run (deliver sampleCodec clientA) Database.empty
      [⟨sampleTaskBatch 2, 20⟩, ⟨sampleTaskBatch 1, 21⟩]).tasks.get? "s:t:u" =
        some ((sampleTaskBatch 1).row clientA) := by decide +kernel
  obtain rfl := Option.some.inj (hnew.symm.trans hstored)
  revert hle
  decide

end Codexwatch.Server
