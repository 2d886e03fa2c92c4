import Codexwatch.Client.Commands
import Codexwatch.Client.Ingress
import Codexwatch.Client.Projection
import Codexwatch.Lib.Run

/-!
# Asking for captured content

Runs of the operations of the client's store, and what `prepare_upload` answers after
them. The rows of `raw_objects` are keyed by the digest of the body alone, and are
looked up by task and part: storing the same body for another part takes the row away
from the first one. Where no store does that, and none is as old as the one before it,
the last content of a part is found until it expires.

## Main definitions

* `StoreOp`, `History` — an operation, and the store with what it has accepted.
* `KeepsNewest` — the content takes no other part's row, and is newer than its own part's.
* `retrievable_of_separate` — the last content of a part.
-/
namespace Codexwatch.Client

open Protocol Relational Check

inductive StoreOp
  | persistIngress (t : Tick) (records : List SummaryRecord) (contents : List StoredContentInput)
  | saveCommands (commands : List ContentRequestCommand) (now : OffsetDateTime)
  | prepareUpload (command : ContentRequestCommand) (now : OffsetDateTime)
  | completeCommand (commandId : Uuid) (result : ContentUploadResult) (keepPinned : Bool)
      (now : OffsetDateTime)
  | failCommand (commandId : Uuid) (error : String) (keepPinned : Bool) (now : OffsetDateTime)
  | cleanup (now : OffsetDateTime)

def StoreOp.now : StoreOp → OffsetDateTime
  | .persistIngress t _ _ => t.now
  | .saveCommands _ now | .prepareUpload _ now | .completeCommand _ _ _ now
  | .failCommand _ _ _ now | .cleanup now => now

/-- The store, and the contents that were stored in it, the latest last. -/
structure History where
  store : Store
  stored : List StoredContentInput

def History.empty : History := ⟨.empty, []⟩

/-- The content that was stored last for the part. -/
def mostRecent (stored : List StoredContentInput) (taskRef : String) (part : ContentPart) :
    Option StoredContentInput :=
  (stored.filter fun input => input.task.taskRef = taskRef ∧ input.part = part).getLast?

section Operations
variable (client : ClientInstance) (codec : Codec)

def History.step (h : History) : StoreOp → History
  | .persistIngress t records contents =>
      let persisted := Client.persistIngress client codec t h.store records contents
      ⟨persisted.2, if persisted.1.isSome then h.stored ++ contents else h.stored⟩
  | .saveCommands commands now =>
      { h with store.contents := Client.saveCommands h.store.contents commands (ts now) }
  | .prepareUpload command now =>
      { h with store.contents := (Client.prepareUpload h.store.contents command (ts now)).2 }
  | .completeCommand commandId result keepPinned now =>
      { h with
        store.contents :=
          Client.completeCommand h.store.contents commandId result keepPinned (ts now) }
  | .failCommand commandId error keepPinned now =>
      { h with
        store.contents := Client.failCommand codec h.store.contents commandId error keepPinned now }
  | .cleanup now =>
      { h with
        store.contents := Client.cleanup h.store.contents now
        store.outbox := deleteAcked h.store.outbox now }

/-- What is stored of a body. -/
def storedBlobOf (input : StoredContentInput) : StoredBlob where
  task := input.task
  part := input.part
  objectSha256 := codec.sha256Hex input.body
  mediaType := input.mediaType
  uncompressedBytes := input.body.length
  compressedBytes := codec.encodeAll input.body
  chunkCount := chunkCount input.body.length
  createdAt := input.createdAt
  expiresAt := input.createdAt + hours RETENTION_HOURS
  sanitizedHeaders := sanitizeHeaders input.headers

/-- The row with the digest of the body is not what another part has newest, and the part has
nothing else that is as new. -/
structure KeepsNewest (c : Contents) (input : StoredContentInput) : Prop where
  taken : ∀ row, c.rawObjects.get? (codec.sha256Hex input.body) = some row →
    (newestObject c row.taskRef row.part).map Prod.fst = some (codec.sha256Hex input.body) →
    row.taskRef = input.task.taskRef ∧ row.part = input.part
  newer : ∀ objectSha256 row, c.rawObjects.get? objectSha256 = some row →
    row.taskRef = input.task.taskRef → row.part = input.part →
    objectSha256 ≠ codec.sha256Hex input.body → row.createdAt < ts input.createdAt

instance (c : Contents) (input : StoredContentInput) : Decidable (KeepsNewest codec c input) :=
  decidable_of_iff
    ((∀ r ∈ c.rawObjects.rows, r.1 = codec.sha256Hex input.body →
      (newestObject c r.2.taskRef r.2.part).map Prod.fst = some (codec.sha256Hex input.body) →
      r.2.taskRef = input.task.taskRef ∧ r.2.part = input.part) ∧
    ∀ r ∈ c.rawObjects.rows, r.2.taskRef = input.task.taskRef → r.2.part = input.part →
      r.1 ≠ codec.sha256Hex input.body → r.2.createdAt < ts input.createdAt)
    ⟨fun h => ⟨fun _ hrow => h.1 _ (Table.get?_eq_some.mp hrow) rfl,
      fun _ _ hrow => h.2 _ (Table.get?_eq_some.mp hrow)⟩,
     fun h => ⟨fun r hr hsha => h.taken r.2 (by rw [← hsha]; exact Table.mem_rows_iff.mp hr),
      fun r hr => h.newer r.1 r.2 (Table.mem_rows_iff.mp hr)⟩⟩

/-- So does each of several contents, in the state in which it is stored. -/
def AllKeepNewest : Contents → List StoredContentInput → Prop
  | _, [] => True
  | c, input :: inputs => KeepsNewest codec c input ∧
      ∀ stored c', persistContent codec c input = some (stored, c') → AllKeepNewest c' inputs

/-- What is persisted keeps the newest rows. -/
def Separate (h : History) : StoreOp → Prop
  | .persistIngress t records contents =>
      (Client.persistIngress client codec t h.store records contents).1.isSome = true →
        AllKeepNewest codec h.store.contents contents
  | _ => True

end Operations

/-! ## The newest row of a part -/

section Newest
variable {c : Contents} {taskRef : String} {part : ContentPart} {objectSha256 : String}
  {row : RawObjectRow}

/-- The row is newer than every other one of the part. -/
structure IsNewest (c : Contents) (taskRef : String) (part : ContentPart) (objectSha256 : String)
    (row : RawObjectRow) : Prop where
  stored : c.rawObjects.get? objectSha256 = some row
  own : row.taskRef = taskRef ∧ row.part = part
  newer : ∀ objectSha256' row', c.rawObjects.get? objectSha256' = some row' →
    row'.taskRef = taskRef → row'.part = part → objectSha256' ≠ objectSha256 →
    row'.createdAt < row.createdAt

theorem IsNewest.newestObject_eq (h : IsNewest c taskRef part objectSha256 row) :
    newestObject c taskRef part = some (objectSha256, row) := by
  have hmem : (objectSha256, row) ∈
      c.rawObjects.rows.filter fun r => r.2.taskRef = taskRef ∧ r.2.part = part := by
    rw [List.mem_filter, Table.mem_rows_iff]
    exact ⟨h.stored, by simp [h.own]⟩
  have hother : ∀ r ∈ c.rawObjects.rows.filter fun r => r.2.taskRef = taskRef ∧ r.2.part = part,
      r = (objectSha256, row) ∨ r.2.createdAt < row.createdAt := by
    intro r hr
    rw [List.mem_filter, Table.mem_rows_iff, decide_eq_true_iff] at hr
    obtain ⟨hrow, htask, hpart⟩ := hr
    by_cases hsha : r.1 = objectSha256
    · left
      rw [hsha, h.stored] at hrow
      exact Prod.ext hsha (Option.some.inj hrow).symm
    · exact .inr (h.newer _ _ hrow htask hpart hsha)
  cases hnewest : newestObject c taskRef part with
  | none =>
      rw [newestObject, List.argmax_eq_none] at hnewest
      rw [hnewest] at hmem
      cases hmem
  | some r =>
      obtain rfl | hlt := hother r (List.argmax_mem hnewest)
      · rfl
      · exact absurd hlt (List.not_lt_of_mem_argmax (f := fun r => r.2.createdAt) hmem hnewest)

/-- It stays the newest one if it is kept and no row is new. -/
theorem IsNewest.mono {c' : Contents} {row' : RawObjectRow}
    (h : IsNewest c taskRef part objectSha256 row)
    (hrow : c'.rawObjects.get? objectSha256 = some row')
    (hkept : row'.taskRef = row.taskRef ∧ row'.part = row.part ∧ row'.createdAt = row.createdAt)
    (hold : ∀ k r', c'.rawObjects.get? k = some r' → ∃ r, c.rawObjects.get? k = some r ∧
      r'.taskRef = r.taskRef ∧ r'.part = r.part ∧ r'.createdAt = r.createdAt) :
    IsNewest c' taskRef part objectSha256 row' := by
  obtain ⟨htask, hpart, hcreated⟩ := hkept
  refine ⟨hrow, ⟨htask.trans h.own.1, hpart.trans h.own.2⟩, ?_⟩
  intro k r' hr' htask' hpart' hk
  obtain ⟨r, hr, htaskr, hpartr, hcreatedr⟩ := hold k r' hr'
  rw [hcreated, hcreatedr]
  exact h.newer k r hr (htaskr.symm.trans htask') (hpartr.symm.trans hpart') hk

end Newest

/-! ## What every operation keeps -/

section Kept
variable {client : ClientInstance} {codec : Codec} {now : OffsetDateTime} {c c' : Contents}
  {stored : List StoredContentInput}

/-- Of every part the content stored last is its newest row, until it expires. -/
def Findable (codec : Codec) (now : OffsetDateTime) (c : Contents)
    (stored : List StoredContentInput) : Prop :=
  ∀ taskRef part input, mostRecent stored taskRef part = some input →
    ts now < ts (input.createdAt + hours RETENTION_HOURS) →
    ∃ pin, IsNewest c taskRef part (codec.sha256Hex input.body)
      { rawObjectRowOf (storedBlobOf codec input) with pinnedByCommandId := pin }

/-- Rows are kept or pinned, and only expired ones removed. -/
theorem Findable.mono (h : Findable codec now c stored)
    (hold : ∀ k r', c'.rawObjects.get? k = some r' →
      ∃ r pin, c.rawObjects.get? k = some r ∧ r' = { r with pinnedByCommandId := pin })
    (hkept : ∀ k r, c.rawObjects.get? k = some r → ts now < r.expiresAt →
      ∃ r', c'.rawObjects.get? k = some r') :
    Findable codec now c' stored := by
  intro taskRef part input hinput hlive
  obtain ⟨pin, hnewest⟩ := h taskRef part input hinput hlive
  obtain ⟨r', hr'⟩ := hkept _ _ hnewest.stored hlive
  obtain ⟨r, pin', hr, rfl⟩ := hold _ _ hr'
  obtain rfl := Option.some.inj (hnewest.stored.symm.trans hr)
  refine ⟨pin', hnewest.mono hr' ⟨rfl, rfl, rfl⟩ ?_⟩
  intro k r' hr'
  obtain ⟨r, pin, hr, rfl⟩ := hold k r' hr'
  exact ⟨r, hr, rfl, rfl, rfl⟩

theorem Findable.of_eq (h : Findable codec now c stored) (heq : c'.rawObjects = c.rawObjects) :
    Findable codec now c' stored := by
  refine h.mono ?_ ?_
  · intro k r' hr'
    rw [heq] at hr'
    exact ⟨r', r'.pinnedByCommandId, hr', rfl⟩
  · intro k r hr _
    rw [heq]
    exact ⟨r, hr⟩

/-- Pinning and unpinning. -/
theorem Findable.updateWhere (h : Findable codec now c stored) (p : String → RawObjectRow → Bool)
    (pin : Option Uuid)
    (heq : c'.rawObjects =
      c.rawObjects.updateWhere p fun row => { row with pinnedByCommandId := pin }) :
    Findable codec now c' stored := by
  refine h.mono ?_ ?_
  · intro k r' hr'
    rw [heq, Table.get?_updateWhere] at hr'
    obtain ⟨r, hr, rfl⟩ := Option.map_eq_some_iff.mp hr'
    split
    · exact ⟨r, pin, hr, rfl⟩
    · exact ⟨r, r.pinnedByCommandId, hr, rfl⟩
  · intro k r hr _
    rw [heq, Table.get?_updateWhere, hr]
    exact ⟨_, rfl⟩

/-- The last content of a part, after one more was stored. -/
theorem mostRecent_snoc (stored : List StoredContentInput) (input : StoredContentInput)
    (taskRef : String) (part : ContentPart) :
    mostRecent (stored ++ [input]) taskRef part =
      if input.task.taskRef = taskRef ∧ input.part = part then some input
      else mostRecent stored taskRef part := by
  rw [mostRecent, List.filter_append]
  split
  · rename_i hown
    simp [hown]
  · rename_i hown
    simp [hown, mostRecent]

theorem Findable.persistContent {input : StoredContentInput} {blob : StoredBlob}
    (h : Findable codec now c stored) (hkeeps : KeepsNewest codec c input)
    (hpersist : persistContent codec c input = some (blob, c')) :
    Findable codec now c' (stored ++ [input]) := by
  obtain ⟨-, rfl, rfl⟩ := persistContent_eq_some.mp hpersist
  intro taskRef part input' hinput' hlive
  rw [mostRecent_snoc] at hinput'
  split at hinput'
  · rename_i hown
    cases hinput'
    refine ⟨none, ?_, hown, ?_⟩
    · rw [Table.get?_replace]
      exact if_pos rfl
    · intro k r hr htask hpart hk
      rw [Table.get?_replace, if_neg hk] at hr
      exact hkeeps.newer k r hr (htask.trans hown.1.symm) (hpart.trans hown.2.symm) hk
  · rename_i hown
    obtain ⟨pin, hnewest⟩ := h taskRef part input' hinput' hlive
    have hother : codec.sha256Hex input'.body ≠ codec.sha256Hex input.body := by
      intro hsha
      obtain ⟨htask, hpart⟩ := hnewest.own
      have hfound := congrArg (Option.map Prod.fst) hnewest.newestObject_eq
      have hstored := hnewest.stored
      rw [hsha] at hfound hstored
      rw [← htask, ← hpart] at hfound
      obtain ⟨htask', hpart'⟩ := hkeeps.taken _ hstored hfound
      exact hown ⟨htask'.symm.trans htask, hpart'.symm.trans hpart⟩
    refine ⟨pin, ?_, hnewest.own, ?_⟩
    · rw [Table.get?_replace, if_neg hother]
      exact hnewest.stored
    · intro k r hr htask hpart hk
      rw [Table.get?_replace] at hr
      split at hr
      · cases hr
        exact absurd ⟨htask, hpart⟩ hown
      · exact hnewest.newer k r hr htask hpart hk

theorem Findable.storeContents {inputs : List StoredContentInput}
    (h : Findable codec now c stored) (hkeep : AllKeepNewest codec c inputs)
    (hstore : storeContents codec c inputs = (true, c')) :
    Findable codec now c' (stored ++ inputs) := by
  induction inputs generalizing c stored with
  | nil =>
      cases hstore
      simpa using h
  | cons input inputs ih =>
      rw [Client.storeContents] at hstore
      cases hpersist : Client.persistContent codec c input with
      | none =>
          rw [hpersist] at hstore
          cases hstore
      | some persisted =>
          rw [hpersist] at hstore
          have hnext := ih (h.persistContent hkeep.1 hpersist) (hkeep.2 _ _ hpersist) hstore
          rwa [List.append_assoc, List.singleton_append] at hnext

theorem rawObjects_cleanup {n : OffsetDateTime} :
    (cleanup c n).rawObjects = c.rawObjects.deleteWhere fun _ row => row.isRemovable n := rfl

/-- Cleanup removes what has expired at its own time. -/
theorem Findable.cleanup {n : OffsetDateTime} (h : Findable codec now c stored) (hn : n ≤ now) :
    Findable codec now (cleanup c n) stored := by
  have hget : ∀ k, (Client.cleanup c n).rawObjects.get? k =
      (c.rawObjects.get? k).filter fun row => !row.isRemovable n := by
    intro k
    rw [rawObjects_cleanup, Table.get?_deleteWhere]
  refine h.mono ?_ ?_
  · intro k r' hr'
    rw [hget] at hr'
    obtain ⟨hr, -⟩ := Option.filter_eq_some_iff.mp hr'
    exact ⟨r', r'.pinnedByCommandId, hr, rfl⟩
  · intro k r hr hlive
    refine ⟨r, ?_⟩
    rw [hget, Option.filter_eq_some_iff]
    have hts : ts n ≤ ts now := ts_mono hn
    have hexpired : ¬ r.expiresAt ≤ ts n := by omega
    exact ⟨hr, by simp [RawObjectRow.isRemovable, hexpired]⟩

theorem storeContents_of_isSome {t : Tick} {s : Store} {records : List SummaryRecord}
    {contents : List StoredContentInput}
    (h : (persistIngress client codec t s records contents).1.isSome = true) :
    (storeContents codec s.contents contents).1 = true := by
  have happlied := contents_applyRecords s (records.map (normalizeRecord codec))
  simp only [persistIngress] at h
  split at h
  · rename_i hstored
    rwa [happlied] at hstored
  · cases h

/-- One operation. -/
theorem Findable.step {h : History} {op : StoreOp}
    (hfind : Findable codec now h.store.contents h.stored) (hsep : Separate client codec h op)
    (hclock : op.now ≤ now) :
    Findable codec now (h.step client codec op).store.contents (h.step client codec op).stored := by
  cases op with
  | persistIngress t records contents =>
      have happlied := contents_applyRecords h.store (records.map (normalizeRecord codec))
      rw [History.step]
      obtain ⟨hfailed, files, hrollback⟩ | ⟨inserted, outbox, -, hdone, hwritten⟩ :=
        persistIngress_cases client codec t h.store records contents
      · simp only [hfailed, hrollback]
        exact hfind.of_eq rfl
      · have hstored := storeContents_of_isSome hdone
        rw [hwritten, if_pos hdone, writtenStore, happlied]
        exact hfind.storeContents (hsep hdone) (Prod.ext hstored rfl)
  | saveCommands commands n => exact hfind.of_eq rfl
  | prepareUpload command n =>
      rw [History.step, prepareUpload]
      dsimp only
      split
      · exact hfind
      · split
        · exact hfind
        · exact hfind.updateWhere (fun _ row => row.taskRef = command.request.taskRef)
            (some command.commandId) rfl
  | completeCommand commandId result keepPinned n =>
      rw [History.step, completeCommand]
      dsimp only
      split
      · exact hfind.of_eq rfl
      · exact hfind.updateWhere (fun _ row => row.pinnedByCommandId = some commandId) none rfl
  | failCommand commandId error keepPinned n =>
      rw [History.step, failCommand]
      dsimp only
      split
      · exact hfind
      · split
        · exact hfind.of_eq rfl
        · exact hfind.updateWhere (fun _ row => row.pinnedByCommandId = some commandId) none rfl
  | cleanup n => exact hfind.cleanup hclock

/-- Operations up to the time of the question. -/
theorem Findable.run {h : History} {ops : List StoreOp}
    (hfind : Findable codec now h.store.contents h.stored)
    (hsep : Run.Each (History.step client codec) (Separate client codec) h ops)
    (hclock : ∀ op ∈ ops, op.now ≤ now) :
    Findable codec now (Run.run (History.step client codec) h ops).store.contents
      (Run.run (History.step client codec) h ops).stored := by
  induction ops generalizing h with
  | nil => exact hfind
  | cons op ops ih =>
      exact ih (hfind.step hsep.1 (hclock op List.mem_cons_self)) hsep.2 fun op' hop' =>
        hclock op' (List.mem_cons_of_mem op hop')

theorem findable_empty : Findable codec now Store.empty.contents [] := by
  intro taskRef part input hinput
  cases hinput

end Kept

/-! ## The question -/

section Question
variable {client : ClientInstance} {codec : Codec} {now : OffsetDateTime} {ops : List StoreOp}
  {input : StoredContentInput} {command : ContentRequestCommand} {part : ContentPart}

/-- If no store takes another part's newest row, an unexpired request for a part is answered with
the manifest of the content that was stored last for it, until the second in which it expires. -/
theorem retrievable_of_separate
    (hsep : Run.Each (History.step client codec) (Separate client codec) .empty ops)
    (hclock : ∀ op ∈ ops, op.now ≤ now)
    (hstored : mostRecent (Run.run (History.step client codec) .empty ops).stored
      command.request.taskRef part = some input)
    (hlive : ts now < ts (input.createdAt + hours RETENTION_HOURS))
    (hrequest : command.request.expiredAt (ts now) = false)
    (hparts : command.request.parts = [part]) :
    (prepareUpload (Run.run (History.step client codec) .empty ops).store.contents command
        (ts now)).1 =
      .ready ⟨command.commandId, command.request.requestId, [manifestOf command.request part
        (codec.sha256Hex input.body) (rawObjectRowOf (storedBlobOf codec input))]⟩ := by
  obtain ⟨pin, hnewest⟩ := (findable_empty.run hsep hclock) _ _ _ hstored hlive
  have hmanifest : prepareManifest (Run.run (History.step client codec) .empty ops).store.contents
      command.request (ts now) part = .ok (manifestOf command.request part
        (codec.sha256Hex input.body) (rawObjectRowOf (storedBlobOf codec input))) := by
    simp only [prepareManifest, bind_eq_ok, exists_unit_and, required_eq_ok, pure_eq_ok]
    exact ⟨_, hnewest.newestObject_eq, ensure_eq_ok.mpr hlive, rfl⟩
  rw [prepareUpload]
  simp only [hrequest, hparts, Bool.false_eq_true, if_false, List.mapM_cons, hmanifest]
  rfl

end Question

/-! ## A small store -/

/-- The request of a turn of `s:t`, stored in the second with this number. -/
def requestContent (second : ℕ) (turnId : String) (body : Bytes) : StoredContentInput where
  task := ⟨"a", "codex", "s", "t", turnId⟩
  part := .request
  mediaType := "application/json"
  body := body
  headers := []
  createdAt := second * 1000000000

def storeRequest (second : ℕ) (turnId : String) (body : Bytes) : StoreOp :=
  .persistIngress ⟨second * 1000000000, second * 1000000000, fun _ => .v7 0⟩ []
    [requestContent second turnId body]

/-- A command that asks for the request of the turn `s:t:u`. -/
def requestCommand : ContentRequestCommand :=
  ⟨.v7 1, ⟨.v7 2, "a", "s:t:u", "s", "t", 0, none, [.request]⟩⟩

theorem retrievable_distinct :
    (prepareUpload (Run.run (History.step sampleClient (.numbered [])) .empty
        [storeRequest 0 "u" [1], storeRequest 1 "v" [2], storeRequest 2 "u" [3]]).store.contents
        requestCommand (ts 3000000000)).1 =
      .ready ⟨.v7 1, .v7 2, [manifestOf requestCommand.request .request
        (Codec.sha256Hex (.numbered []) [3])
        (rawObjectRowOf (storedBlobOf (.numbered []) (requestContent 2 "u" [3])))]⟩ := by
  have hstored : mostRecent (Run.run (History.step sampleClient (.numbered [])) .empty
      [storeRequest 0 "u" [1], storeRequest 1 "v" [2], storeRequest 2 "u" [3]]).stored
      requestCommand.request.taskRef .request = some (requestContent 2 "u" [3]) := rfl
  have hsep : Run.Each (History.step sampleClient (.numbered []))
      (Separate sampleClient (.numbered [])) .empty
      [storeRequest 0 "u" [1], storeRequest 1 "v" [2], storeRequest 2 "u" [3]] := by
    refine ⟨fun _ => ⟨?_, fun _ _ _ => trivial⟩, fun _ => ⟨?_, fun _ _ _ => trivial⟩,
      fun _ => ⟨?_, fun _ _ _ => trivial⟩, trivial⟩
    · decide
    · decide
    · decide
  have hclock : ∀ op ∈ [storeRequest 0 "u" [1], storeRequest 1 "v" [2], storeRequest 2 "u" [3]],
      op.now ≤ 3000000000 := by
    intro op hop
    simp only [List.mem_cons, List.not_mem_nil, or_false] at hop
    obtain rfl | rfl | rfl := hop <;> decide
  have hready := retrievable_of_separate hsep hclock hstored (by decide) rfl rfl
  exact hready

/-- The same body is stored for another turn, and takes the row of the first one. -/
theorem not_retrievable_sameBody :
    ¬ ∀ (ops : List StoreOp) (now : OffsetDateTime) (command : ContentRequestCommand)
      (part : ContentPart) (input : StoredContentInput), (∀ op ∈ ops, op.now ≤ now) →
      mostRecent (Run.run (History.step sampleClient (.numbered [])) .empty ops).stored
        command.request.taskRef part = some input →
      now < input.createdAt + hours RETENTION_HOURS →
      command.request.expiredAt (ts now) = false → command.request.parts = [part] →
      (prepareUpload (Run.run (History.step sampleClient (.numbered [])) .empty ops).store.contents
          command (ts now)).1 =
        .ready ⟨command.commandId, command.request.requestId, [manifestOf command.request part
          (Codec.sha256Hex (.numbered []) input.body)
          (rawObjectRowOf (storedBlobOf (.numbered []) input))]⟩ := by
  intro h
  have hready := h [storeRequest 0 "u" [1], storeRequest 1 "v" [1]] 2000000000 requestCommand
    .request (requestContent 0 "u" [1])
    (by
      intro op hop
      simp only [List.mem_cons, List.not_mem_nil, or_false] at hop
      obtain rfl | rfl := hop <;> decide)
    rfl (by decide) rfl rfl
  cases hready

end Codexwatch.Client
