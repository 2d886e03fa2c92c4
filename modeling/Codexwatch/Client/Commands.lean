import Codexwatch.Client.Blob
import Codexwatch.Client.Outbox

/-!
# Commands and cleanup

The rest of `client/src/store.rs` that touches the content: commands are saved,
completed and failed, a finished command may unpin the objects that it pinned, and
`cleanup` removes what has expired.

## Main definitions

* `saveCommands`, `completeCommand`, `failCommand`.
* `nextDueCommand`, `resultOf`.
* `isRemovable`, `cleanup`.
-/
namespace Codexwatch.Client

open Protocol Relational

def ACK_RETENTION_DAYS : ℤ := 400

def days (n : ℤ) : ℤ := hours (24 * n)

/-- A command that is known already is left as it is. -/
def saveCommands (c : Contents) (commands : List ContentRequestCommand) (nowMs : ℤ) : Contents :=
  { c with
    commands := commands.foldl (fun table command =>
      table.insertIgnore command.commandId
        { expiresAt := command.request.expiresAtMs.getD (nowMs + ts (days 7))
          status := .pending
          payloadJson := command
          resultJson := none
          errorJson := none
          attemptCount := 0
          nextAttemptAt := nowMs
          completedAt := none }) c.commands }

/-- `SET pinned_by_command_id = NULL` for the objects that the command pinned. -/
def unpin (c : Contents) (commandId : Uuid) : Contents :=
  { c with
    rawObjects := c.rawObjects.updateWhere (fun _ row => row.pinnedByCommandId = some commandId)
      fun row => { row with pinnedByCommandId := none } }

def completeCommand (c : Contents) (commandId : Uuid) (result : ContentUploadResult)
    (keepPinned : Bool) (nowMs : ℤ) : Contents :=
  let c := { c with
    commands := c.commands.modify commandId fun row =>
      { row with
        status := .completed
        resultJson := some result
        completedAt := some nowMs
        nextAttemptAt := nowMs } }
  if keepPinned then c else unpin c commandId

/-- An unknown command is an error and changes nothing. -/
def failCommand (codec : Codec) (c : Contents) (commandId : Uuid) (error : String)
    (keepPinned : Bool) (now : OffsetDateTime) : Contents :=
  match c.commands.get? commandId with
  | none => c
  | some command =>
      let c := { c with
        commands := c.commands.modify commandId fun row =>
          { row with
            status := .failed
            nextAttemptAt := ts (now + backoffDelay command.attemptCount)
            errorJson := some (truncateMessage codec error) } }
      if keepPinned then c else unpin c commandId

/-! ## The next command -/

structure StoredCommand where
  command : ContentRequestCommand
  status : CommandStatus
  attemptCount : ℕ

/-- `status IN (..)`, in the query of `next_due_command`. -/
def CommandStatus.isOpen : CommandStatus → Bool
  | .pending | .failed | .running => true
  | .completed => false

/-- `ORDER BY rowid LIMIT 1` -/
def nextDueCommand (c : Contents) (now : OffsetDateTime) : Option StoredCommand :=
  (c.commands.rows.find? fun r => r.2.status.isOpen && r.2.nextAttemptAt ≤ ts now).map fun r =>
    ⟨r.2.payloadJson, r.2.status, r.2.attemptCount⟩

/-- The command of an upload, and the result that it ends with. -/
def resultOf : UploadPreparation → Uuid × ContentUploadResult
  | .ready work => (work.commandId, ⟨work.requestId, .stored, none⟩)
  | .expired commandId result => (commandId, result)

/-! ## Cleanup -/

/-- `expires_at <= ? AND pinned_by_command_id IS NULL` -/
def RawObjectRow.isRemovable (row : RawObjectRow) (now : OffsetDateTime) : Bool :=
  row.expiresAt ≤ ts now && row.pinnedByCommandId.isNone

/-- The first statement of `cleanup`. -/
def removable (c : Contents) (now : OffsetDateTime) : List String :=
  (c.rawObjects.rows.filter fun r => r.2.isRemovable now).map Prod.fst

/-- `BlobStore::remove` -/
def BlobStore.remove (files : BlobStore) (objectSha256 : String) : BlobStore :=
  files.deleteWhere fun k _ => k = objectSha256

/-- The last statements, which delete rows. -/
def deleteRemovable (c : Contents) (now : OffsetDateTime) : Contents :=
  { c with
    rawObjects := c.rawObjects.deleteWhere fun _ row => row.isRemovable now
    commands := c.commands.deleteWhere fun _ row =>
      row.status = .completed && row.completedAt.any fun at_ => at_ ≤ ts (now - days 30) }

def cleanup (c : Contents) (now : OffsetDateTime) : Contents :=
  deleteRemovable { c with files := (removable c now).foldl BlobStore.remove c.files } now

def deleteAcked (o : Outbox) (now : OffsetDateTime) : Outbox :=
  { o with
    ackedBatches := o.ackedBatches.deleteWhere fun _ ackedAt =>
      ackedAt ≤ ts (now - days ACK_RETENTION_DAYS) }

/-! ## What the operations do to commands -/

section Lemmas
variable {codec : Codec} {c : Contents} {commandId : Uuid}

/-- A saved command is the one that was there, or a pending one of the answer. -/
theorem get?_saveCommands (commands : List ContentRequestCommand) (nowMs : ℤ) (id : Uuid) :
    (∀ row, c.commands.get? id = some row →
      (saveCommands c commands nowMs).commands.get? id = some row) ∧
    (c.commands.get? id = none →
      (id ∉ commands.map ContentRequestCommand.commandId ∧
        (saveCommands c commands nowMs).commands.get? id = none) ∨
      id ∈ commands.map ContentRequestCommand.commandId ∧
        ∃ row, (saveCommands c commands nowMs).commands.get? id = some row ∧
          row.status = .pending ∧ row.payloadJson.commandId = id) := by
  simp only [saveCommands]
  generalize c.commands = table
  induction commands generalizing table with
  | nil => exact ⟨fun row hrow => hrow, fun hnone => .inl ⟨by simp, hnone⟩⟩
  | cons command commands ih =>
      rw [List.foldl_cons]
      rcases ih (table.insertIgnore command.commandId
        { expiresAt := command.request.expiresAtMs.getD (nowMs + ts (days 7))
          status := .pending
          payloadJson := command
          resultJson := none
          errorJson := none
          attemptCount := 0
          nextAttemptAt := nowMs
          completedAt := none }) with ⟨hkept, hnew⟩
      rw [Table.get?_insertIgnore] at hkept hnew
      by_cases hid : id = command.commandId
      · subst hid
        constructor
        · intro row hrow
          exact hkept row (by simp [hrow])
        · intro hnone
          exact .inr ⟨by simp, _, hkept _ (by rw [if_pos rfl, hnone]), rfl, rfl⟩
      · rw [if_neg hid] at hkept hnew
        refine ⟨hkept, fun hnone => ?_⟩
        rcases hnew hnone with ⟨hnot, hget⟩ | ⟨hmem, hget⟩
        · exact .inl ⟨by simpa [hid] using hnot, hget⟩
        · exact .inr ⟨by simp [hmem], hget⟩

/-- The next command is an open row of the table. -/
theorem nextDueCommand_eq_some {now : OffsetDateTime} {stored : StoredCommand}
    (h : nextDueCommand c now = some stored) :
    ∃ id row, c.commands.get? id = some row ∧ row.status.isOpen ∧
      row.payloadJson = stored.command := by
  rcases Option.map_eq_some_iff.mp h with ⟨r, hfind, rfl⟩
  have hopen := List.find?_some hfind
  rw [Bool.and_eq_true] at hopen
  exact ⟨r.1, r.2, Table.get?_eq_some.mpr (List.mem_of_find?_eq_some hfind), hopen.1, rfl⟩

/-- What the client does to commands that it does not complete. -/
structure Keeps (c c' : Contents) : Prop where
  open_ : ∀ id row, c.commands.get? id = some row → row.status.isOpen →
    ∃ row', c'.commands.get? id = some row' ∧ row'.status.isOpen
  known : ∀ id row', c'.commands.get? id = some row' → ∃ row, c.commands.get? id = some row ∧
    row'.payloadJson = row.payloadJson ∧ (row'.status.isOpen → row.status.isOpen)

theorem Keeps.of_eq {c' : Contents} (h : c'.commands = c.commands) : Keeps c c' := by
  constructor
  · intro id row hrow hopen
    exact ⟨row, by rw [h, hrow], hopen⟩
  · intro id row' hrow'
    exact ⟨row', by rw [← h, hrow'], rfl, fun hopen => hopen⟩

/-- A change of one open command that leaves it open. -/
theorem keeps_modify {c' : Contents} {f : CommandRow → CommandRow}
    (h : c'.commands = c.commands.modify commandId f)
    (hcommand : ∀ row, c.commands.get? commandId = some row → row.status.isOpen)
    (hf : ∀ row, (f row).payloadJson = row.payloadJson ∧ (f row).status.isOpen) : Keeps c c' := by
  constructor
  · intro id row hrow hopen
    rw [h, Table.get?_modify, hrow]
    split
    · exact ⟨f row, rfl, (hf row).2⟩
    · exact ⟨row, rfl, hopen⟩
  · intro id row' hrow'
    rw [h, Table.get?_modify] at hrow'
    split at hrow'
    · rename_i hid
      rcases Option.map_eq_some_iff.mp hrow' with ⟨row, hrow, rfl⟩
      exact ⟨row, hrow, (hf row).1, fun _ => hcommand row (hid ▸ hrow)⟩
    · exact ⟨row', hrow', rfl, fun hopen => hopen⟩

theorem keeps_prepareUpload {command : ContentRequestCommand} (nowMs : ℤ)
    (h : ∀ row, c.commands.get? command.commandId = some row → row.status.isOpen) :
    (resultOf (prepareUpload c command nowMs).1).1 = command.commandId ∧
      Keeps c (prepareUpload c command nowMs).2 := by
  simp only [prepareUpload]
  split
  · exact ⟨rfl, .of_eq rfl⟩
  · split
    · exact ⟨rfl, .of_eq rfl⟩
    · exact ⟨rfl, keeps_modify rfl h fun row => ⟨rfl, rfl⟩⟩

theorem keeps_failCommand {error : String} {now : OffsetDateTime}
    (h : ∀ row, c.commands.get? commandId = some row → row.status.isOpen) :
    Keeps c (failCommand codec c commandId error true now) := by
  rw [failCommand]
  split
  · exact .of_eq rfl
  · exact keeps_modify rfl h fun row => ⟨rfl, rfl⟩

theorem keeps_persistContent {input : StoredContentInput} {stored : StoredBlob} {c' : Contents}
    (h : persistContent codec c input = some (stored, c')) : Keeps c c' := by
  rw [persistContent_eq_some] at h
  rcases h with ⟨-, -, rfl⟩
  exact .of_eq rfl

/-- Only completed commands are cleaned up. -/
theorem keeps_cleanup (now : OffsetDateTime) : Keeps c (cleanup c now) := by
  constructor
  · intro id row hrow hopen
    refine ⟨row, ?_, hopen⟩
    simp only [cleanup, deleteRemovable, Table.get?_deleteWhere, hrow, Option.filter_some]
    cases hstatus : row.status <;> simp_all [CommandStatus.isOpen]
  · intro id row' hrow'
    simp only [cleanup, deleteRemovable, Table.get?_deleteWhere, Option.filter_eq_some_iff] at hrow'
    exact ⟨row', hrow'.1, rfl, fun hopen => hopen⟩

theorem get?_completeCommand (commandId : Uuid) (result : ContentUploadResult) (nowMs : ℤ) (id : Uuid) :
    (completeCommand c commandId result false nowMs).commands.get? id =
      if id = commandId then (c.commands.get? id).map fun row =>
        { row with
          status := .completed
          resultJson := some result
          completedAt := some nowMs
          nextAttemptAt := nowMs }
      else c.commands.get? id := by
  rw [← Table.get?_modify]
  rfl

end Lemmas

end Codexwatch.Client
