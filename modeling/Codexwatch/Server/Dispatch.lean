import Codexwatch.Server.Fulfilment

/-!
# Dispatching commands

`next_command` answers a poll with the oldest pending commands of the client and marks
them as dispatched, in one transaction. Nothing marks a command as pending again.

## Main definitions

* `nextCommand` — the handler.
* `CommandRow.Advanced` — what requests may do to the row of a command.
* `advanced_step` — that they do no more.
-/
namespace Codexwatch.Server

open Protocol Relational Check ContentTables

structure CommandPollResponse where
  serverTimeMs : TimestampMs
  commands : List ContentRequestCommand

/-- `LIMIT 16` -/
def NEXT_COMMAND_LIMIT : ℕ := 16

/-- The pending commands of the client, the oldest first. -/
def pendingCommands (t : ContentTables) (clientId : String) : List (Uuid × CommandRow) :=
  ((t.commands.rows.filter fun r => r.2.clientId = clientId ∧ r.2.status = .pending).insertionSort
    fun a b => a.2.createdAtMs ≤ b.2.createdAtMs).take NEXT_COMMAND_LIMIT

def markDispatched (t : ContentTables) (commandIds : List Uuid) (now : TimestampMs) :
    ContentTables :=
  { t with
    commands := t.commands.updateWhere (fun commandId _ => commandId ∈ commandIds) fun row =>
      { row with status := .dispatched, deliveredAtMs := some now } }

/-- The round of the loop that answers. The rounds before it found no command and changed
nothing; without any command the answer is empty. -/
def nextCommand (principal : Principal) (now : TimestampMs) (t : ContentTables) :
    Except StatusCode (CommandPollResponse × ContentTables) := do
  ensureClientRole principal
  let rows := pendingCommands t principal.clientId
  pure (⟨now, rows.map fun r => r.2.payloadJson⟩, markDispatched t (rows.map Prod.fst) now)

section Poll
variable {t : ContentTables} {clientId : String} {now : TimestampMs}

theorem mem_pendingCommands {r : Uuid × CommandRow} (h : r ∈ pendingCommands t clientId) :
    t.commands.get? r.1 = some r.2 ∧ r.2.clientId = clientId ∧ r.2.status = .pending := by
  have hmem := List.mem_of_mem_take h
  rw [List.mem_insertionSort, List.mem_filter, Table.mem_rows_iff] at hmem
  simpa using hmem

theorem nodup_pendingCommands (t : ContentTables) (clientId : String) :
    ((pendingCommands t clientId).map Prod.fst).Nodup := by
  rw [pendingCommands, List.map_take]
  refine List.Nodup.sublist (List.take_sublist _ _) ?_
  rw [((List.perm_insertionSort _ _).map Prod.fst).nodup_iff]
  exact t.commands.nodup.sublist (List.filter_sublist.map Prod.fst)

theorem get?_markDispatched (commandIds : List Uuid) (commandId : Uuid) :
    (markDispatched t commandIds now).commands.get? commandId =
      (t.commands.get? commandId).map fun row =>
        if commandId ∈ commandIds then
          { row with status := .dispatched, deliveredAtMs := some now }
        else row := by
  simp [markDispatched, Table.get?_updateWhere]

end Poll

/-! ## What requests do to commands -/

/-- The command is as it was, or it is completed. -/
structure CommandRow.Advanced (row row' : CommandRow) : Prop where
  clientId : row'.clientId = row.clientId
  requestId : row'.requestId = row.requestId
  payloadJson : row'.payloadJson = row.payloadJson
  status : row'.status = row.status ∨ row'.status = .completed

theorem CommandRow.Advanced.refl (row : CommandRow) : row.Advanced row :=
  ⟨rfl, rfl, rfl, .inl rfl⟩

/-- Commands advance, and new ones are pending under their own id. -/
structure CommandsAdvance (t t' : ContentTables) : Prop where
  old : ∀ commandId row, t.commands.get? commandId = some row →
    ∃ row', t'.commands.get? commandId = some row' ∧ row.Advanced row'
  fresh : ∀ commandId row', t.commands.get? commandId = none →
    t'.commands.get? commandId = some row' →
    row'.status = .pending ∧ row'.payloadJson.commandId = commandId

theorem CommandsAdvance.of_eq {t t' : ContentTables} (h : t'.commands = t.commands) :
    CommandsAdvance t t' := by
  constructor
  · intro commandId row hrow
    exact ⟨row, by rw [h, hrow], .refl row⟩
  · intro commandId row' hnone hrow'
    rw [h, hnone] at hrow'
    cases hrow'

theorem commandsAdvance_complete (t : ContentTables) (requestId : Uuid) (status : RequestStatus)
    (now : TimestampMs) : CommandsAdvance t (t.completeRequestAndCommand requestId status now) := by
  have hget : ∀ commandId, (t.completeRequestAndCommand requestId status now).commands.get?
      commandId = (t.commands.get? commandId).map fun row =>
        if row.requestId = requestId then
          { row with status := .completed, completedAtMs := some now }
        else row := by
    simp [completeRequestAndCommand, Table.get?_updateWhere]
  constructor
  · intro commandId row hrow
    rw [hget, hrow, Option.map_some]
    refine ⟨_, rfl, ?_⟩
    split
    · exact ⟨rfl, rfl, rfl, .inr rfl⟩
    · exact .refl row
  · intro commandId row' hnone hrow'
    rw [hget, hnone] at hrow'
    cases hrow'

theorem commandsAdvance_storeObject (t : ContentTables) (request : ContentRequest)
    (manifest : ContentObjectManifest) (assembled uncompressed : Bytes) (now : TimestampMs) :
    CommandsAdvance t (t.storeObject request manifest assembled uncompressed now) := by
  rw [storeObject]
  split
  · rcases commandsAdvance_complete ((t.upsertContentObject request manifest assembled uncompressed
      now).touchConversation request.clientId request.sessionId request.threadId now)
      request.requestId .stored now with ⟨hold, hfresh⟩
    exact ⟨hold, hfresh⟩
  · exact .of_eq rfl

/-- The posts of the client complete commands, and do nothing else to them. -/
theorem Effect.commandsAdvance {codec : Codec} {t t' : ContentTables} {post : Post}
    (h : Effect codec t post t') : CommandsAdvance t t' := by
  cases h with
  | refused => exact .of_eq rfl
  | expired => exact commandsAdvance_complete ..
  | decided => exact commandsAdvance_complete ..
  | @announced principal commandId manifests now request haccepts =>
      refine .of_eq ?_
      clear haccepts
      induction manifests generalizing t with
      | nil => rfl
      | cons m manifests ih => exact ih (t := t.insertManifest m request.clientId now)
  | kept haccepts hupsert =>
      refine .of_eq ?_
      rcases upsertChunkRow_eq_ok.mp hupsert with ⟨row, -, -, -, -, heq⟩ | ⟨-, -, heq⟩ <;>
        cases heq <;> rfl
  | @finished principal commandId chunk now request manifest t₁ assembled uncompressed hfinishes =>
      rcases hfinishes.upserted with ⟨duplicate, hupsert⟩
      have hsame : t₁.commands = t.commands := by
        rcases upsertChunkRow_eq_ok.mp hupsert with ⟨row, -, -, -, -, heq⟩ | ⟨-, -, heq⟩ <;>
          cases heq <;> rfl
      rcases commandsAdvance_storeObject t₁ request manifest assembled uncompressed now with
        ⟨hold, hfresh⟩
      rw [hsame] at hold hfresh
      exact ⟨hold, hfresh⟩

/-- Every request to the server leaves the commands as they are, completes them, or adds one. -/
theorem advanced_step (codec : Codec) (db : Database) (event : Event) :
    CommandsAdvance db.content (step codec db event).content := by
  cases event with
  | ingest principal body now =>
      rw [step, ingest_content]
      exact .of_eq rfl
  | createContentRequest principal taskRef parts expiresAtMs requestId commandId now =>
      rw [step]
      cases hreply : Server.createContentRequest db.tasks principal taskRef parts expiresAtMs
        requestId commandId now db.content with
      | error status => exact .of_eq rfl
      | ok t =>
          rcases createContentRequest_eq_ok.mp hreply with ⟨task, haccepts, rfl⟩
          constructor
          · intro id row hrow
            have hne : id ≠ commandId := by
              rintro rfl
              simp [haccepts.commandId] at hrow
            refine ⟨row, ?_, .refl row⟩
            simpa [commit, withContentRequest, Table.get?_put_of_ne hne] using hrow
          · intro id row' hnone hrow'
            by_cases hid : id = commandId
            · subst hid
              rw [commit, withContentRequest, Table.get?_put_self, Option.some.injEq] at hrow'
              rw [← hrow']
              exact ⟨rfl, rfl⟩
            · simp [commit, withContentRequest, Table.get?_put_of_ne hid, hnone] at hrow'
  | uploadManifests principal commandId manifests now =>
      exact (effect_receive codec db (.uploadManifests principal commandId manifests
        now)).commandsAdvance
  | uploadChunk principal commandId chunk now =>
      exact (effect_receive codec db (.uploadChunk principal commandId chunk now)).commandsAdvance
  | uploadResult principal commandId result now =>
      exact (effect_receive codec db (.uploadResult principal commandId result
        now)).commandsAdvance

/-- An accepted result completes its command. -/
theorem completed_uploadResult {principal : Principal} {commandId : Uuid}
    {result : ContentUploadResult} {now : TimestampMs} {t t' : ContentTables}
    (h : uploadResult principal commandId result now t = .ok t') :
    ∃ row, t'.commands.get? commandId = some row ∧ row.status = .completed := by
  rcases uploadResult_eq_ok.mp h with ⟨-, request, hload, hid, rfl⟩
  simp only [loadCommandRequest, Option.bind_eq_bind, Option.bind_eq_some_iff, Option.guard_eq_some',
    Option.pure_def, Option.some.injEq] at hload
  rcases hload with ⟨command, hcommand, -, -, row, -, rfl⟩
  have hrequest : command.requestId = result.requestId := hid
  refine ⟨{ command with status := .completed, completedAtMs := some now }, ?_, rfl⟩
  simp [completeRequestAndCommand, Table.get?_updateWhere, hcommand, hrequest]

end Codexwatch.Server
