import Codexwatch.Server.Changes

/-!
# A command and its request

A content request is queued for its client as a command. The two rows are written by
different statements afterwards: a poll marks the command, a post completes both, a chunk
writes the status of the request alone. They stay a pair: the command that the client is
sent is the request as it is stored, and the one is completed when the other is.

## Main definitions

* `CommandRow.Mirrors` — the command row says what the request row says.
* `ContentTables.Paired` — commands and requests are one to one, and mirror each other.
* `paired_run` — that they stay so.
-/
namespace Codexwatch.Server

open Protocol Relational Check ContentTables

/-- The statuses that a request may have, by its outcome. A chunk that finishes an object
after the decision puts the status back. -/
def ContentRequestRow.StatusFits (row : ContentRequestRow) : Prop :=
  row.status = row.outcome.getD .pending ∨ row.status = .partialUpload

/-- The row of the command says what the row of its request says. -/
structure CommandRow.Mirrors (commandId : Uuid) (command : CommandRow) (row : ContentRequestRow) :
    Prop where
  /-- What the client is sent is the request as it is stored. -/
  payload : command.payloadJson = ⟨commandId, requestOf row.clientId command.requestId row⟩
  clientId : command.clientId = row.clientId
  createdAtMs : command.createdAtMs = row.createdAtMs
  completedAtMs : command.completedAtMs = row.completedAtMs
  completed : command.status = .completed ↔ row.outcome.isSome
  timed : row.completedAtMs.isSome = row.outcome.isSome
  decided : ∀ outcome, row.outcome = some outcome → outcome.isDecided
  status : row.StatusFits
  pending : command.status = .pending → command.deliveredAtMs = none
  dispatched : command.status = .dispatched → command.deliveredAtMs.isSome

namespace ContentTables

/-- Commands and requests are one to one, and mirror each other. -/
structure Paired (t : ContentTables) : Prop where
  mirrored : ∀ commandId command, t.commands.get? commandId = some command →
    ∃ row, t.contentRequests.get? command.requestId = some row ∧ command.Mirrors commandId row
  unique : ∀ commandId command commandId' command', t.commands.get? commandId = some command →
    t.commands.get? commandId' = some command' → command.requestId = command'.requestId →
      commandId = commandId'
  queued : ∀ requestId row, t.contentRequests.get? requestId = some row →
    ∃ commandId command, t.commands.get? commandId = some command ∧ command.requestId = requestId

variable {t t' : ContentTables} {now : TimestampMs}

theorem paired_empty : ContentTables.empty.Paired :=
  ⟨by simp [ContentTables.empty], by simp [ContentTables.empty], by simp [ContentTables.empty]⟩

theorem Paired.of_eq (h : t.Paired) (hcommands : t'.commands = t.commands)
    (hrequests : t'.contentRequests = t.contentRequests) : t'.Paired := by
  obtain ⟨hmirrored, hunique, hqueued⟩ := h
  constructor
  · rwa [hcommands, hrequests]
  · rwa [hcommands]
  · rwa [hcommands, hrequests]

theorem Paired.commandsOwned (h : t.Paired) : t.CommandsOwned := by
  intro commandId command hcommand
  obtain ⟨row, hrow, hmirrors⟩ := h.mirrored commandId command hcommand
  exact ⟨row, hrow, hmirrors.clientId.symm⟩

/-- Rows that are rewritten in place stay pairs when every pair does. -/
theorem Paired.map (h : t.Paired) {f : Uuid → CommandRow → CommandRow}
    {g : Uuid → ContentRequestRow → ContentRequestRow}
    (hcommands : ∀ id, t'.commands.get? id = (t.commands.get? id).map (f id))
    (hrequests : ∀ id, t'.contentRequests.get? id = (t.contentRequests.get? id).map (g id))
    (hid : ∀ id command, (f id command).requestId = command.requestId)
    (hmirrors : ∀ id command row, t.commands.get? id = some command →
      command.Mirrors id row → (f id command).Mirrors id (g command.requestId row)) :
    t'.Paired where
  mirrored id command hcommand := by
    rw [hcommands, Option.map_eq_some_iff] at hcommand
    obtain ⟨old, hold, rfl⟩ := hcommand
    obtain ⟨row, hrow, hpair⟩ := h.mirrored id old hold
    refine ⟨g old.requestId row, ?_, hmirrors id old row hold hpair⟩
    rw [hid, hrequests, hrow, Option.map_some]
  unique id command id' command' hcommand hcommand' hsame := by
    rw [hcommands, Option.map_eq_some_iff] at hcommand hcommand'
    obtain ⟨old, hold, rfl⟩ := hcommand
    obtain ⟨old', hold', rfl⟩ := hcommand'
    rw [hid, hid] at hsame
    exact h.unique id old id' old' hold hold' hsame
  queued id row hrow := by
    rw [hrequests, Option.map_eq_some_iff] at hrow
    obtain ⟨old, hold, -⟩ := hrow
    obtain ⟨commandId, command, hcommand, rfl⟩ := h.queued id old hold
    refine ⟨commandId, f commandId command, ?_, hid commandId command⟩
    rw [hcommands, hcommand, Option.map_some]

theorem get?_contentRequests_modify (table : Table Uuid ContentRequestRow) (requestId id : Uuid)
    (f : ContentRequestRow → ContentRequestRow) :
    (table.modify requestId f).get? id =
      (table.get? id).map fun row => if id = requestId then f row else row := by
  rw [Table.get?_modify]
  split
  · rfl
  · rw [Option.map_id']

/-- Both rows of a pair are completed, at the same time. -/
theorem Paired.complete (h : t.Paired) (requestId : Uuid) {status : RequestStatus}
    (hdecided : status.isDecided) : (t.completeRequestAndCommand requestId status now).Paired := by
  refine h.map (f := fun _ command => if command.requestId = requestId then
      { command with status := .completed, completedAtMs := some now } else command)
    (g := fun id row => if id = requestId then
      { row with status, outcome := some status, completedAtMs := some now } else row) ?_ ?_ ?_ ?_
  · intro id
    simp [completeRequestAndCommand, Table.get?_updateWhere]
  · exact fun id => get?_contentRequests_modify ..
  · intro id command
    split <;> rfl
  · intro id command row _ hmirrors
    by_cases hid : command.requestId = requestId
    · simp only [if_pos hid]
      exact {
        payload := hmirrors.payload
        clientId := hmirrors.clientId
        createdAtMs := hmirrors.createdAtMs
        completedAtMs := rfl
        completed := by simp
        timed := rfl
        decided := fun outcome houtcome => Option.some.inj houtcome ▸ hdecided
        status := .inl rfl
        pending := fun h => by cases h
        dispatched := fun h => by cases h }
    · simp only [if_neg hid]
      exact hmirrors

/-- Only the status of the request is put back. -/
theorem Paired.putBack (h : t.Paired) (requestId : Uuid) :
    Paired { t with
      contentRequests := t.contentRequests.modify requestId fun row =>
        { row with status := .partialUpload } } := by
  refine h.map (f := fun _ command => command)
    (g := fun id row => if id = requestId then { row with status := .partialUpload } else row)
    (fun id => Option.map_id'.symm) (fun id => get?_contentRequests_modify ..)
    (fun _ _ => rfl) ?_
  intro id command row _ hmirrors
  split
  · exact { hmirrors with status := .inr rfl }
  · exact hmirrors

/-- A poll takes commands that are pending. -/
theorem Paired.markDispatched (h : t.Paired) {commandIds : List Uuid}
    (hpending : ∀ id ∈ commandIds, ∀ command, t.commands.get? id = some command →
      command.status = .pending) : (Server.markDispatched t commandIds now).Paired := by
  refine h.map (f := fun id command => if id ∈ commandIds then
      { command with status := .dispatched, deliveredAtMs := some now } else command)
    (g := fun _ row => row) (fun id => get?_markDispatched commandIds id)
    (fun id => Option.map_id'.symm) ?_ ?_
  · intro id command
    split <;> rfl
  · intro id command row hcommand hmirrors
    split
    · rename_i hmem
      have hopen : row.outcome.isSome = false := by
        rw [Bool.eq_false_iff]
        intro hsome
        have hcompleted := hmirrors.completed.mpr hsome
        rw [hpending id hmem command hcommand] at hcompleted
        cases hcompleted
      exact { hmirrors with
        completed := by simp [hopen]
        pending := fun h => by cases h
        dispatched := fun _ => rfl }
    · exact hmirrors

/-- A new request comes with its command, under fresh identifiers. -/
theorem Paired.withContentRequest (h : t.Paired) {command : ContentRequestCommand}
    (hrequest : t.contentRequests.get? command.request.requestId = none)
    (hcommand : t.commands.get? command.commandId = none) :
    (Server.withContentRequest command t).Paired := by
  -- the commands that are there belong to other requests
  have hother : ∀ id old, t.commands.get? id = some old →
      old.requestId ≠ command.request.requestId := by
    intro id old hold heq
    obtain ⟨row, hrow, -⟩ := h.mirrored id old hold
    rw [heq, hrequest] at hrow
    cases hrow
  constructor
  · intro id row hrow
    simp only [Server.withContentRequest, Table.get?_put] at hrow ⊢
    by_cases hid : id = command.commandId
    · rw [if_pos hid, Option.some.injEq] at hrow
      subst hid hrow
      refine ⟨contentRequestRowOf command.request, if_pos rfl, ?_⟩
      exact {
        payload := rfl
        clientId := rfl
        createdAtMs := rfl
        completedAtMs := rfl
        completed := by simp [commandRowOf, contentRequestRowOf]
        timed := rfl
        decided := fun _ h => by cases h
        status := .inl rfl
        pending := fun _ => rfl
        dispatched := fun h => by cases h }
    · rw [if_neg hid] at hrow
      rw [if_neg (hother id row hrow)]
      exact h.mirrored id row hrow
  · intro id row id' row' hrow hrow' hsame
    simp only [Server.withContentRequest, Table.get?_put] at hrow hrow'
    by_cases hid : id = command.commandId
    · by_cases hid' : id' = command.commandId
      · rw [hid, hid']
      · rw [if_pos hid, Option.some.injEq] at hrow
        rw [if_neg hid'] at hrow'
        exact absurd (hsame.symm.trans (congrArg CommandRow.requestId hrow.symm))
          (hother id' row' hrow')
    · rw [if_neg hid] at hrow
      by_cases hid' : id' = command.commandId
      · rw [if_pos hid', Option.some.injEq] at hrow'
        exact absurd (hsame.trans (congrArg CommandRow.requestId hrow'.symm)) (hother id row hrow)
      · rw [if_neg hid'] at hrow'
        exact h.unique id row id' row' hrow hrow' hsame
  · intro requestId row hrow
    simp only [Server.withContentRequest, Table.get?_put] at hrow ⊢
    by_cases hid : requestId = command.request.requestId
    · exact ⟨command.commandId, commandRowOf command, if_pos rfl, hid.symm⟩
    · rw [if_neg hid] at hrow
      obtain ⟨id, old, hold, rfl⟩ := h.queued requestId row hrow
      refine ⟨id, old, ?_, rfl⟩
      rw [if_neg, hold]
      rintro rfl
      rw [hcommand] at hold
      cases hold

end ContentTables

/-! ## Runs -/

theorem pairs_insertManifests (t : ContentTables) (manifests : List ContentObjectManifest)
    (clientId : String) (now : TimestampMs) :
    (t.insertManifests manifests clientId now).commands = t.commands ∧
      (t.insertManifests manifests clientId now).contentRequests = t.contentRequests := by
  induction manifests generalizing t with
  | nil => exact ⟨rfl, rfl⟩
  | cons m manifests ih => exact ih (t.insertManifest m clientId now)

theorem pairs_upsertChunkRow {t t₁ : ContentTables} {chunk : ContentUploadChunk}
    {now : TimestampMs} {duplicate : Bool} (h : t.upsertChunkRow chunk now = .ok (duplicate, t₁)) :
    t₁.commands = t.commands ∧ t₁.contentRequests = t.contentRequests := by
  rcases upsertChunkRow_eq_ok.mp h with ⟨row, -, -, -, -, heq⟩ | ⟨-, -, heq⟩
  · cases heq
    exact ⟨rfl, rfl⟩
  · cases heq
    exact ⟨rfl, rfl⟩

theorem paired_change {codec : Codec} {tasks : Table String TaskRow} {principal : Principal}
    {now : TimestampMs} {t t' : ContentTables} {sent : List ContentRequestCommand} (h : t.Paired)
    (hchange : Change codec tasks principal now t sent t') : t'.Paired := by
  cases hchange with
  | none => exact h
  | polled =>
      refine h.markDispatched fun id hid command hcommand => ?_
      obtain ⟨r, hr, rfl⟩ := List.mem_map.mp hid
      obtain ⟨hget, -, hpending⟩ := mem_pendingCommands hr
      obtain rfl := Option.some.inj (hget.symm.trans hcommand)
      exact hpending
  | completed hdecided hload => exact h.complete _ hdecided
  | announced haccepts =>
      obtain ⟨hcommands, hrequests⟩ := pairs_insertManifests t _ _ now
      exact h.of_eq hcommands hrequests
  | kept haccepts hupsert =>
      obtain ⟨hcommands, hrequests⟩ := pairs_upsertChunkRow hupsert
      exact h.of_eq hcommands hrequests
  | @finished _ chunk request manifest t₁ assembled uncompressed hfinishes =>
      obtain ⟨duplicate, hupsert⟩ := hfinishes.upserted
      obtain ⟨hcommands, hrequests⟩ := pairs_upsertChunkRow hupsert
      have hstored : ((t₁.upsertContentObject request manifest assembled uncompressed
          now).touchConversation request.clientId request.sessionId request.threadId now).Paired :=
        h.of_eq hcommands hrequests
      rw [storeObject]
      split
      · exact hstored.complete request.requestId rfl
      · exact hstored.putBack request.requestId
  | requested haccepts =>
      have hevicted (request : ContentRequest) : (withConversation request t).Paired :=
        h.of_eq (withConversation_commands request) (withConversation_contentRequests request)
      refine (hevicted _).withContentRequest ?_ ?_
      · rw [withConversation_contentRequests]
        exact haccepts.requestId
      · rw [withConversation_commands]
        exact haccepts.commandId

theorem Api.paired_step {codec : Codec} {s : Api.Service} (h : s.db.content.Paired)
    (e : Api.Event) : (Api.step codec s e).db.content.Paired :=
  Api.content_step (I := ContentTables.Paired) (fun _ _ _ _ _ _ => paired_change) h e

/-- In every state that requests, polls, posts, evictions, commands and cleanups lead to,
commands and content requests are one to one, and each command row says what its request row
says. -/
theorem paired_run (codec : Codec) (db : Database) (es : List Api.Event) :
    (Run.run (Api.step codec) (.start { db with content := .empty }) es).db.content.Paired :=
  Api.content_run (I := ContentTables.Paired) (fun _ _ _ _ _ _ => paired_change) paired_empty es

end Codexwatch.Server
