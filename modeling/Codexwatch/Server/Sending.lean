import Codexwatch.Server.Pairing

/-!
# Every command is sent once

`next_command` reads the pending commands of a client and marks them in the transaction
that answers. Polls of one client may run at once, and posts complete commands that no
poll has seen. Over the whole service a command is in one reply at most, in one to its own
client, and it is marked as delivered exactly when it is in one.

## Main definitions

* `Api.Service.sent` — the commands in the replies, with their receivers.
* `Api.SentOnce` — what holds of them.
* `Api.sentOnce_run` — that it holds after every run.
-/
namespace Codexwatch.Server

open Protocol Relational ContentTables

/-- How often the command is among these. -/
def timesIn (commandId : Uuid) (commands : List ContentRequestCommand) : ℕ :=
  (commands.map ContentRequestCommand.commandId).count commandId

/-- How often the command was sent, as its row says. -/
def CommandRow.timesDelivered (command : CommandRow) : ℕ :=
  if command.deliveredAtMs.isSome then 1 else 0

/-- The commands that are sent are marked, and those that come are not. -/
structure Marks (clientId : String) (t : ContentTables) (sent : List ContentRequestCommand)
    (t' : ContentTables) : Prop where
  stored : ∀ c ∈ sent, ∃ command, t.commands.get? c.commandId = some command ∧
    command.clientId = clientId ∧ command.payloadJson = c
  old : ∀ commandId command, t.commands.get? commandId = some command →
    ∃ command', t'.commands.get? commandId = some command' ∧
      command'.clientId = command.clientId ∧ command'.payloadJson = command.payloadJson ∧
      command'.timesDelivered = command.timesDelivered + timesIn commandId sent
  fresh : ∀ commandId command', t.commands.get? commandId = none →
    t'.commands.get? commandId = some command' → command'.timesDelivered = 0

section Marks
variable {clientId : String} {t t' : ContentTables} {now : TimestampMs}

/-- Nothing is sent, and rows are rewritten outside the columns of the delivery. -/
theorem marks_map {f : Uuid → CommandRow → CommandRow}
    (hcommands : ∀ id, t'.commands.get? id = (t.commands.get? id).map (f id))
    (hf : ∀ id command, (f id command).clientId = command.clientId ∧
      (f id command).payloadJson = command.payloadJson ∧
      (f id command).deliveredAtMs = command.deliveredAtMs) : Marks clientId t [] t' where
  stored _ hc := by cases hc
  old id command hcommand := by
    obtain ⟨hclient, hpayload, hdelivered⟩ := hf id command
    refine ⟨f id command, by rw [hcommands, hcommand, Option.map_some], hclient, hpayload, ?_⟩
    rw [CommandRow.timesDelivered, hdelivered]
    rfl
  fresh id command' hnone hcommand' := by
    rw [hcommands, hnone] at hcommand'
    cases hcommand'

/-- The other tables before do not matter. -/
theorem Marks.of_eq {t₁ : ContentTables} {sent : List ContentRequestCommand}
    (h : Marks clientId t₁ sent t') (hcommands : t₁.commands = t.commands) :
    Marks clientId t sent t' := by
  obtain ⟨hstored, hold, hfresh⟩ := h
  rw [hcommands] at hstored hold hfresh
  exact ⟨hstored, hold, hfresh⟩

theorem marks_of_eq (h : t'.commands = t.commands) : Marks clientId t [] t' :=
  marks_map (f := fun _ command => command) (fun id => by rw [h]; exact Option.map_id'.symm)
    fun _ _ => ⟨rfl, rfl, rfl⟩

theorem marks_complete (requestId : Uuid) (status : RequestStatus) :
    Marks clientId t [] (t.completeRequestAndCommand requestId status now) := by
  refine marks_map (f := fun _ command => if command.requestId = requestId then
    { command with status := .completed, completedAtMs := some now } else command) ?_ ?_
  · intro id
    simp [completeRequestAndCommand, Table.get?_updateWhere]
  · intro id command
    split <;> exact ⟨rfl, rfl, rfl⟩

/-- The identifiers of the pending commands are those in their payloads. -/
theorem map_pendingCommands (h : t.Paired) (clientId : String) :
    ((pendingCommands t clientId).map fun r => r.2.payloadJson).map
        ContentRequestCommand.commandId =
      (pendingCommands t clientId).map Prod.fst := by
  rw [List.map_map]
  refine List.map_congr_left fun r hr => ?_
  obtain ⟨row, -, hmirrors⟩ := h.mirrored r.1 r.2 (mem_pendingCommands hr).1
  exact congrArg ContentRequestCommand.commandId hmirrors.payload

/-- A poll marks what it sends. -/
theorem marks_polled (h : t.Paired) :
    Marks clientId t ((pendingCommands t clientId).map fun r => r.2.payloadJson)
      (markDispatched t ((pendingCommands t clientId).map Prod.fst) now) where
  stored c hc := by
    obtain ⟨r, hr, rfl⟩ := List.mem_map.mp hc
    obtain ⟨hget, hclient, -⟩ := mem_pendingCommands hr
    obtain ⟨row, -, hmirrors⟩ := h.mirrored r.1 r.2 hget
    refine ⟨r.2, ?_, hclient, rfl⟩
    rw [hmirrors.payload]
    exact hget
  old id command hcommand := by
    rw [get?_markDispatched, hcommand, Option.map_some, timesIn, map_pendingCommands h]
    refine ⟨_, rfl, ?_⟩
    split
    · rename_i hmem
      obtain ⟨r, hr, rfl⟩ := List.mem_map.mp hmem
      obtain ⟨hget, -, hpending⟩ := mem_pendingCommands hr
      obtain rfl := Option.some.inj (hget.symm.trans hcommand)
      obtain ⟨row, -, hmirrors⟩ := h.mirrored r.1 r.2 hget
      refine ⟨rfl, rfl, ?_⟩
      rw [List.count_eq_one_of_mem (nodup_pendingCommands t clientId) hmem]
      simp [CommandRow.timesDelivered, hmirrors.pending hpending]
    · rename_i hmem
      rw [List.count_eq_zero_of_not_mem hmem]
      exact ⟨rfl, rfl, rfl⟩
  fresh id command' hnone hcommand' := by
    rw [get?_markDispatched, hnone] at hcommand'
    cases hcommand'

/-- A new command is not sent with its insertion. -/
theorem marks_withContentRequest {command : ContentRequestCommand}
    (hcommand : t.commands.get? command.commandId = none) :
    Marks clientId t [] (withContentRequest command t) where
  stored _ hc := by cases hc
  old id row hrow := by
    refine ⟨row, ?_, rfl, rfl, rfl⟩
    rw [withContentRequest, Table.get?_put_of_ne, hrow]
    rintro rfl
    rw [hcommand] at hrow
    cases hrow
  fresh id row' hnone hrow' := by
    rw [withContentRequest, Table.get?_put] at hrow'
    split at hrow'
    · rw [← Option.some.inj hrow']
      rfl
    · rw [hnone] at hrow'
      cases hrow'

theorem marks_change {codec : Codec} {tasks : Table String TaskRow} {principal : Principal}
    {sent : List ContentRequestCommand} (h : t.Paired)
    (hchange : Change codec tasks principal now t sent t') :
    Marks principal.clientId t sent t' := by
  cases hchange with
  | none => exact marks_of_eq rfl
  | polled => exact marks_polled h
  | completed hdecided hload => exact marks_complete _ _
  | announced haccepts => exact marks_of_eq (pairs_insertManifests t _ _ now).1
  | kept haccepts hupsert => exact marks_of_eq (pairs_upsertChunkRow hupsert).1
  | @finished _ chunk request manifest t₁ assembled uncompressed hfinishes =>
      obtain ⟨duplicate, hupsert⟩ := hfinishes.upserted
      have hcommands := (pairs_upsertChunkRow hupsert).1
      rw [storeObject]
      split
      · exact (marks_complete _ _).of_eq hcommands
      · exact marks_of_eq hcommands
  | requested haccepts =>
      refine (marks_withContentRequest ?_).of_eq (withConversation_commands _)
      rw [withConversation_commands]
      exact haccepts.commandId

end Marks

/-! ## Runs -/

namespace Api

/-- The commands in the replies, with the clients that they were sent to. -/
def Service.sent (s : Service) : List (String × ContentRequestCommand) :=
  s.served.flatMap fun r => r.2.sent.map fun c => (r.1.principal.clientId, c)

/-- The commands that the event sends are those of the reply it appends. -/
theorem marks_step (codec : Codec) {s : Service} (h : s.db.content.Paired) (e : Event) :
    ∃ clientId sent,
      (step codec s e).sent = s.sent ++ sent.map (fun c => (clientId, c)) ∧
        Marks clientId s.db.content sent (step codec s e).db.content := by
  have hnone {s' : Service} (hserved : s'.served = s.served)
      (hmarks : Marks "" s.db.content [] s'.db.content) :
      ∃ clientId sent, s'.sent = s.sent ++ sent.map (fun c => (clientId, c)) ∧
        Marks clientId s.db.content sent s'.db.content :=
    ⟨"", [], by simp [Service.sent, hserved], hmarks⟩
  cases e with
  | token command => exact hnone rfl (by cases command <;> exact marks_of_eq rfl)
  | request headers call instant =>
      rw [step]
      split <;> exact hnone rfl (marks_of_eq rfl)
  | proceed index instant now freshRequest freshCommand =>
      rw [step]
      split
      · exact hnone rfl (marks_of_eq rfl)
      · rename_i adm _
        split
        · exact hnone rfl (marks_of_eq rfl)
        · have hchange := change_handle codec s.db adm.principal now freshRequest freshCommand
            adm.call
          refine ⟨adm.principal.clientId, _, ?_, marks_change h hchange⟩
          simp [Service.sent]
  | hangUp index => exact hnone rfl (marks_of_eq rfl)
  | requestContent taskRef parts expiresAtMs freshRequest freshCommand now =>
      have hchange := content_requestContentCli codec s.db taskRef parts expiresAtMs
        freshRequest freshCommand now
      exact ⟨_, [], by simp [Service.sent, step], marks_change h hchange⟩
  | cleanup sweep now => exact hnone rfl (marks_of_eq (by rw [step, content_sweep]))

/-- Every command that was sent is stored, for the client it was sent to, and rows count how
often their commands were sent. -/
structure Accounts (s : Service) : Prop where
  stored : ∀ p ∈ s.sent, ∃ command, s.db.content.commands.get? p.2.commandId = some command ∧
    command.clientId = p.1 ∧ command.payloadJson = p.2
  counted : ∀ commandId command, s.db.content.commands.get? commandId = some command →
    command.timesDelivered = timesIn commandId (s.sent.map Prod.snd)

theorem Accounts.step {codec : Codec} {s : Service} (h : Accounts s)
    (hpaired : s.db.content.Paired) (e : Event) : Accounts (step codec s e) := by
  obtain ⟨clientId, sent, hsent, hmarks⟩ := marks_step codec hpaired e
  have htimes (commandId : Uuid) :
      timesIn commandId (s.sent.map Prod.snd ++ sent) =
        timesIn commandId (s.sent.map Prod.snd) + timesIn commandId sent := by
    rw [timesIn, List.map_append, List.count_append, timesIn, timesIn]
  constructor
  · intro p hp
    have hold : ∃ command, s.db.content.commands.get? p.2.commandId = some command ∧
        command.clientId = p.1 ∧ command.payloadJson = p.2 := by
      rw [hsent, List.mem_append] at hp
      rcases hp with hp | hp
      · exact h.stored p hp
      · obtain ⟨c, hc, rfl⟩ := List.mem_map.mp hp
        exact hmarks.stored c hc
    obtain ⟨command, hcommand, hclient, hpayload⟩ := hold
    obtain ⟨command', hcommand', hclient', hpayload', -⟩ := hmarks.old _ command hcommand
    exact ⟨command', hcommand', hclient'.trans hclient, hpayload'.trans hpayload⟩
  · intro commandId command' hcommand'
    rw [hsent, List.map_append, List.map_map, Function.comp_def, List.map_id', htimes]
    cases hcommand : s.db.content.commands.get? commandId with
    | some command =>
        obtain ⟨command'', hcommand'', -, -, hdelivered⟩ := hmarks.old _ command hcommand
        obtain rfl := Option.some.inj (hcommand'.symm.trans hcommand'')
        rw [hdelivered, h.counted commandId command hcommand]
    | none =>
        -- a command that is new was in no reply
        rw [hmarks.fresh commandId command' hcommand hcommand']
        have hunsent {commands : List ContentRequestCommand}
            (hstored : ∀ c ∈ commands, ∃ command,
              s.db.content.commands.get? c.commandId = some command) :
            timesIn commandId commands = 0 := by
          rw [timesIn, List.count_eq_zero]
          intro hmem
          obtain ⟨c, hc, rfl⟩ := List.mem_map.mp hmem
          obtain ⟨command, hget⟩ := hstored c hc
          rw [hcommand] at hget
          cases hget
        rw [hunsent, hunsent]
        · intro c hc
          obtain ⟨command, hget, -⟩ := hmarks.stored c hc
          exact ⟨command, hget⟩
        · intro c hc
          obtain ⟨p, hp, rfl⟩ := List.mem_map.mp hc
          obtain ⟨command, hget, -⟩ := h.stored p hp
          exact ⟨command, hget⟩

/-- What holds of the commands that were sent. -/
structure SentOnce (s : Service) : Prop where
  /-- No command is in two replies, or twice in one. -/
  once : (s.sent.map fun p => p.2.commandId).Nodup
  /-- A command is sent to the client whose content it asks for, as the request is stored. -/
  asStored : ∀ p ∈ s.sent, ∃ row,
    s.db.content.contentRequests.get? p.2.request.requestId = some row ∧ row.clientId = p.1 ∧
      p.2.request = requestOf row.clientId p.2.request.requestId row
  /-- The commands that are marked as delivered are those that were sent. -/
  marked : ∀ commandId command, s.db.content.commands.get? commandId = some command →
    (command.deliveredAtMs.isSome ↔ ∃ p ∈ s.sent, p.2.commandId = commandId)

theorem Accounts.sentOnce {s : Service} (h : Accounts s) (hpaired : s.db.content.Paired) :
    SentOnce s where
  once := by
    rw [List.nodup_iff_count_le_one]
    intro commandId
    by_cases hmem : commandId ∈ s.sent.map fun p => p.2.commandId
    · obtain ⟨p, hp, rfl⟩ := List.mem_map.mp hmem
      obtain ⟨command, hcommand, -, -⟩ := h.stored p hp
      have hcount := h.counted _ command hcommand
      rw [timesIn, List.map_map] at hcount
      change _ = List.count p.2.commandId (s.sent.map fun p => p.2.commandId) at hcount
      rw [← hcount, CommandRow.timesDelivered]
      split <;> omega
    · rw [List.count_eq_zero_of_not_mem hmem]
      exact Nat.zero_le 1
  asStored p hp := by
    obtain ⟨command, hcommand, hclient, hpayload⟩ := h.stored p hp
    obtain ⟨row, hrow, hmirrors⟩ := hpaired.mirrored _ command hcommand
    have hrequest : p.2.request = requestOf row.clientId command.requestId row := by
      rw [← hpayload, hmirrors.payload]
    have hid : p.2.request.requestId = command.requestId := by rw [hrequest]; rfl
    refine ⟨row, by rw [hid, hrow], hmirrors.clientId.symm.trans hclient, ?_⟩
    rw [hid, hrequest]
  marked commandId command hcommand := by
    have hcount := h.counted commandId command hcommand
    rw [timesIn, List.map_map, CommandRow.timesDelivered] at hcount
    constructor
    · intro hsome
      rw [if_pos hsome] at hcount
      have hmem : commandId ∈ s.sent.map (ContentRequestCommand.commandId ∘ Prod.snd) :=
        List.count_pos_iff.mp (by omega)
      obtain ⟨p, hp, rfl⟩ := List.mem_map.mp hmem
      exact ⟨p, hp, rfl⟩
    · rintro ⟨p, hp, rfl⟩
      by_contra hnone
      rw [if_neg hnone] at hcount
      exact List.count_eq_zero.mp hcount.symm (List.mem_map_of_mem hp)

/-- After every run of the service, every command was sent once at most, to its own client and
as its request is stored, and is marked exactly when it was sent. -/
theorem sentOnce_run (codec : Codec) (db : Database) (es : List Event) :
    SentOnce (Run.run (Api.step codec) (.start { db with content := .empty }) es) := by
  have hstart : Accounts (.start { db with content := .empty }) := by
    constructor
    · simp [Service.start, Service.sent]
    · simp [Service.start, ContentTables.empty]
  obtain ⟨hpaired, haccounts⟩ :=
    Run.invariant (I := fun s : Service => s.db.content.Paired ∧ Accounts s)
      (fun s e hs => ⟨paired_step hs.1 e, hs.2.step hs.1 e⟩) ⟨paired_empty, hstart⟩ es
  exact haccounts.sentOnce hpaired

end Api

end Codexwatch.Server
